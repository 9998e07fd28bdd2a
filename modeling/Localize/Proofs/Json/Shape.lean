import Localize.Json.Shape
import Localize.Proofs.Outcome

/-!
# Values that cannot be used

Which values are of no use as an object or a list, and whether their type or their size is to blame.
-/

namespace Localize.Json

variable {value : Json}

/-- A value of two items whose first can name something. -/
def IsPair (value : Json) : Prop :=
  ∃ key content, value.elements? = some [key, content] ∧ key.canName = true

/-- A value whose items are not two. -/
def IsLopsided (value : Json) : Prop := ∃ parts, value.elements? = some parts ∧ parts.length ≠ 2

/-- A value used as a list of pairs in which a lopsided one is reached behind pairs. -/
def HasLopsided (value : Json) : Prop :=
  (∀ fields, value ≠ .obj fields) ∧
    ∃ parts, value.elements? = some parts ∧ Halts IsPair IsLopsided parts

/-- A value that neither counts as nothing nor is an object. -/
def IsNoObject (value : Json) : Prop := value.isSomething = true ∧ ∀ fields, value ≠ .obj fields

theorem asField_cases (value : Json) :
    (∃ field, value.asField = .ok field ∧ value.IsPair ∧ ¬value.IsLopsided) ∨
      value.asField = .error .wrongType ∧ ¬value.IsPair ∧ ¬value.IsLopsided ∨
      value.asField = .error .badValue ∧ ¬value.IsPair ∧ value.IsLopsided := by
  unfold asField IsPair IsLopsided
  cases value.elements? with
  | none => simp
  | some parts =>
    match parts with
    | [] => simp
    | [_] => simp
    | [key, content] => cases hkey : key.canName <;> simp [hkey]
    | _ :: _ :: _ :: _ => simp

theorem exists_asField_iff : (∃ field, value.asField = .ok field) ↔ value.IsPair := by
  rcases value.asField_cases with ⟨field, h, hpair, -⟩ | ⟨h, hpair, -⟩ | ⟨h, hpair, -⟩
  · exact ⟨fun _ => hpair, fun _ => ⟨field, h⟩⟩
  · simp [h, hpair]
  · simp [h, hpair]

theorem asField_badValue_iff : value.asField = .error .badValue ↔ value.IsLopsided := by
  rcases value.asField_cases with ⟨field, h, -, hlopsided⟩ | ⟨h, -, hlopsided⟩ | ⟨h, -, hlopsided⟩
  · simp [h, hlopsided]
  · simp [h, hlopsided]
  · simp [h, hlopsided]

theorem asField_error {fault : Fault} (h : value.asField = .error fault) :
    fault = .wrongType ∨ fault = .badValue := by
  rcases value.asField_cases with ⟨field, h', -⟩ | ⟨h', -⟩ | ⟨h', -⟩
  · cases h'.symm.trans h
  · cases h'.symm.trans h
    exact .inl rfl
  · cases h'.symm.trans h
    exact .inr rfl

theorem asFields_cases (value : Json) :
    (∃ fields, value = .obj fields) ∨
      (∀ fields, value ≠ .obj fields) ∧ value.asFields =
        match value.elements? with
        | none => .error .wrongType
        | some items => (items.mapM asField).map Table.ofPairs := by
  cases value with
  | obj fields => exact .inl ⟨fields, rfl⟩
  | null | bool _ | int _ | float _ | str _ | arr _ => exact .inr ⟨by simp, rfl⟩

theorem asFields_badValue_iff : value.asFields = .error .badValue ↔ value.HasLopsided := by
  rcases value.asFields_cases with ⟨fields, rfl⟩ | ⟨hobj, h⟩
  · simp [asFields, HasLopsided]
  · rw [h, HasLopsided, and_iff_right hobj]
    cases value.elements? with
    | none => simp
    | some items =>
      have hhalts : items.mapM asField = .error .badValue ↔ _ := mapM_error_iff
      simp only [exists_asField_iff, asField_badValue_iff] at hhalts
      simp only [Option.some.injEq, exists_eq_left', ← hhalts]
      cases items.mapM asField with
      | error fault => simp [Except.map]
      | ok fields => simp [Except.map]

theorem asFields_error {fault : Fault} (h : value.asFields = .error fault) :
    fault = .wrongType ∨ fault = .badValue := by
  rcases value.asFields_cases with ⟨fields, rfl⟩ | ⟨-, hfields⟩
  · cases h
  · rw [hfields] at h
    cases helements : value.elements? with
    | none =>
      simp only [helements] at h
      cases h
      exact .inl rfl
    | some items =>
      simp only [helements] at h
      cases hmap : items.mapM asField with
      | ok fields =>
        rw [hmap] at h
        cases h
      | error fault' =>
        rw [hmap] at h
        cases h
        obtain ⟨_, _, _, _, _, hitem⟩ := mapM_error_iff.mp hmap
        exact asField_error hitem

/-- What counts as nothing has no items. -/
theorem elements?_of_not_isSomething (h : value.isSomething = false) {items : List Json}
    (hitems : value.elements? = some items) : items = [] := by
  cases value with
  | arr items' => simp_all [isSomething, elements?]
  | str t => simp_all [isSomething, elements?]
  | obj fields => simp_all [isSomething, elements?]
  | null | bool _ | int _ | float _ => cases hitems

theorem HasLopsided.isSomething (h : value.HasLopsided) : value.isSomething = true := by
  obtain ⟨-, parts, hparts, hhalts⟩ := h
  by_contra hnothing
  rw [elements?_of_not_isSomething (eq_false_of_ne_true hnothing) hparts] at hhalts
  exact halts_nil hhalts

/-! ### Values that may be missing -/

variable {value? : Option Json}

theorem fieldsOrNone_badValue_iff :
    fieldsOrNone value? = .error .badValue ↔ ∃ value, value? = some value ∧ value.HasLopsided := by
  cases value? with
  | none => simp [fieldsOrNone]
  | some value =>
    simp only [fieldsOrNone, Option.some.injEq, exists_eq_left', ← asFields_badValue_iff]
    cases hsomething : value.isSomething with
    | true => simp
    | false =>
      have hbad : ¬value.HasLopsided := fun h => by
        rw [h.isSomething] at hsomething
        cases hsomething
      simp [asFields_badValue_iff, hbad]

theorem fieldsOrNone_error {fault : Fault} (h : fieldsOrNone value? = .error fault) :
    fault = .wrongType ∨ fault = .badValue := by
  unfold fieldsOrNone at h
  split at h
  · cases h
  · split at h
    · exact asFields_error h
    · cases h

theorem elementsOrNone_error {fault : Fault} (h : elementsOrNone value? = .error fault) :
    fault = .wrongType := by
  unfold elementsOrNone at h
  split at h
  · cases h
  · split at h
    · split at h
      · cases h
      · cases h
        rfl
    · cases h

theorem exists_overlay_error_iff {fields : Fields} :
    (∃ fault, overlay fields value? = .error fault) ↔
      ∃ value, value? = some value ∧ value.IsNoObject := by
  cases value? with
  | none => simp [overlay]
  | some value =>
    cases value with
    | obj newer => simp [overlay, IsNoObject]
    | null | bool _ | int _ | float _ | str _ | arr _ =>
      simp only [overlay, IsNoObject, Option.some.injEq, exists_eq_left', ne_eq, reduceCtorEq,
        not_false_eq_true, implies_true, and_true]
      split <;> simp_all

end Localize.Json
