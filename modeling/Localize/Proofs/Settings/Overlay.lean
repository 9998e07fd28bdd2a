import Localize.Proofs.Json.Sound
import Localize.Settings.Basic

/-!
# Fields laid over fields

Where the newer fields have an object at a path and the older ones have one there too, the result
has one with the names of the older object, followed by the new ones. Where the newer fields have
anything else, or the older ones no object, the result has what the newer fields have, and behind a
name that the newer object lacks it has what the older fields have. Laying the result over the older
fields, or the newer fields over the result, gives the result again.
-/

namespace Localize

namespace Json

/-- The value that a path of names leads to, from object to object. -/
def atPath? (value : Json) (path : List Text) : Option Json :=
  path.foldlM (fun value name => value.field? name) value

variable {value : Json} {path rest : List Text} {name : Text}

@[simp] theorem atPath?_nil (value : Json) : value.atPath? [] = some value := rfl

theorem atPath?_cons (value : Json) (name : Text) (path : List Text) :
    value.atPath? (name :: path) = (value.field? name).bind (·.atPath? path) := rfl

theorem atPath?_append (value : Json) (path rest : List Text) :
    value.atPath? (path ++ rest) = (value.atPath? path).bind (·.atPath? rest) :=
  List.foldlM_append

theorem field?_eq_none (h : ∀ fields, value ≠ .obj fields) (name : Text) :
    value.field? name = none := by
  cases value with
  | obj fields => exact absurd rfl (h fields)
  | null | bool _ | int _ | float _ | str _ | arr _ => rfl

theorem sound_atPath? (h : value.Sound) {inner : Json} (hinner : value.atPath? path = some inner) :
    inner.Sound := by
  induction path generalizing value with
  | nil =>
    cases hinner
    exact h
  | cons name path ih =>
    rw [atPath?_cons] at hinner
    obtain ⟨next, hfield, hnext⟩ := Option.bind_eq_some_iff.mp hinner
    exact ih (h.field? hfield) hnext

/-- An object that lies over another one: what is found in it at a path, by what is found there in
the two. -/
structure LaidOver (older newer result : Json) : Prop where
  plain : ∀ path value, newer.atPath? path = some value → (∀ fields, value ≠ .obj fields) →
    result.atPath? path = some value
  fresh : ∀ path fields, newer.atPath? path = some (.obj fields) →
    (∀ others, older.atPath? path ≠ some (.obj others)) →
    result.atPath? path = some (.obj fields)
  kept : ∀ path others fields name rest, older.atPath? path = some (.obj others) →
    newer.atPath? path = some (.obj fields) → Table.find? fields name = none →
    result.atPath? (path ++ name :: rest) = older.atPath? (path ++ name :: rest)
  ordered : ∀ path others fields, older.atPath? path = some (.obj others) →
    newer.atPath? path = some (.obj fields) → ∃ all, result.atPath? path = some (.obj all) ∧
      Table.keys all = Table.keys others ++ (Table.keys fields).filter (· ∉ Table.keys others)

end Json

namespace Settings

variable {base newer : Fields} {older : Option Json} {value inner : Json} {path : List Text}

/-! ### One value over another -/

theorem overlayValue_obj (base newer : Fields) :
    overlayValue (some (.obj base)) (.obj newer) = .obj (overlay base newer) := by
  rw [overlayValue]

theorem overlayValue_eq_self (h : ∀ base newer, older = some (.obj base) → value ≠ .obj newer) :
    overlayValue older value = value := by
  rw [overlayValue]
  exact h

/-- Two objects are laid over each other field by field; any other value takes the place of what was
there. -/
theorem overlayValue_cases (older : Option Json) (value : Json) :
    (∃ base newer, older = some (.obj base) ∧ value = .obj newer) ∨
      ∀ base newer, older = some (.obj base) → value ≠ .obj newer := by
  by_cases h : ∃ base newer, older = some (.obj base) ∧ value = .obj newer
  · exact .inl h
  · exact .inr fun base newer holder hvalue => h ⟨base, newer, holder, hvalue⟩

/-! ### Fields by their names -/

/-- Every newer name gets its value laid over the older value of the name. -/
theorem overlay_eq_merge (hnewer : (Table.keys newer).Nodup) (base : Fields) :
    overlay base newer =
      Table.merge base (newer.map fun f => (f.1, overlayValue (Table.find? base f.1) f.2)) := by
  induction newer generalizing base with
  | nil => rw [overlay, List.map_nil, Table.merge, List.foldl_nil]
  | cons f newer ih =>
    obtain ⟨name, value⟩ := f
    rw [Table.keys_cons, List.nodup_cons] at hnewer
    obtain ⟨hname, hnewer⟩ := hnewer
    -- The names behind are others, so the older values that they meet are still those of `base`.
    have hothers : newer.map (fun f => (f.1, overlayValue (Table.find? (Table.insert base name
          (overlayValue (Table.find? base name) value)) f.1) f.2)) =
        newer.map fun f => (f.1, overlayValue (Table.find? base f.1) f.2) := by
      refine List.map_congr_left fun f hf => ?_
      have hne : name ≠ f.1 := fun h => hname (List.mem_map.mpr ⟨f, hf, h.symm⟩)
      rw [Table.find?_insert, if_neg hne]
    rw [overlay, ih hnewer, hothers]
    rfl

theorem find?_overlay (hnewer : (Table.keys newer).Nodup) (base : Fields) (name : Text) :
    Table.find? (overlay base newer) name =
      ((Table.find? newer name).map (overlayValue (Table.find? base name))).or
        (Table.find? base name) := by
  have hkeys := Table.keys_map_pairs newer fun f => overlayValue (Table.find? base f.1) f.2
  rw [overlay_eq_merge hnewer, Table.find?_merge, Table.find?_reverse (hkeys ▸ hnewer),
    Table.find?_map_pairs newer (fun name value => overlayValue (Table.find? base name) value)]

theorem keys_overlay (hnewer : (Table.keys newer).Nodup) (base : Fields) :
    Table.keys (overlay base newer) =
      Table.keys base ++ (Table.keys newer).filter (· ∉ Table.keys base) := by
  have hkeys := Table.keys_map_pairs newer fun f => overlayValue (Table.find? base f.1) f.2
  rw [overlay_eq_merge hnewer, Table.keys_merge (hkeys ▸ hnewer), hkeys]
  exact congrArg _ (List.filter_congr fun _ _ => decide_eq_decide.mpr Iff.rfl)

/-- An object's values laid over those of another are values that a document can hold. -/
theorem sound_overlayValue (hvalue : value.Sound) (holder : ∀ u ∈ older, u.Sound) :
    (overlayValue older value).Sound := by
  induction hvalue generalizing older with
  | @obj newer hkeys hfields ih =>
    rcases overlayValue_cases older (.obj newer) with ⟨base, _, rfl, hobj⟩ | hother
    · cases hobj
      have hbase : (Json.obj base).Sound := holder _ rfl
      rw [overlayValue_obj, overlay_eq_merge hkeys]
      refine hbase.merge fun f hf => ?_
      obtain ⟨g, hg, rfl⟩ := List.mem_map.mp hf
      exact ih g hg fun u hu => hbase.find? hu
    · rw [overlayValue_eq_self hother]
      exact .obj hkeys hfields
  | null | bool _ | int _ | float _ | str _ | arr _ =>
    rw [overlayValue_eq_self (by simp)]
    constructor <;> assumption

theorem sound_overlay (hbase : (Json.obj base).Sound) (hnewer : (Json.obj newer).Sound) :
    (Json.obj (overlay base newer)).Sound := by
  rw [← overlayValue_obj]
  exact sound_overlayValue hnewer (by simpa using hbase)

/-! ### Again and again -/

/-- Fields that have every newer value already, laid over the older one of its name, stay as they
are. -/
theorem overlay_eq_self (hbase : (Table.keys base).Nodup) (hnewer : (Table.keys newer).Nodup)
    (h : ∀ name value, Table.find? newer name = some value →
      ∃ older, Table.find? base name = some older ∧ overlayValue (some older) value = older) :
    overlay base newer = base := by
  have hkeys : Table.keys (overlay base newer) = Table.keys base := by
    have hnone : (Table.keys newer).filter (· ∉ Table.keys base) = [] := by
      refine List.filter_eq_nil_iff.mpr fun name hname => ?_
      obtain ⟨value, hvalue⟩ := Option.isSome_iff_exists.mp (Table.mem_keys_iff.mp hname)
      obtain ⟨older, holder, -⟩ := h name value hvalue
      have hmem : name ∈ Table.keys base := Table.mem_keys_iff.mpr (by rw [holder]; rfl)
      simpa using hmem
    rw [keys_overlay hnewer, hnone, List.append_nil]
  refine Table.eq_of_find?_eq hkeys (hkeys ▸ hbase) fun name _ => ?_
  rw [find?_overlay hnewer]
  cases hvalue : Table.find? newer name with
  | none => rfl
  | some value =>
    obtain ⟨older, holder, hsame⟩ := h name value hvalue
    rw [holder, Option.map_some, Option.some_or, hsame]

/-- A value laid over itself is itself. -/
theorem overlayValue_self (h : value.Sound) : overlayValue (some value) value = value := by
  induction h with
  | @obj fields hkeys _ ih =>
    rw [overlayValue_obj, overlay_eq_self hkeys hkeys]
    intro name value hvalue
    exact ⟨value, hvalue, ih _ (Table.mem_of_find? hvalue)⟩
  | null | bool _ | int _ | float _ | str _ | arr _ => exact overlayValue_eq_self (by simp)

/-- A value laid again over what came of it changes nothing. -/
theorem overlayValue_newer_again (h : value.Sound) (older : Option Json)
    (holder : ∀ u ∈ older, u.Sound) :
    overlayValue (some (overlayValue older value)) value = overlayValue older value := by
  induction h generalizing older with
  | @obj newer hkeys hfields ih =>
    rcases overlayValue_cases older (.obj newer) with ⟨base, _, rfl, hobj⟩ | hother
    · cases hobj
      have hbase : (Json.obj base).Sound := holder _ rfl
      have hall := Json.sound_obj_iff.mp (sound_overlay hbase (.obj hkeys hfields))
      rw [overlayValue_obj, overlayValue_obj, overlay_eq_self hall.1 hkeys]
      intro name value hvalue
      refine ⟨overlayValue (Table.find? base name) value, ?_,
        ih _ (Table.mem_of_find? hvalue) _ fun u hu => hbase.find? hu⟩
      rw [find?_overlay hkeys, hvalue, Option.map_some, Option.some_or]
    · rw [overlayValue_eq_self hother]
      exact overlayValue_self (.obj hkeys hfields)
  | null | bool _ | int _ | float _ | str _ | arr _ =>
    rw [overlayValue_eq_self (by simp), overlayValue_eq_self (by simp)]

/-- What came of laying a value over an older one, laid over the older one again, changes nothing.
-/
theorem overlayValue_older_again (h : value.Sound) (older : Option Json)
    (holder : ∀ u ∈ older, u.Sound) :
    overlayValue older (overlayValue older value) = overlayValue older value := by
  induction h generalizing older with
  | @obj newer hkeys hfields ih =>
    rcases overlayValue_cases older (.obj newer) with ⟨base, _, rfl, hobj⟩ | hother
    · cases hobj
      have hbase : (Json.obj base).Sound := holder _ rfl
      have hall := Json.sound_obj_iff.mp (sound_overlay hbase (.obj hkeys hfields))
      have hsame : Table.keys (overlay base (overlay base newer)) =
          Table.keys (overlay base newer) := by
        rw [keys_overlay hall.1, keys_overlay hkeys, List.filter_append, List.filter_filter]
        simp
      -- Name by name: what the newer object has is laid over again, the rest over itself.
      rw [overlayValue_obj, overlayValue_obj]
      refine congrArg _ (Table.eq_of_find?_eq hsame (hsame ▸ hall.1) fun name _ => ?_)
      rw [find?_overlay hall.1, find?_overlay hkeys]
      cases hvalue : Table.find? newer name with
      | some value =>
        have hagain := ih _ (Table.mem_of_find? hvalue) (Table.find? base name) fun u hu =>
          hbase.find? hu
        rw [Option.map_some, Option.some_or, Option.map_some, Option.some_or, hagain]
      | none =>
        cases hbefore : Table.find? base name with
        | none => rfl
        | some value =>
          rw [Option.map_none, Option.none_or, Option.map_some, Option.some_or,
            overlayValue_self (hbase.find? hbefore)]
    · exact congrArg (overlayValue older) (overlayValue_eq_self hother)
  | null | bool _ | int _ | float _ | str _ | arr _ =>
    exact congrArg (overlayValue older) (overlayValue_eq_self (by simp))

theorem overlay_newer_again (hbase : (Json.obj base).Sound) (hnewer : (Json.obj newer).Sound) :
    overlay (overlay base newer) newer = overlay base newer := by
  have hagain := overlayValue_newer_again hnewer (some (.obj base)) (by simpa using hbase)
  rw [overlayValue_obj, overlayValue_obj] at hagain
  exact Json.obj.inj hagain

theorem overlay_older_again (hbase : (Json.obj base).Sound) (hnewer : (Json.obj newer).Sound) :
    overlay base (overlay base newer) = overlay base newer := by
  have hagain := overlayValue_older_again hnewer (some (.obj base)) (by simpa using hbase)
  rw [overlayValue_obj, overlayValue_obj] at hagain
  exact Json.obj.inj hagain

/-! ### Along a path -/

/-- At a path of the newer value the result is what is there, laid over what the older value has
there. -/
theorem atPath?_overlayValue (hvalue : value.Sound) (h : value.atPath? path = some inner)
    (older : Option Json) : (overlayValue older value).atPath? path =
      some (overlayValue (older.bind (·.atPath? path)) inner) := by
  induction path generalizing value older with
  | nil =>
    cases h
    cases older <;> rfl
  | cons name path ih =>
    rw [Json.atPath?_cons] at h
    obtain ⟨next, hfield, hnext⟩ := Option.bind_eq_some_iff.mp h
    rcases overlayValue_cases older value with ⟨base, newer, rfl, rfl⟩ | hother
    · have hname : Table.find? newer name = some next := hfield
      have hfound : (Json.obj (overlay base newer)).field? name =
          some (overlayValue (Table.find? base name) next) := by
        rw [Json.field?, find?_overlay (Json.sound_obj_iff.mp hvalue).1, hname, Option.map_some,
          Option.some_or]
      rw [overlayValue_obj, Json.atPath?_cons, hfound, Option.bind_some,
        ih (hvalue.field? hfield) hnext]
      rfl
    · -- The newer value is an object, as a field of it has been found, so the older one is none.
      have hnone : older.bind (·.atPath? (name :: path)) = none := by
        cases older with
        | none => rfl
        | some u =>
          have hu : ∀ fields, u ≠ .obj fields := by
            rintro fields rfl
            cases value with
            | obj newer => exact hother _ _ rfl rfl
            | null | bool _ | int _ | float _ | str _ | arr _ => cases hfield
          rw [Option.bind_some, Json.atPath?_cons, Json.field?_eq_none hu, Option.bind_none]
      rw [overlayValue_eq_self hother, hnone, overlayValue_eq_self (by simp), Json.atPath?_cons,
        hfield, Option.bind_some, hnext]

theorem laidOver_overlay (hnewer : (Json.obj newer).Sound) (base : Fields) :
    Json.LaidOver (.obj base) (.obj newer) (.obj (overlay base newer)) := by
  have hat {path : List Text} {inner : Json} (h : (Json.obj newer).atPath? path = some inner) :
      (Json.obj (overlay base newer)).atPath? path =
        some (overlayValue ((Json.obj base).atPath? path) inner) := by
    rw [← overlayValue_obj, atPath?_overlayValue hnewer h, Option.bind_some]
  constructor
  case plain =>
    intro path value hvalue hplain
    rw [hat hvalue, overlayValue_eq_self fun _ fields _ => hplain fields]
  case fresh =>
    intro path fields hfields hfresh
    rw [hat hfields, overlayValue_eq_self fun others _ hothers => absurd hothers (hfresh others)]
  case kept =>
    intro path others fields name rest hothers hfields hname
    have hkeys := (Json.sound_obj_iff.mp (Json.sound_atPath? hnewer hfields)).1
    have hlack : Table.find? (overlay others fields) name = Table.find? others name := by
      rw [find?_overlay hkeys, hname, Option.map_none, Option.none_or]
    rw [Json.atPath?_append, Json.atPath?_append, hat hfields, hothers, overlayValue_obj,
      Option.bind_some, Option.bind_some, Json.atPath?_cons, Json.atPath?_cons, Json.field?,
      Json.field?, hlack]
  case ordered =>
    intro path others fields hothers hfields
    have hkeys := (Json.sound_obj_iff.mp (Json.sound_atPath? hnewer hfields)).1
    refine ⟨overlay others fields, ?_, keys_overlay hkeys others⟩
    rw [hat hfields, hothers, overlayValue_obj]

end Settings

end Localize
