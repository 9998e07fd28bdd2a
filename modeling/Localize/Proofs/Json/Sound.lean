import Localize.Json.Shape
import Localize.Proofs.Json.Roundtrip
import Localize.Proofs.Outcome
import Localize.Volume.Document

/-!
# Values that a document can hold

Objects with sound fields are sound, and so are the values taken out of sound values: what is read
from a document, and the fields and items of what was read.
-/

namespace Localize.Json

theorem sound_record {fields : List (String × Json)} (hnames : (fields.map (·.1)).Nodup)
    (h : fields.Forall fun f => f.2.Sound) : (Json.obj (record fields)).Sound := by
  refine .obj ?_ fun f hf => ?_
  · have hkeys : Table.keys (record fields) = (fields.map (·.1)).map String.toList := by
      simp [Table.keys, record, Function.comp_def]
    rw [hkeys]
    exact hnames.map fun _ _ => String.toList_inj.mp
  · obtain ⟨field, hfield, rfl⟩ := List.mem_map.mp hf
    exact List.forall_iff_forall_mem.mp h field hfield

/-- The fields of an object that a document can hold. -/
theorem sound_obj_iff {fields : Fields} :
    (Json.obj fields).Sound ↔ (Table.keys fields).Nodup ∧ ∀ f ∈ fields, f.2.Sound := by
  constructor
  · intro h
    cases h with
    | obj hkeys h => exact ⟨hkeys, h⟩
  · exact fun h => .obj h.1 h.2

theorem Sound.insert {fields : Fields} {value : Json} (h : (Json.obj fields).Sound)
    (hvalue : value.Sound) (name : Text) :
    (Json.obj (Table.insert fields name value)).Sound := by
  rw [sound_obj_iff] at h ⊢
  refine ⟨Table.nodup_keys_insert h.1 name value, fun f hf => ?_⟩
  obtain rfl | hf := Table.of_mem_insert hf
  · exact hvalue
  · exact h.2 f hf

theorem Sound.find? {fields : Fields} {name : Text} {value : Json} (h : (Json.obj fields).Sound)
    (hfind : Table.find? fields name = some value) : value.Sound :=
  (sound_obj_iff.mp h).2 _ (Table.mem_of_find? hfind)

theorem sound_find?_getD {fields : Fields} {other : Json} (h : ∀ f ∈ fields, f.2.Sound)
    (hother : other.Sound) (name : Text) : ((Table.find? fields name).getD other).Sound := by
  cases hfind : Table.find? fields name with
  | none => exact hother
  | some value => exact h _ (Table.mem_of_find? hfind)

theorem Sound.field? {value content : Json} (h : value.Sound) {name : Text}
    (hfield : value.field? name = some content) : content.Sound := by
  cases h with
  | obj hkeys hfields => exact (Sound.obj hkeys hfields).find? hfield
  | null | bool _ | int _ | float _ | str _ | arr _ => cases hfield

/-- A field that may be missing. -/
theorem Sound.getD_field? {value : Json} (h : value.Sound) (name : Text) {missing : Json}
    (hmissing : missing.Sound) : ((value.field? name).getD missing).Sound := by
  cases hfield : value.field? name with
  | none => exact hmissing
  | some content => exact h.field? hfield

theorem Sound.merge {fields : Fields} (h : (Json.obj fields).Sound) {newer : Fields}
    (hnewer : ∀ f ∈ newer, f.2.Sound) : (Json.obj (Table.merge fields newer)).Sound := by
  induction newer generalizing fields with
  | nil => exact h
  | cons f newer ih =>
    obtain ⟨hf, hnewer⟩ := List.forall_mem_cons.mp hnewer
    exact ih (h.insert hf f.1) hnewer

theorem sound_orElse {value other : Json} (h : value.Sound) (hother : other.Sound) :
    (value.orElse other).Sound := by
  unfold orElse
  split
  · exact h
  · exact hother

theorem Sound.elements? {value : Json} (h : value.Sound) {items : List Json}
    (hitems : value.elements? = some items) : ∀ item ∈ items, item.Sound := by
  cases h with
  | arr h =>
    cases hitems
    exact h
  | str t =>
    cases hitems
    simp only [List.mem_map, forall_exists_index, and_imp, forall_apply_eq_imp_iff₂]
    exact fun c _ => .str [c]
  | obj _ _ =>
    cases hitems
    simp only [List.mem_map, forall_exists_index, and_imp, forall_apply_eq_imp_iff₂]
    exact fun f _ => .str f.1
  | null | bool _ | int _ | float _ => cases hitems

/-- A list is read as its items, also the empty one, which counts as nothing. -/
theorem elementsOrNone_arr (items : List Json) :
    elementsOrNone (some (.arr items)) = .ok items := by
  cases items with
  | nil => rfl
  | cons item items => rfl

/-- An object is read as its fields, also the one without fields, which counts as nothing. -/
theorem fieldsOrNone_obj (fields : Fields) : fieldsOrNone (some (.obj fields)) = .ok fields := by
  cases fields with
  | nil => rfl
  | cons field fields => rfl

theorem sound_elementsOrNone {value : Option Json} (hvalue : ∀ u ∈ value, u.Sound)
    {items : List Json} (h : elementsOrNone value = .ok items) : ∀ item ∈ items, item.Sound := by
  cases value with
  | none =>
    cases h
    simp
  | some u =>
    simp only [elementsOrNone] at h
    split_ifs at h
    · split at h
      · next hitems =>
        cases h
        exact (hvalue u rfl).elements? hitems
      · cases h
    · cases h
      simp

theorem sound_asField {value : Json} (h : value.Sound) {field : Text × Json}
    (hfield : value.asField = .ok field) : field.2.Sound := by
  unfold asField at hfield
  split at hfield
  · cases hfield
  · next key content hitems =>
    split_ifs at hfield
    cases hfield
    exact h.elements? hitems content (by simp)
  · cases hfield

/-- The fields of an object, or of a list of pairs, that may be missing. -/
theorem sound_fieldsOrNone {value : Option Json} (hvalue : ∀ u ∈ value, u.Sound) {fields : Fields}
    (h : fieldsOrNone value = .ok fields) : (Json.obj fields).Sound := by
  have hnone : (Json.obj []).Sound := .obj List.nodup_nil (by simp)
  cases value with
  | none =>
    cases h
    exact hnone
  | some u =>
    have hu : u.Sound := hvalue u rfl
    simp only [fieldsOrNone] at h
    split_ifs at h
    · unfold asFields at h
      split at h
      · cases h
        exact hu
      · split at h
        · cases h
        · next items hitems =>
          cases hpairs : items.mapM asField with
          | error fault =>
            rw [hpairs] at h
            cases h
          | ok pairs =>
            rw [hpairs] at h
            cases h
            refine .obj (Table.nodup_keys_ofPairs pairs) fun f hf => ?_
            obtain ⟨item, hitem, hfield⟩ :=
              exists_of_mem_right (mapM_ok_iff.mp hpairs) (Table.mem_of_mem_ofPairs hf)
            exact sound_asField (hu.elements? hitems item hitem) hfield
    · cases h
      exact hnone

theorem sound_overlay {fields : Fields} (hfields : (Json.obj fields).Sound) {value : Option Json}
    (hvalue : ∀ u ∈ value, u.Sound) {result : Fields} (h : overlay fields value = .ok result) :
    (Json.obj result).Sound := by
  unfold overlay at h
  split at h
  · cases h
    exact hfields
  · next newer =>
    cases h
    exact hfields.merge (sound_obj_iff.mp (hvalue _ rfl)).2
  · split_ifs at h
    cases h
    exact hfields

/-- What is read from a document is a value that a document can hold. -/
theorem sound_readJson {v : Volume} {p : Path} {value : Json}
    (h : v.readJson p = .ok (some value)) : value.Sound := by
  unfold Volume.readJson at h
  split at h <;> try cases h
  split at h <;> cases h
  next hread => exact sound_of_read hread

end Localize.Json
