import Localize.Main
import Localize.Proofs.Volume.Writing

/-!
# What the bytes of a file give

A file holds a text if and only if its bytes are the encoding of the text, and it gives the fields
of an object if and only if they are the encoding of a document with that object.
-/

namespace Localize

open CommandLine (contentOf)

variable {bytes : ByteArray} {t : Text} {fields : Fields}

/-- The bytes are the encoding of a text. -/
def Encodes (bytes : ByteArray) (t : Text) : Prop := bytes = (String.ofList t).toUTF8

/-- The bytes are the encoding of a document with an object. -/
def EncodesObject (bytes : ByteArray) (fields : Fields) : Prop :=
  ∃ t, Encodes bytes t ∧ Json.read t = .ok (.obj fields)

/-- The fields of the object whose document a file holds. -/
def Content.object? : Content → Option Fields
  | .text t =>
    match Json.read t with
    | .ok (.obj fields) => some fields
    | _ => none
  | .bytes _ => none

theorem object?_text_iff : (Content.text t).object? = some fields ↔
    Json.read t = .ok (.obj fields) := by
  simp only [Content.object?]
  split
  · next others hread => simp [hread]
  · next hother => exact iff_of_false (by simp) (hother fields)

theorem fromUTF8?_eq_some_iff {s : String} :
    String.fromUTF8? bytes = some s ↔ bytes = s.toUTF8 := by
  unfold String.fromUTF8?
  constructor
  · intro h
    split at h
    · cases h
      rfl
    · cases h
  · rintro rfl
    rw [String.toUTF8_eq_toByteArray, dif_pos s.isValidUTF8]
    rfl

theorem contentOf_eq_text_iff : contentOf bytes = .text t ↔ Encodes bytes t := by
  have hdecoded : String.fromUTF8? bytes = some (String.ofList t) ↔ Encodes bytes t :=
    fromUTF8?_eq_some_iff
  rw [← hdecoded, contentOf]
  cases String.fromUTF8? bytes with
  | none => simp
  | some s =>
    simp only [Content.text.injEq, Option.some.injEq]
    constructor
    · rintro rfl
      exact String.ofList_toList.symm
    · rintro rfl
      exact String.toList_ofList

theorem contentOf_eq_bytes (h : ∀ t, ¬ Encodes bytes t) : ∃ b, contentOf bytes = .bytes b := by
  cases hcontent : contentOf bytes with
  | text t => exact absurd (contentOf_eq_text_iff.mp hcontent) (h t)
  | bytes b => exact ⟨b, rfl⟩

theorem object?_contentOf_iff :
    (contentOf bytes).object? = some fields ↔ EncodesObject bytes fields := by
  constructor
  · intro h
    cases hcontent : contentOf bytes with
    | text t =>
      rw [hcontent] at h
      exact ⟨t, contentOf_eq_text_iff.mp hcontent, object?_text_iff.mp h⟩
    | bytes b =>
      rw [hcontent] at h
      cases h
  · rintro ⟨t, hbytes, hread⟩
    rw [contentOf_eq_text_iff.mpr hbytes]
    exact object?_text_iff.mpr hread

end Localize
