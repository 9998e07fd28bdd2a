import Localize.Project.Translation
import Localize.Proofs.Batch.Request
import Localize.Proofs.Source.Locale
import Localize.Proofs.Table

/-!
# Languages of a plan

The languages of a plan that can be carried out are distinct, and each of them is supported or that
of the source. The codes of supported languages hold neither a slash nor a colon, so each names a
locale file of its own, which is not the file of a memory. A plan for one of its languages can be
carried out as well.
-/

namespace Localize

namespace Language

variable {code code' : Text}

theorem mem_codes_of_isSupported (h : isSupported code = true) : code ∈ codes :=
  Table.mem_keys_iff.mpr h

/-- What the code of a supported language looks like. -/
structure IsCode (code : Text) : Prop where
  noSlash : '/' ∉ code
  noColon : ':' ∉ code
  trimmed : Text.strip code = code
  notBlank : Text.allBlank code = false
  notMemory : code ≠ "memory".toList

theorem isCode_of_isSupported (h : isSupported code = true) : IsCode code := by
  have hall : ∀ code ∈ codes, '/' ∉ code ∧ ':' ∉ code ∧ Text.strip code = code ∧
      Text.allBlank code = false ∧ code ≠ "memory".toList := by
    decide
  obtain ⟨hslash, hcolon, htrimmed, hblank, hmemory⟩ := hall code (mem_codes_of_isSupported h)
  exact ⟨hslash, hcolon, htrimmed, hblank, hmemory⟩

theorem fileName_injective (h : fileName code = fileName code') : code = code' :=
  List.append_cancel_right h

theorem isName_fileName (h : '/' ∉ code) : Path.IsName (fileName code) := by
  have hlength : ".json".toList.length ≤ (fileName code).length := by
    rw [fileName, List.length_append]
    exact Nat.le_add_left _ _
  have hshort : ∀ name : Text, name.length < ".json".toList.length → fileName code ≠ name := by
    rintro name hname rfl
    exact absurd hlength (Nat.not_le_of_lt hname)
  refine ⟨hshort _ (by decide), hshort _ (by decide), hshort _ (by decide), ?_⟩
  rw [fileName, List.mem_append, not_or]
  exact ⟨h, by decide⟩

theorem IsCode.fileName_ne_memory (h : IsCode code) : fileName code ≠ "memory.json".toList :=
  fun hname => h.notMemory (List.append_cancel_right hname)

end Language

namespace Project

variable {languages : List Text} {value source : Json} {code language : Text} {p : Plan}

theorem languagesOf_ok (h : languagesOf value = .ok languages) : languages.Nodup := by
  unfold languagesOf at h
  simp only at h
  split at h
  · cases h
  · split at h
    · cases h
    · cases h
      exact Batch.nodup_unique _

theorem languagesOf_singleton (h : Language.isSupported language = true) :
    languagesOf (.arr [.str language]) = .ok [language] := by
  have hcode := Language.isCode_of_isSupported h
  have hunique : Batch.unique [.str (Text.strip language)] = [language] := by
    simp [Batch.unique, Batch.addNew, hcode.trimmed, hcode.notBlank]
  simp [languagesOf, Json.elements?, Json.text?, hunique]

theorem mem_unsupported_iff : code ∈ unsupported languages source ↔
    code ∈ languages ∧ .str code ≠ source ∧ Language.isSupported code = false := by
  simp [unsupported]

namespace Plan

/-- The languages of a plan are distinct, and those from another language are supported and have a
key. -/
theorem check_ok (h : p.check = .ok languages) :
    languagesOf p.languages = .ok languages ∧
      (∀ code ∈ languages, .str code = p.options.sourceLanguage ∨
        Language.isSupported code = true) ∧
      (p.key.isSomething = true ∨ ∀ code ∈ languages, .str code = p.options.sourceLanguage) := by
  unfold check at h
  cases hlanguages : languagesOf p.languages with
  | error failure =>
    simp only [hlanguages] at h
    cases h
  | ok given =>
    cases hunsupported : unsupported given p.options.sourceLanguage with
    | cons code rest =>
      simp only [hlanguages, hunsupported] at h
      cases h
    | nil =>
      simp only [hlanguages, hunsupported] at h
      split at h
      · next hkey =>
        cases h
        refine ⟨rfl, fun code hcode => ?_, ?_⟩
        · by_contra hneither
          rw [not_or, Bool.not_eq_true] at hneither
          have hmem := mem_unsupported_iff.mpr ⟨hcode, hneither.1, hneither.2⟩
          rw [hunsupported] at hmem
          cases hmem
        · simpa [needsTranslator] using hkey
      · cases h

/-- The plan with other languages. -/
def into (p : Plan) (languages : Json) : Plan := { p with languages }

/-- What can be translated into several languages can be translated into each of them alone. -/
theorem check_into_singleton (h : p.check = .ok languages)
    (hlanguage : language ∈ languages) (hsupported : Language.isSupported language = true) :
    (p.into (.arr [.str language])).check = .ok [language] := by
  obtain ⟨-, -, hkey⟩ := check_ok h
  have hnone : unsupported [language] p.options.sourceLanguage = [] := by
    simp [unsupported, hsupported]
  have hallowed : (p.key.isSomething ||
      !needsTranslator [language] p.options.sourceLanguage) = true := by
    rcases hkey with hkey | hsource
    · rw [hkey, Bool.true_or]
    · simp [needsTranslator, hsource language hlanguage]
  simp only [check, into, languagesOf_singleton hsupported, hnone, hallowed, if_true]

end Plan

end Project

end Localize
