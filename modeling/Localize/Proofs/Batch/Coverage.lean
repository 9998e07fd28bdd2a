import Localize.Proofs.Batch.Ending
import Localize.Proofs.Glossary.Lossless

/-!
# Which strings a result covers

A result has translations for strings of the request that are not blank and for nothing else, and it
lacks one exactly where two strings are sent as the same text: what comes back is then taken for the
later string's. This needs a string that already reads as another one does with its tokens, so
strings without the mark are all covered.
-/

namespace Localize.Batch

open Placeholder

variable {σ : Type} {t : Translator σ} {g : Option Glossary} {now : Nat} {r : Request}
  {w : Workspace σ} {result : Result}

/-- The strings covered are those of the request that are not blank and not shadowed. All are
covered exactly if no two are sent as the same text, as is the case without the mark. -/
theorem mem_keys_translations_iff (h : (translate t g now r w).result = .ok result) :
    ∃ o w', openRun g now r w = (.ok o, w') ∧ r.check = .ok o.checked ∧
      (∀ s, s ∈ result.translations.keys ↔
        (Json.str s ∈ o.checked.strings ∧ Text.allBlank s = false) ∧ ¬ o.Shadowed s) ∧
      ((∀ s, Json.str s ∈ o.checked.strings ∧ Text.allBlank s = false →
        s ∈ result.translations.keys) ↔ o.prepared.sent.Nodup) ∧
      ((∀ s, Json.str s ∈ o.checked.strings → ¬ mark <:+: s) → o.prepared.sent.Nodup) := by
  obtain ⟨o, w', answers, hopen, hended, -⟩ := translate_ok h
  obtain ⟨hcheck, -, hprep, hdivided, -⟩ := openRun_ok hopen
  have hkeys : ∀ s, s ∈ result.translations.keys ↔
      (Json.str s ∈ o.checked.strings ∧ Text.allBlank s = false) ∧ ¬ o.Shadowed s := by
    intro s
    rw [hended.mem_keys, hdivided.exists_source_iff, hdivided.mem_keys_settled, ← mem_unique]
    have hsub : s ∈ o.prepared.pending → s ∈ unique o.checked.strings := fun hs =>
      (hdivided.mem_pending.mp hs).1
    constructor
    · rintro (⟨hs, hne⟩ | ⟨hs, hne⟩)
      · exact ⟨hs, fun hshadowed => hne hshadowed.mem_pending⟩
      · exact ⟨hsub hs, hne⟩
    · rintro ⟨hs, hne⟩
      by_cases hp : s ∈ o.prepared.pending
      · exact .inr ⟨hp, hne⟩
      · exact .inl ⟨hs, hp⟩
  refine ⟨o, w', hopen, hcheck, hkeys, ?_, ?_⟩
  · rw [← hdivided.forall_not_shadowed_iff]
    constructor
    · intro hall s hs
      have hs' := mem_unique.mp (hdivided.mem_pending.mp hs).1
      exact ((hkeys s).mp (hall s hs')).2
    · intro hnone s hs
      refine (hkeys s).mpr ⟨hs, ?_⟩
      intro hshadowed
      exact hnone s hshadowed.mem_pending hshadowed
  · intro hmark
    exact hdivided.nodup_sent hprep hmark

/-- A name that is kept as it is. -/
def brand : Glossary := .ofExact [("Acme", [], true)]

/-- A string that reads as another one is sent takes its place. -/
theorem string_lost_to_lookalike :
    ∃ result o w', (translate (.answering some) (some brand) 0
        (.ofTexts ["Buy Acme", "Buy __GLOSSARY_0__"]) (.fresh none)).result = .ok result ∧
      openRun (some brand) 0 (.ofTexts ["Buy Acme", "Buy __GLOSSARY_0__"]) (.fresh none) =
        (.ok o, w') ∧
      "Buy Acme".toList ∉ result.translations.keys ∧ ¬ o.prepared.sent.Nodup := by
  have hlost : (translate (.answering some) (some brand) 0
      (.ofTexts ["Buy Acme", "Buy __GLOSSARY_0__"]) (.fresh none)).result.toOption.any
        (fun result => !result.translations.keys.contains "Buy Acme".toList) = true := by
    decide +kernel
  obtain ⟨result, hresult, hkeys⟩ := exists_result hlost
  have hkeys : "Buy Acme".toList ∉ result.translations.keys := by simpa using hkeys
  obtain ⟨o, w', hopen, hcheck, -, hall, -⟩ := mem_keys_translations_iff hresult
  refine ⟨result, o, w', hresult, hopen, hkeys, fun hnodup => hkeys (hall.mpr hnodup _ ?_)⟩
  have hstrings : o.checked.strings = [Json.lit "Buy Acme", Json.lit "Buy __GLOSSARY_0__"] := by
    have hc : (Request.ofTexts ["Buy Acme", "Buy __GLOSSARY_0__"]).check =
        .ok ⟨[Json.lit "Buy Acme", Json.lit "Buy __GLOSSARY_0__"], "es".toList, 50⟩ := by rfl
    rw [hc] at hcheck
    exact congrArg Checked.strings (Except.ok.inj hcheck).symm
  rw [hstrings]
  exact ⟨List.mem_cons_self, by decide⟩

end Localize.Batch
