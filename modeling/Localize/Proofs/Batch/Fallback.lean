import Localize.Proofs.Batch.Ending
import Localize.Proofs.Glossary.Lossless

/-!
# Strings without a usable answer

A string of a failed chunk keeps its own text. A string that a chunk gives no usable answer for is
answered with what was sent for it, and this goes through the restoring of placeholders like any
answer: it keeps its text only where the final forms of its terms are the terms as they stand.
-/

namespace Localize.Batch

open Placeholder

/-- When a string keeps its text that was sent as `u` in a chunk with the result `R` and has got no
usable answer there. -/
structure Opening.KeepsTextIf (o : Opening) (g : Option Glossary) (results : List ChunkResult)
    (translations : Table Text Json) (s u : Text) (R : ChunkResult) : Prop where
  /-- It keeps its text if no later string takes what comes back, and what the last chunk that held
  the text sent has brought back for it, if there is one, is restored to the string. -/
  general : Table.find? translations s = some (.str s) ↔ ¬ o.Shadowed s ∧
    ∀ R', lastServed? results u = some R' →
      Glossary.restore o.prepared.reservations ((R'.answer? u).getD u) = .ok s
  /-- Where all texts sent differ, this is about its own chunk and the text as it was sent. -/
  distinct : o.prepared.sent.Nodup →
    (Table.find? translations s = some (.str s) ↔
      R.translations = none ∨ Glossary.restore o.prepared.reservations u = .ok s)
  /-- Without the mark it is about the final forms of its terms. -/
  unmarked : (∀ s, Json.str s ∈ o.checked.strings → ¬ mark <:+: s) →
    ∀ g', g = some g' → g'.TextualIn o.checked.language →
      ¬ mark <:+: g'.exchanged o.checked.language s →
      (Table.find? translations s = some (.str s) ↔
        R.translations = none ∨ g'.exchanged o.checked.language s = s)
  /-- Without a glossary it always keeps its text. -/
  plain : g = none → Table.find? translations s = some (.str s)

variable {o : Opening} {g : Option Glossary} {results : List ChunkResult}
  {answers : Table Text Text} {translations : Table Text Json} {known whole : Text → Option Json}
  {i : Nat} {s u : Text} {R : ChunkResult}

namespace Opening.Ended

theorem keeps_text_iff (h : o.Ended results answers translations) (hd : o.Divided known whole)
    (hs : o.prepared.pending[i]? = some s) (hu : o.prepared.sent[i]? = some u) :
    Table.find? translations s = some (.str s) ↔ ¬ o.Shadowed s ∧
      ∀ R', lastServed? results u = some R' →
        Glossary.restore o.prepared.reservations ((R'.answer? u).getD u) = .ok s := by
  by_cases hshadowed : o.Shadowed s
  · have hnone : Table.find? translations s = none := by
      rw [Table.find?_eq_none_iff, h.mem_keys, hd.mem_keys_settled, hd.exists_source_iff]
      rintro (⟨-, hs'⟩ | ⟨-, hs'⟩)
      · exact hs' (List.mem_of_getElem? hs)
      · exact hs' hshadowed
    simp [hnone, hshadowed]
  · obtain ⟨hfailed, hserved⟩ := h.find?_pending hd hs hu hshadowed
    simp only [hshadowed, not_false_eq_true, true_and]
    cases hlast : lastServed? results u with
    | none => simp [hfailed hlast]
    | some R' =>
      obtain ⟨v, hv, hfind⟩ := hserved R' hlast
      simp [hfind, hv]

theorem keeps_text_iff_of_nodup (h : o.Ended results answers translations)
    (hd : o.Divided known whole) (hs : o.prepared.pending[i]? = some s)
    (hu : o.prepared.sent[i]? = some u) (hR : (served results)[i]? = some (u, R))
    (hanswer : R.answer? u = none) (hn : o.prepared.sent.Nodup) :
    Table.find? translations s = some (.str s) ↔
      R.translations = none ∨ Glossary.restore o.prepared.reservations u = .ok s := by
  have hshadowed : ¬ o.Shadowed s :=
    hd.forall_not_shadowed_iff.mpr hn s (List.mem_of_getElem? hs)
  obtain ⟨hnone, hsome⟩ :=
    lastServed?_of_nodup (h.complete.symm ▸ hn) (List.mem_of_getElem? hR)
  rw [h.keeps_text_iff hd hs hu, and_iff_right hshadowed]
  by_cases hfailed : R.translations = none
  · simp [hnone hfailed, hfailed]
  · simp [hsome hfailed, hfailed, hanswer]

end Opening.Ended

/-- What is sent for a string without the mark is restored to the string with the final forms. -/
theorem restore_sent {g : Glossary} {language : Text} {strings : List Text}
    {p : Glossary.Preparation} (hprep : prepareFor (some g) language strings = .ok p)
    (hforms : g.TextualIn language) (hmark : ∀ t ∈ strings, ¬ mark <:+: t)
    (hs : p.pending[i]? = some s) (hu : p.sent[i]? = some u)
    (hfinal : ¬ mark <:+: g.exchanged language s) :
    Glossary.restore p.reservations u = .ok (g.exchanged language s) := by
  rw [prepareFor_some] at hprep
  obtain ⟨-, rfl⟩ := Glossary.prepare_ok_iff.mp hprep
  have hsub := Glossary.settle_pending_sublist g language strings
  rw [Glossary.restore_reservedFrom hforms,
    Glossary.restore_sentFrom (fun t ht => hmark t (hsub.subset ht)) hs hu hfinal]

variable {σ : Type} {t : Translator σ} {now : Nat} {r : Request} {w : Workspace σ}
  {result : Result}

/-- When the strings that were sent and got no usable answer keep their text. -/
theorem unanswered_keeps_text_iff (h : (translate t g now r w).result = .ok result) :
    ∃ o w', openRun g now r w = (.ok o, w') ∧
      ∀ (i : Nat) (s : Text), o.prepared.pending[i]? = some s →
        ∃ u R, o.prepared.sent[i]? = some u ∧
          (served (translate t g now r w).trace.results)[i]? = some (u, R) ∧
          (R.answer? u = none →
            o.KeepsTextIf g (translate t g now r w).trace.results result.translations s u R) := by
  obtain ⟨o, w', answers, hopen, hended, -⟩ := translate_ok h
  obtain ⟨-, -, hprep, hd, -⟩ := openRun_ok hopen
  refine ⟨o, w', hopen, fun i s hs => ?_⟩
  obtain ⟨u, R, hu, hR⟩ := hended.exists_served hd hs
  refine ⟨u, R, hu, hR, fun hanswer => ?_⟩
  have hdistinct := hended.keeps_text_iff_of_nodup hd hs hu hR hanswer
  constructor
  case general => exact hended.keeps_text_iff hd hs hu
  case distinct => exact hdistinct
  case unmarked =>
    intro hmark g' hg hforms hfinal
    have hmissing : ∀ t ∈ o.recalled.missing, ¬ mark <:+: t := fun t ht =>
      hmark t (hd.str_mem_of_mem_missing ht)
    have hn := hd.nodup_sent hprep hmark
    rw [hdistinct hn, restore_sent (hg ▸ hprep) hforms hmissing hs hu hfinal]
    simp
  case plain =>
    intro hg
    have hp : o.prepared = ⟨[], o.recalled.missing, o.recalled.missing, []⟩ := by
      rw [hg] at hprep
      exact (Except.ok.inj hprep).symm
    have hsame : u = s := by
      rw [hp] at hs hu
      exact Option.some.inj (hu.symm.trans hs)
    have hn : o.prepared.sent.Nodup := by
      rw [hp]
      exact hd.nodup_missing
    rw [hdistinct hn, hsame, hp]
    exact .inr rfl

/-- A term with a form of its own in Spanish. -/
def panel : Glossary := .ofExact [("Dashboard", [("es".toList, Json.lit "Panel")], false)]

/-- A run in which the only string gets no answer. -/
def unansweredRun : Ending Unit :=
  translate (.answering fun _ => none) (some panel) 0 (.ofTexts ["Open the Dashboard"])
    (.fresh none)

/-- A string without an answer can come back with its terms exchanged. -/
theorem unanswered_string_exchanged :
    ∃ result o w' u R, unansweredRun.result = .ok result ∧
      openRun (some panel) 0 (.ofTexts ["Open the Dashboard"]) (.fresh none) = (.ok o, w') ∧
      o.prepared.pending[0]? = some "Open the Dashboard".toList ∧
      (served unansweredRun.trace.results)[0]? = some (u, R) ∧ R.answer? u = none ∧
      Table.find? result.translations "Open the Dashboard".toList =
        some (Json.lit "Open the Panel") ∧
      Glossary.restore o.prepared.reservations u ≠ .ok "Open the Dashboard".toList := by
  have hrun : unansweredRun.result.toOption.any (fun result =>
      Table.find? result.translations "Open the Dashboard".toList =
        some (Json.lit "Open the Panel")) = true := by
    decide +kernel
  have hopening : (openRun (some panel) 0 (.ofTexts ["Open the Dashboard"])
      (.fresh none)).1.toOption.all (fun o =>
        o.prepared.pending = ["Open the Dashboard".toList] && decide o.prepared.sent.Nodup) =
      true := by
    decide +kernel
  have hnone : ∀ p ∈ served unansweredRun.trace.results, p.2.answer? p.1 = none := by
    decide +kernel
  obtain ⟨result, hresult, hfind⟩ := exists_result hrun
  have hfind := of_decide_eq_true hfind
  obtain ⟨o, w', hopen, hall⟩ := unanswered_keeps_text_iff hresult
  rw [hopen] at hopening
  have hparts := Bool.and_eq_true_iff.mp hopening
  have hpending : o.prepared.pending[0]? = some "Open the Dashboard".toList := by
    rw [of_decide_eq_true hparts.1]
    rfl
  obtain ⟨u, R, -, hR, hkeeps⟩ := hall 0 _ hpending
  have hanswer := hnone _ (List.mem_of_getElem? hR)
  refine ⟨result, o, w', u, R, hresult, hopen, hpending, hR, hanswer, hfind, fun hrestore => ?_⟩
  have hsame := ((hkeeps hanswer).distinct (of_decide_eq_true hparts.2)).mpr (.inr hrestore)
  rw [hfind] at hsame
  exact absurd hsame (by decide)

end Localize.Batch
