import Localize.Proofs.Batch.Calls
import Mathlib.Algebra.Ring.Nat
import Mathlib.Data.List.Basic

/-!
# What a run of chunks reports

A run whose delay is a number comes to its end whatever the translator does. It calls the translator
once for every chunk, in order, and pauses between two calls if the delay is positive. Each call
gives one result and is followed by one report; the counts of a report are those of the results so
far, so that every text given to the translator is counted once, as a success or as a failure.
-/

namespace Localize.Batch

/-- A call and how often and how long the translator has waited in it. -/
structure TimedCall extends Call where
  waits : List Nat

variable {σ : Type}

/-- From a state a translator handles calls one after another, and a state is left. -/
inductive Translator.Handles (t : Translator σ) (language prompt : Text) :
    σ → List TimedCall → σ → Prop
  | done (s : σ) : Handles t language prompt s [] s
  | call {s s' s'' : σ} {texts : List Text} {answer : Answer} {waits : List Nat}
      {calls : List TimedCall}
      (hanswer : t.translate s texts language prompt = (answer, waits, s'))
      (hrest : Handles t language prompt s' calls s'') :
      Handles t language prompt s (⟨⟨texts, answer⟩, waits⟩ :: calls) s''

theorem Translator.Handles.answers {t : Translator σ} {language prompt : Text} {s s' : σ}
    {calls : List TimedCall} (h : t.Handles language prompt s calls s') :
    t.Answers language prompt s (calls.map TimedCall.toCall) s' := by
  induction h with
  | done s => exact .done s
  | call hanswer _ ih => exact .call hanswer ih

/-! ### Pauses -/

namespace ChunkResult

def failed (r : ChunkResult) : Bool := r.translations.isNone

/-- How many texts were in the chunks of some results. -/
def textCount (results : List ChunkResult) : Nat := (results.map fun r => r.texts.length).sum

end ChunkResult

open ChunkResult

/-- A report tells of the results so far and of the last one among them. -/
structure Progress.Tells (p : Progress) (results : List ChunkResult) (last : ChunkResult) :
    Prop where
  currentBatch : p.currentBatch = results.length
  counted : p.successCount + p.failureCount = textCount results
  failures : p.failureCount = textCount (results.filter failed)
  phase : p.phase = "batch_failed".toList ↔ last.failed = true
  batchSize : p.batchSize = last.texts.length
  usage : p.usage = last.usage

/-- Reports of results that come behind others. -/
inductive Reported : List ChunkResult → List ChunkResult → List Progress → Prop
  | done (before : List ChunkResult) : Reported before [] []
  | chunk {before rest : List ChunkResult} {r : ChunkResult} {p : Progress}
      {progress : List Progress} (htells : p.Tells (before ++ [r]) r)
      (hrest : Reported (before ++ [r]) rest progress) :
      Reported before (r :: rest) (p :: progress)

theorem Reported.length_eq {before results : List ChunkResult} {progress : List Progress}
    (h : Reported before results progress) : progress.length = results.length := by
  induction h with
  | done before => rfl
  | chunk _ _ ih => rw [List.length_cons, List.length_cons, ih]

end Localize.Batch
