import Localize.Batch.Usage
import Localize.Error

/-!
# Chunk by chunk

A translator is asked for the chunks of a run one after another, with a pause between two of them. A
chunk that fails leaves the others alone. The trace of a run tells what happened in the order in
which it happened.
-/

namespace Localize.Batch

/-- What a translator does for one chunk: nothing usable, or translations with a report of
tokens. -/
inductive Answer where
  | failed
  | gave (translations usage : Json)
  deriving Repr

/-- A translator with a state of its own. It is prepared once before the first chunk; for a chunk it
is told the language and the prompt, and it tells how many milliseconds it has waited. -/
structure Translator (σ : Type) where
  prepare : σ → Except Failure Unit × σ
  translate : σ → List Text → Text → Text → Answer × List Nat × σ

/-- The result of a chunk; no translations where it has failed. -/
structure ChunkResult where
  index : Nat
  texts : List Text
  translations : Option Fields
  usage : TokenCount
  deriving DecidableEq

structure Progress where
  language : Text
  languageName : Text
  totalItems : Nat
  successCount : Nat
  failureCount : Nat
  currentBatch : Nat
  totalBatches : Nat
  batchSize : Nat
  succeeded : Bool
  usage : TokenCount

def Progress.phase (p : Progress) : Text :=
  if p.succeeded then "batch_done".toList else "batch_failed".toList

structure Trace where
  results : List ChunkResult
  progress : List Progress
  waits : List Nat

def Trace.empty : Trace := ⟨[], [], []⟩

/-- What is the same for all chunks of a run. -/
structure Course where
  language : Text
  languageName : Text
  prompt : Text
  /-- Seconds between two chunks. -/
  pause : Json
  totalItems : Nat
  totalBatches : Nat

def milliseconds (seconds : Quantity) : Nat :=
  match seconds with
  | .whole i => (i * 1000).toNat
  | .real x => (((x.mul (.ofInt 1000)).roundedMultiple? 1).getD 0).toNat

/-- The pause before a chunk: none before the first, and none of no length. -/
def Course.pauseBefore (c : Course) (index : Nat) : Except Fault (List Nat) :=
  if index = 0 then .ok []
  else
    match c.pause.quantity? with
    | none => .error .wrongType
    | some seconds =>
      .ok (if (Quantity.whole 0).less seconds then [milliseconds seconds] else [])

/-- The result of a chunk from its answer. An answer whose report cannot be read is a failure;
translations that are no object are none. -/
def ChunkResult.ofAnswer (index : Nat) (texts : List Text) (answer : Answer) : ChunkResult :=
  match answer with
  | .failed => ⟨index, texts, none, .zero⟩
  | .gave translations usage =>
    match TokenCount.ofReport usage with
    | .error _ => ⟨index, texts, none, .zero⟩
    | .ok count =>
      match translations with
      | .obj fields => ⟨index, texts, some fields, count⟩
      | _ => ⟨index, texts, some [], count⟩

def Course.progress (c : Course) (successes failures : Nat) (r : ChunkResult) : Progress where
  language := c.language
  languageName := c.languageName
  totalItems := c.totalItems
  successCount := if r.translations.isSome then successes + r.texts.length else successes
  failureCount := if r.translations.isSome then failures else failures + r.texts.length
  currentBatch := r.index + 1
  totalBatches := c.totalBatches
  batchSize := r.texts.length
  succeeded := r.translations.isSome
  usage := r.usage

/-- Runs the chunks from an index on, given the counts before them. -/
def runFrom {σ : Type} (t : Translator σ) (c : Course) (index successes failures : Nat) :
    List (List Text) → σ → Except Fault Unit × Trace × σ
  | [], s => (.ok (), .empty, s)
  | texts :: rest, s =>
    match c.pauseBefore index with
    | .error fault => (.error fault, .empty, s)
    | .ok pause =>
      let (answer, waits, s) := t.translate s texts c.language c.prompt
      let result := ChunkResult.ofAnswer index texts answer
      let progress := c.progress successes failures result
      let (ended, trace, s) :=
        runFrom t c (index + 1) progress.successCount progress.failureCount rest s
      let waits := pause ++ waits ++ trace.waits
      (ended, ⟨result :: trace.results, progress :: trace.progress, waits⟩, s)

def run {σ : Type} (t : Translator σ) (c : Course) (chunks : List (List Text)) (s : σ) :
    Except Fault Unit × Trace × σ :=
  runFrom t c 0 0 0 chunks s

end Localize.Batch
