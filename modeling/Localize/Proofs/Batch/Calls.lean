import Localize.Batch.Chunk
import Localize.Proofs.Outcome

/-!
# Calls of the translator

A translator that keeps a state answers call after call, each from the state that the one before has
left. A run of the chunks that comes to its end is one call for every chunk, and its results are
read off the answers; a run without chunks does not come near the translator.
-/

namespace Localize.Batch

/-- The texts given to a translator and what it does for them. -/
structure Call where
  texts : List Text
  answer : Answer

namespace Call

/-- The tokens of a call that has given something usable. -/
def count? (c : Call) : Option TokenCount :=
  match c.answer with
  | .failed => none
  | .gave _ usage => (TokenCount.ofReport usage).toOption

/-- The result of a call as the chunk with a number. -/
def result (c : Call) (index : Nat) : ChunkResult := ChunkResult.ofAnswer index c.texts c.answer

theorem result_cases (c : Call) (index : Nat) :
    (c.count? = none ∧ c.result index = ⟨index, c.texts, none, .zero⟩) ∨
      ∃ count fields, c.count? = some count ∧
        c.result index = ⟨index, c.texts, some fields, count⟩ := by
  unfold result ChunkResult.ofAnswer count?
  cases c.answer with
  | failed => exact .inl ⟨rfl, rfl⟩
  | gave translations usage =>
    simp only
    cases TokenCount.ofReport usage with
    | error fault => exact .inl ⟨rfl, rfl⟩
    | ok count =>
      right
      cases translations with
      | obj fields => exact ⟨count, fields, rfl, rfl⟩
      | null | bool _ | int _ | float _ | str _ | arr _ => exact ⟨count, [], rfl, rfl⟩

@[simp] theorem texts_result (c : Call) (index : Nat) : (c.result index).texts = c.texts := by
  rcases c.result_cases index with ⟨-, h⟩ | ⟨count, fields, -, h⟩
  · rw [h]
  · rw [h]

end Call

/-- The results of calls, numbered on from an index. -/
def resultsFrom (index : Nat) (calls : List Call) : List ChunkResult :=
  (calls.zipIdx index).map fun p => p.1.result p.2

theorem resultsFrom_cons (index : Nat) (c : Call) (calls : List Call) :
    resultsFrom index (c :: calls) = c.result index :: resultsFrom (index + 1) calls := rfl

theorem texts_resultsFrom (index : Nat) (calls : List Call) :
    (resultsFrom index calls).map ChunkResult.texts = calls.map Call.texts := by
  induction calls generalizing index with
  | nil => rfl
  | cons c calls ih =>
    rw [resultsFrom_cons, List.map_cons, List.map_cons, ih, Call.texts_result]

variable {σ : Type}

/-- From a state a translator answers calls one after another, and a state is left. -/
inductive Translator.Answers (t : Translator σ) (language prompt : Text) :
    σ → List Call → σ → Prop
  | done (s : σ) : Answers t language prompt s [] s
  | call {s s' s'' : σ} {texts : List Text} {answer : Answer} {waits : List Nat}
      {calls : List Call} (hanswer : t.translate s texts language prompt = (answer, waits, s'))
      (hrest : Answers t language prompt s' calls s'') :
      Answers t language prompt s (⟨texts, answer⟩ :: calls) s''

/-- What a run has to do with a translator: nothing, or the preparation and then at least one
call. -/
inductive Translator.Session (t : Translator σ) (language prompt : Text) :
    σ → List Call → σ → Prop
  | unused (s : σ) : Session t language prompt s [] s
  | used {s s' s'' : σ} {calls : List Call} (hprepare : t.prepare s = (.ok (), s'))
      (hcalls : calls ≠ []) (hanswers : t.Answers language prompt s' calls s'') :
      Session t language prompt s calls s''

/-- The pauses before some chunks can be told. -/
def Course.Paced (c : Course) (index count : Nat) : Prop :=
  ∀ i < count, ∃ pause, c.pauseBefore (index + i) = .ok pause

theorem Course.paced_succ_iff {c : Course} {index count : Nat} : c.Paced index (count + 1) ↔
    (∃ pause, c.pauseBefore index = .ok pause) ∧ c.Paced (index + 1) count := by
  unfold Paced
  constructor
  · intro h
    refine ⟨h 0 (Nat.succ_pos count), fun i hi => ?_⟩
    rw [Nat.add_assoc, Nat.add_comm 1 i]
    exact h (i + 1) (Nat.succ_lt_succ hi)
  · rintro ⟨hfirst, hrest⟩ i hi
    cases i with
    | zero => exact hfirst
    | succ i =>
      rw [Nat.add_comm i 1, ← Nat.add_assoc]
      exact hrest i (Nat.lt_of_succ_lt_succ hi)

/-- A run of the chunks that comes to its end is a call for each of them. -/
theorem runFrom_ok {t : Translator σ} {c : Course} {index successes failures : Nat}
    {chunks : List (List Text)} {s s' : σ} {trace : Trace}
    (h : runFrom t c index successes failures chunks s = (.ok (), trace, s')) :
    c.Paced index chunks.length ∧
      ∃ calls, t.Answers c.language c.prompt s calls s' ∧ calls.map Call.texts = chunks ∧
        trace.results = resultsFrom index calls := by
  induction chunks generalizing index successes failures s trace with
  | nil =>
    cases h
    exact ⟨fun i hi => absurd hi (Nat.not_lt_zero i), [], .done s', rfl, rfl⟩
  | cons texts rest ih =>
    rw [runFrom] at h
    cases hpause : c.pauseBefore index with
    | error fault =>
      simp only [hpause] at h
      cases h
    | ok pause =>
      cases hanswer : t.translate s texts c.language c.prompt with
      | mk answer more =>
        obtain ⟨waits, s₁⟩ := more
        simp only [hpause, hanswer] at h
        cases hrest : runFrom t c (index + 1)
            (c.progress successes failures (ChunkResult.ofAnswer index texts answer)).successCount
            (c.progress successes failures (ChunkResult.ofAnswer index texts answer)).failureCount
            rest s₁ with
        | mk ended more =>
          obtain ⟨trace', s₂⟩ := more
          simp only [hrest] at h
          cases h
          obtain ⟨hpaced, calls, hcalls, hchunks, hresults⟩ := ih hrest
          refine ⟨Course.paced_succ_iff.mpr ⟨⟨pause, hpause⟩, hpaced⟩, ⟨texts, answer⟩ :: calls,
            .call hanswer hcalls, ?_, ?_⟩
          · rw [List.map_cons, hchunks]
          · rw [resultsFrom_cons, ← hresults]
            rfl

/-- Whatever the translator answers, a run whose pauses can be told comes to its end. -/
theorem exists_runFrom {c : Course} {index : Nat} {chunks : List (List Text)}
    (h : c.Paced index chunks.length) (t : Translator σ) (successes failures : Nat) (s : σ) :
    ∃ trace s', runFrom t c index successes failures chunks s = (.ok (), trace, s') := by
  induction chunks generalizing index successes failures s with
  | nil => exact ⟨_, _, rfl⟩
  | cons texts rest ih =>
    obtain ⟨⟨pause, hpause⟩, hrest⟩ := Course.paced_succ_iff.mp h
    cases hanswer : t.translate s texts c.language c.prompt with
    | mk answer more =>
      obtain ⟨waits, s₁⟩ := more
      obtain ⟨trace, s', hrun⟩ := ih hrest
        (c.progress successes failures (ChunkResult.ofAnswer index texts answer)).successCount
        (c.progress successes failures (ChunkResult.ofAnswer index texts answer)).failureCount s₁
      rw [runFrom]
      simp only [hpause, hanswer, hrun]
      exact ⟨_, _, rfl⟩

end Localize.Batch
