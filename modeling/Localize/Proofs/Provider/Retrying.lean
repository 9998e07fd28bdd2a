import Localize.Proofs.Provider.Attempts
import Mathlib.Logic.Function.Iterate

/-!
# Attempts by what their calls come to

A call of the provider comes to the text of a reply or to an error, and an attempt is a call with a look
for an object in its text. So the answers to the calls, one after another, decide about the run of
attempts for a chunk: it goes on behind each attempt that failed with an error worth another one, waits
as long as the verdict on that error says, and ends with the first other attempt or with the last one
there is. Its result is the object of that attempt or reports the error of that attempt.
-/

namespace Localize.Service

open Provider

variable {σ : Type}

/-! ### Calls -/

/-- What an attempt comes to by the answer to its call: the object in the text, or an error. -/
def readAnswer : Except Error Text → Except Error Fields
  | .ok t =>
    match objectIn? t with
    | some fields => .ok fields
    | none => .error .replyWithoutObject
  | .error error => .error error

/-- The service and the other side behind a call. -/
def behindCall (post : Endpoint σ) (system user : Text) (p : Service × σ) : Service × σ :=
  (p.1.ask post p.2 system user).2

/-- The call is answered with a text or an error. -/
def IsAnswered (post : Endpoint σ) (system user : Text) (p : Service × σ)
    (answer : Except Error Text) : Prop :=
  (p.1.ask post p.2 system user).1 = (answer.map Json.str).mapError Failure.error

/-- The attempt fails with an error that is worth another attempt. -/
def Again (answers : Nat → Except Error Text) (number : Nat) : Prop :=
  ∃ error, readAnswer (answers number) = .error error ∧
    (verdict error.detailedMessage number).retry = true

/-- The calls from one number on, as many as there may be, are answered in turn as listed. Only calls
behind attempts that are worth another one count: no other call is made. -/
def AreAnswered (post : Endpoint σ) (system user : Text) (answers : Nat → Except Error Text)
    (number left : Nat) (p : Service × σ) : Prop :=
  ∀ k < left, (∀ j < k, Again answers (number + j)) →
    IsAnswered post system user ((behindCall post system user)^[k] p) (answers (number + k))

variable {post : Endpoint σ} {system user : Text} {s : Service} {e : σ}
  {answers : Nat → Except Error Text} {answer : Except Error Text}

theorem AreAnswered.first {number left : Nat} {p : Service × σ}
    (h : AreAnswered post system user answers number (left + 1) p) :
    IsAnswered post system user p (answers number) :=
  h 0 (Nat.succ_pos left) fun j hj => absurd hj (Nat.not_lt_zero j)

theorem AreAnswered.rest {number left : Nat} {p : Service × σ}
    (h : AreAnswered post system user answers number (left + 1) p) (hagain : Again answers number) :
    AreAnswered post system user answers (number + 1) left (behindCall post system user p) := by
  intro k hk hbefore
  have hnext := h (k + 1) (Nat.succ_lt_succ hk)
  rw [Nat.add_right_comm]
  refine hnext fun j hj => ?_
  cases j with
  | zero => exact hagain
  | succ j =>
    have hj' := hbefore j (Nat.lt_of_succ_lt_succ hj)
    rwa [Nat.add_right_comm] at hj'

section

variable {attempts strings left number : Nat}

end

end Localize.Service
