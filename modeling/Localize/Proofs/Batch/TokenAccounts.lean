import Localize.Batch.Remote
import Localize.Proofs.Batch.Accounting
import Localize.Proofs.Provider.Tokens

/-!
# Two accounts of tokens

A run adds up the tokens of the chunks that came to a translation; the service adds up the tokens of
every reply. Both are sums over the replies that the run has taken in: the account of the run leaves
out the replies that hold no translation.
-/

namespace Localize.Batch

open Provider

variable {replies : ℕ → Reply} {first last n : ℕ}

/-- The tokens of the replies, from a number on and before another, that hold no translation. -/
def uselessBetween (replies : ℕ → Reply) (first last : ℕ) : ℤ × ℤ :=
  ∑ i ∈ Finset.Ico first last with ¬(replies i).translation?.isSome, (replies i).tokens

theorem useful_add_uselessBetween (replies : ℕ → Reply) (first last : ℕ) :
    usefulBetween replies first last + uselessBetween replies first last =
      tokensBetween replies first last :=
  Finset.sum_filter_add_sum_filter_not _ _ _

/-! ### One call -/

/-- A whole number of a report is read as it is. -/
theorem TokenCount.reported_int {fields : Fields} {one other : String} {i : ℤ}
    (h : Table.find? fields one.toList = some (.int i)) : reported fields one other = .ok i := by
  rw [reported, h]
  by_cases hi : i = 0
  · subst hi
    rfl
  · have hsomething : (Json.int i).isSomething = true := by simpa [Json.isSomething] using hi
    simp only [Option.getD_some, hsomething, if_true]
    rfl

/-- A report of whole numbers is counted as it stands. -/
theorem TokenCount.ofReport_toJson {u : ReportedUsage} (h : u.Whole) :
    ∃ count, ofReport u.toJson = .ok count ∧ (count.input, count.output) = u.tokens := by
  obtain ⟨prompt, completion, total, rfl⟩ := h
  refine ⟨⟨prompt, completion, if total = 0 then prompt + completion else total⟩, ?_, rfl⟩
  let report : Fields := Json.record [("prompt_tokens", .int prompt),
    ("completion_tokens", .int completion), ("total_tokens", .int total)]
  have hprompt : reported report "prompt_tokens" "input" = .ok prompt := reported_int rfl
  have hcompletion : reported report "completion_tokens" "output" = .ok completion :=
    reported_int rfl
  have htotal : reported report "total_tokens" "total" = .ok total := reported_int rfl
  change (do
    let input ← reported report "prompt_tokens" "input"
    let output ← reported report "completion_tokens" "output"
    let total ← reported report "total_tokens" "total"
    return (⟨input, output, if total = 0 then input + output else total⟩ : TokenCount)) = _
  rw [hprompt, hcompletion, htotal]
  rfl

namespace Call

/-- The tokens read and written that are counted for a call. -/
def tokens (c : Call) : ℤ × ℤ := c.count?.elim 0 fun count => (count.input, count.output)

theorem tokens_answer (texts : List Text) {o : Service.Outcome}
    (h : ∀ u, o.report? = some u → u.Whole) :
    (Call.mk texts (Remote.answer o)).tokens = o.report?.elim 0 ReportedUsage.tokens := by
  obtain ⟨result, waits⟩ := o
  cases result with
  | error failure => rfl
  | ok came =>
    obtain ⟨fields, u⟩ := came
    obtain ⟨count, hcount, htokens⟩ := TokenCount.ofReport_toJson (h u rfl)
    have hcall : (Call.mk texts (.gave (.obj fields) u.toJson)).count? = some count := by
      change (TokenCount.ofReport u.toJson).toOption = some count
      rw [hcount]
      rfl
    change (Call.mk texts (.gave (.obj fields) u.toJson)).tokens = u.tokens
    rw [tokens, hcall, ← htokens]
    rfl

/-- The counts of the calls that have not failed are those of all calls. -/
theorem sum_tokensFrom (number : ℕ) (calls : List Call) :
    let sum := TokenCount.sum ((tokensFrom number calls).map Prod.snd)
    (sum.input, sum.output) = (calls.map tokens).sum := by
  induction calls generalizing number with
  | nil => rfl
  | cons c calls ih =>
    rw [tokensFrom_cons, List.map_cons, List.sum_cons, ← ih (number + 1), tokens]
    cases c.count? with
    | none => simp
    | some count => simp [TokenCount.sum]

end Call

/-! ### The calls of a run -/

/-- The calls of a run take in replies one after another, and count the tokens of those that hold a
translation. -/
theorem Remote.tokens_of_answers (hwhole : ∀ i, (replies i).Whole) {language prompt : Text}
    {s : Service} {t : ℤ × ℤ} (h : s.Spent t) {calls : List Call} {r : Remote ℕ}
    (hanswers : (standing (replaying replies)).Answers language prompt ⟨some s, first⟩ calls r) :
    ∃ s' last, r = ⟨some s', last⟩ ∧ first ≤ last ∧
      s'.Spent (t + tokensBetween replies first last) ∧
      (calls.map Call.tokens).sum = usefulBetween replies first last := by
  generalize hstart : (⟨some s, first⟩ : Remote ℕ) = start at hanswers
  induction hanswers generalizing s first t with
  | done =>
    subst hstart
    refine ⟨s, first, rfl, le_rfl, ?_, (usefulBetween_self replies first).symm⟩
    rw [tokensBetween_self, add_zero]
    exact h
  | call hanswer hrest ih =>
    subst hstart
    rename_i texts answer waits calls
    simp only [standing, ask] at hanswer
    cases hchunk : s.translateChunk (replaying replies) first texts prompt with
    | mk outcome after =>
      obtain ⟨s₁, middle⟩ := after
      have hspends := Service.spends_translateChunk h hwhole texts hchunk
      simp only [hchunk] at hanswer
      cases hanswer
      obtain ⟨s', last, rfl, hlater, hspent, hsum⟩ := ih hspends.spent rfl
      refine ⟨s', last, rfl, hspends.later.trans hlater, ?_, ?_⟩
      · rw [← tokensBetween_add hspends.later hlater, ← add_assoc]
        exact hspent
      · rw [List.map_cons, List.sum_cons, hsum, Call.tokens_answer texts hspends.whole,
          hspends.useful, usefulBetween_add hspends.later hlater]

/-- So do those of a session, in which nothing is taken in if no call is made. -/
theorem Remote.tokens_of_session (hwhole : ∀ i, (replies i).Whole) {language prompt : Text}
    {s : Service} (h : s.Spent 0) {calls : List Call} {r : Remote ℕ}
    (hsession : (standing (replaying replies)).Session language prompt ⟨some s, first⟩ calls r) :
    ∃ s' last, r = ⟨some s', last⟩ ∧ first ≤ last ∧ s'.Spent (tokensBetween replies first last) ∧
      (calls.map Call.tokens).sum = usefulBetween replies first last := by
  cases hsession with
  | unused =>
    refine ⟨s, first, rfl, le_rfl, ?_, (usefulBetween_self replies first).symm⟩
    rw [tokensBetween_self]
    exact h
  | used hprepare _ hanswers =>
    cases hprepare
    obtain ⟨s', last, hr, hlater, hspent, hsum⟩ := tokens_of_answers hwhole h hanswers
    rw [zero_add] at hspent
    exact ⟨s', last, hr, hlater, hspent, hsum⟩

/-! ### A run -/

variable {g : Option Glossary} {now : Nat} {r : Request} {w : Workspace (Remote ℕ)}
  {result : Result}

/-- A service that has been set up has totals that are the tokens of all replies that a run takes
in. The result of the run counts those of the replies that hold a translation. So both accounts
agree exactly if the tokens of the other replies come to nothing. -/
theorem translate_tokens (hwhole : ∀ i, (replies i).Whole) {settings : Settings}
    {env : Environment} {key model provider : Json} {own : Bool} {s : Service}
    (hs : Service.ofSettings settings env key model provider own = .ok s)
    (hw : w.translator = ⟨some s, first⟩)
    (h : (translate (Remote.standing (replaying replies)) g now r w).result = .ok result) :
    ∃ s' last,
      (translate (Remote.standing (replaying replies)) g now r w).workspace.translator =
        ⟨some s', last⟩ ∧
      first ≤ last ∧ s'.Spent (tokensBetween replies first last) ∧
      (result.tokens.input, result.tokens.output) = usefulBetween replies first last ∧
      (s'.Spent (result.tokens.input, result.tokens.output) ↔
        uselessBetween replies first last = 0) := by
  obtain ⟨c, calls, prompt, -, hsession, -, hbalanced⟩ := translate_balanced h
  rw [hw] at hsession
  obtain ⟨s', last, hafter, hlater, hspent, hsum⟩ :=
    Remote.tokens_of_session hwhole (Service.spent_ofSettings hs) hsession
  have htokens : (result.tokens.input, result.tokens.output) =
      usefulBetween replies first last := by
    rw [← hsum, hbalanced.tokens, hbalanced.chunkTokens]
    exact Call.sum_tokensFrom 1 calls
  refine ⟨s', last, hafter, hlater, hspent, htokens, ?_⟩
  rw [htokens, hspent.iff_eq, ← useful_add_uselessBetween, left_eq_add]

/-- A good reply with a content and with tokens. -/
def replyWith (content : Text) (prompt completion : ℕ) : Reply :=
  .response 200 (Json.obj (Json.record [
    ("choices", .arr [.obj (Json.record [
      ("message", .obj (Json.record [("content", .str content)]))])]),
    ("usage", .obj (Json.record [("prompt_tokens", .nat prompt),
      ("completion_tokens", .nat completion),
      ("total_tokens", .nat (prompt + completion))]))])).written

/-- The first reply holds no object, the others hold a translation. -/
def stammering : ℕ → Reply
  | 0 => replyWith "oops".toList 7 3
  | _ + 1 => replyWith (Json.obj (Json.record [("Hello", Json.lit "Hola")])).written 10 5

theorem whole_stammering (i : ℕ) : (stammering i).Whole := by
  intro u hu
  cases i with
  | zero =>
    have hreport : (stammering 0).report? = some ⟨.int 7, .int 3, .int 10⟩ := by decide +kernel
    exact ⟨7, 3, 10, Option.some.inj (hu.symm.trans hreport)⟩
  | succ i =>
    have hreport : (stammering 1).report? = some ⟨.int 10, .int 5, .int 15⟩ := by decide +kernel
    exact ⟨10, 5, 15, Option.some.inj (hu.symm.trans hreport)⟩

/-- A request for one text. -/
def Request.greeting : Request where
  strings := .arr [Json.lit "Hello"]
  language := Json.lit "es"
  key := Json.lit "k"
  options := {}

/-- A run with a service of the default settings and the replies that begin badly. -/
def stammeringRun : Ending (Remote ℕ) :=
  translate (Remote.standing (replaying stammering)) none 0 .greeting
    ⟨none, ⟨[], []⟩, ⟨some .standard, 0⟩⟩

theorem ofSettings_standard :
    Service.ofSettings Settings.default [] (Json.lit "k") .null .null false = .ok .standard := by
  rfl

/-- The tokens of the bad reply are in the totals of the service only. -/
theorem stammeringRun_accounts :
    (∀ i, (stammering i).Whole) ∧
      (stammeringRun.result.toOption.map fun result =>
        (result.tokens.input, result.tokens.output)) = some (10, 5) ∧
      (stammeringRun.workspace.translator.service.map fun s =>
        (s.promptTotal, s.completionTotal)) = some (.whole 17, .whole 8) := by
  refine ⟨whole_stammering, ?_⟩
  decide +kernel

theorem translate_tokens_stammering : ∃ result s' last,
    stammeringRun.result = .ok result ∧ stammeringRun.workspace.translator = ⟨some s', last⟩ ∧
      s'.Spent (tokensBetween stammering 0 last) ∧
      (result.tokens.input, result.tokens.output) = usefulBetween stammering 0 last ∧
      (s'.Spent (result.tokens.input, result.tokens.output) ↔
        uselessBetween stammering 0 last = 0) := by
  have hrun : stammeringRun.result.toOption.any (fun _ => true) = true := by
    decide +kernel
  obtain ⟨result, hresult, -⟩ := exists_result hrun
  obtain ⟨s', last, hafter, -, haccounts⟩ :=
    translate_tokens whole_stammering ofSettings_standard rfl hresult
  exact ⟨result, s', last, hresult, hafter, haccounts⟩

end Localize.Batch
