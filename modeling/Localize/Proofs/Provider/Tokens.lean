import Localize.Proofs.Provider.Attempts
import Mathlib.Algebra.BigOperators.Intervals
import Mathlib.Algebra.Group.Prod
import Mathlib.Algebra.Ring.Int.Defs

/-!
# Tokens of a sequence of replies

A provider gives its replies in a fixed sequence, one to each request. The totals of a service grow
by the tokens of every reply that reports some, whether an object is found in it or not. A chunk
comes to a translation with the last reply to it, and only that reply holds an object, so the
tokens that the chunk reports are those of the replies to it that hold one.
-/

namespace Localize

open Provider

/-- A whole number; zero stands for every other value. -/
def Json.wholeOrZero : Json → ℤ
  | .int i => i
  | _ => 0

namespace ReportedUsage

/-- The tokens of the prompt and of the completion. -/
def tokens (u : ReportedUsage) : ℤ × ℤ := (u.prompt.wholeOrZero, u.completion.wholeOrZero)

def Whole (u : ReportedUsage) : Prop :=
  ∃ prompt completion total : ℤ, u = ⟨.int prompt, .int completion, .int total⟩

end ReportedUsage

namespace Provider

/-- A provider that gives replies in a sequence and counts them. -/
def replaying (replies : ℕ → Reply) : Endpoint ℕ := fun n _ => (replies n, n + 1)

namespace Reply

/-- The object that is the body of a good reply. -/
def object? : Reply → Option Fields
  | .response status body =>
    match isGood status, readBody body with
    | true, .ok (.obj reply) => some reply
    | _, _ => none
  | _ => none

/-- The tokens that a reply reports. -/
def report? (reply : Reply) : Option ReportedUsage :=
  reply.object?.bind fun fields => (ReportedUsage.ofReply fields).toOption

/-- The tokens of the prompt and of the completion that a reply reports. -/
def tokens (reply : Reply) : ℤ × ℤ := reply.report?.elim 0 ReportedUsage.tokens

/-- The numbers that a reply reports are whole. -/
def Whole (reply : Reply) : Prop := ∀ u, reply.report? = some u → u.Whole

/-- The object in the content of the first choice in a reply whose report can be read. -/
def translation? (reply : Reply) : Option Fields :=
  match reply.object?, reply.report? with
  | some fields, some _ =>
    match valueOf fields "choices" .null with
    | .arr (.obj first :: _) =>
      match contentOf (valueOf first "message" .null) with
      | .str t => objectIn? t
      | _ => none
    | _ => none
  | _, _ => none

variable {reply : Reply}

theorem tokens_of_none (h : reply.report? = none) : reply.tokens = 0 := by
  rw [tokens, h]
  rfl

theorem tokens_of_some {u : ReportedUsage} (h : reply.report? = some u) :
    reply.tokens = u.tokens := by
  rw [tokens, h]
  rfl

theorem translation?_of_none (h : reply.report? = none) : reply.translation? = none := by
  rw [translation?, h]
  cases reply.object? with
  | none => rfl
  | some fields => rfl

end Reply

/-- The tokens of the replies from a number on and before another. -/
def tokensBetween (replies : ℕ → Reply) (first last : ℕ) : ℤ × ℤ :=
  ∑ i ∈ Finset.Ico first last, (replies i).tokens

/-- The tokens of those among the replies that hold a translation. -/
def usefulBetween (replies : ℕ → Reply) (first last : ℕ) : ℤ × ℤ :=
  ∑ i ∈ Finset.Ico first last with (replies i).translation?.isSome, (replies i).tokens

variable {replies : ℕ → Reply} {first middle last n : ℕ}

theorem tokensBetween_self (replies : ℕ → Reply) (n : ℕ) : tokensBetween replies n n = 0 := by
  simp [tokensBetween]

theorem usefulBetween_self (replies : ℕ → Reply) (n : ℕ) : usefulBetween replies n n = 0 := by
  simp [usefulBetween]

theorem tokensBetween_succ (replies : ℕ → Reply) (n : ℕ) :
    tokensBetween replies n (n + 1) = (replies n).tokens := by
  simp [tokensBetween]

theorem usefulBetween_succ (replies : ℕ → Reply) (n : ℕ) :
    usefulBetween replies n (n + 1) =
      if (replies n).translation?.isSome then (replies n).tokens else 0 := by
  simp [usefulBetween, Finset.sum_filter]

theorem tokensBetween_add (hfirst : first ≤ middle) (hlast : middle ≤ last) :
    tokensBetween replies first middle + tokensBetween replies middle last =
      tokensBetween replies first last :=
  Finset.sum_Ico_consecutive _ hfirst hlast

theorem usefulBetween_add (hfirst : first ≤ middle) (hlast : middle ≤ last) :
    usefulBetween replies first middle + usefulBetween replies middle last =
      usefulBetween replies first last := by
  simp only [usefulBetween, Finset.sum_filter]
  exact Finset.sum_Ico_consecutive _ hfirst hlast

/-- Without an object there is nothing in the empty text. -/
theorem objectIn?_nil : objectIn? [] = none := by
  decide +kernel

end Provider

namespace Service

/-- The totals of a service are whole numbers. -/
structure Spent (s : Service) (tokens : ℤ × ℤ) : Prop where
  prompt : s.promptTotal = .whole tokens.1
  completion : s.completionTotal = .whole tokens.2

variable {replies : ℕ → Reply} {n : ℕ} {s s' : Service} {t : ℤ × ℤ} {system user : Text}

theorem Spent.iff_eq (h : s.Spent t) {tokens : ℤ × ℤ} : s.Spent tokens ↔ tokens = t := by
  constructor
  · intro h'
    have hprompt := Quantity.whole.inj (h'.prompt.symm.trans h.prompt)
    have hcompletion := Quantity.whole.inj (h'.completion.symm.trans h.completion)
    exact Prod.ext hprompt hcompletion
  · rintro rfl
    exact h

theorem spent_ofSettings {settings : Settings} {env : Environment} {key model provider : Json}
    {own : Bool} (h : ofSettings settings env key model provider own = .ok s) : s.Spent 0 := by
  unfold ofSettings at h
  split at h
  · cases h
  · split at h
    · cases h
    · cases h
    · cases h
      exact ⟨rfl, rfl⟩

/-! ### One reply -/

/-- Whole tokens are added to whole totals. -/
theorem account_whole (h : s.Spent t) {u : ReportedUsage} (hu : u.Whole) :
    ∃ s', s.account u = (.ok (), s') ∧ s'.Spent (t + u.tokens) ∧ s'.lastUsage = u := by
  obtain ⟨prompt, completion, total, rfl⟩ := hu
  unfold account
  simp only [Json.quantity?, h.prompt, h.completion, Option.bind_some, Quantity.add?]
  exact ⟨_, rfl, ⟨rfl, rfl⟩, rfl⟩

/-- A message that is there and is none has no object in its content. -/
theorem objectIn?_of_not_isMessage {message : Json} (h : ¬NothingOr IsMessage message) :
    (match contentOf message with
      | .str t => objectIn? t
      | _ => none) = none := by
  cases message with
  | obj fields =>
    cases hcontent : contentOf (.obj fields) with
    | str t =>
      exact absurd (fun _ => ⟨fields, rfl, contentOf_text_iff.mp ⟨t, hcontent⟩⟩) h
    | _ => rfl
  | _ => exact objectIn?_nil

/-- What is found in the content of a reply does not depend on the service that looks. -/
theorem content_toOption (s : Service) (reply : Fields) :
    (s.content reply >>= objectOf).toOption =
      match valueOf reply "choices" .null with
      | .arr (.obj first :: _) =>
        match contentOf (valueOf first "message" .null) with
        | .str t => objectIn? t
        | _ => none
      | _ => none := by
  cases hs : (valueOf reply "choices" .null).isSomething with
  | false =>
    rw [content_nothing hs]
    split
    · next hchoices =>
      rw [hchoices] at hs
      cases hs
    · rfl
  | true =>
    by_cases hc : AreChoices (valueOf reply "choices" .null)
    · obtain ⟨t, ⟨first, rest, hchoices, hcontent⟩, hok⟩ := exists_content (s := s) hc
      rw [hok, hchoices]
      simp only [hcontent]
      change (objectOf (.str t)).toOption = _
      cases hfound : objectIn? t with
      | none => rw [objectOf_unfound hfound]; rfl
      | some fields => rw [objectOf_found hfound]; rfl
    · obtain ⟨fault, hfault⟩ := exists_fault (s := s) hs hc
      rw [hfault]
      split
      · next first rest hchoices =>
        refine (objectIn?_of_not_isMessage fun hmessage => hc ?_).symm
        exact ⟨first, rest, hchoices, hmessage⟩
      · rfl

/-- What has been spent since a number of replies: the totals have grown by the tokens of the
replies since then, and what is reported are the tokens of those that hold a translation. -/
structure Spends (replies : ℕ → Reply) (t : ℤ × ℤ) (n : ℕ) (reported : Option ReportedUsage)
    (s' : Service) (n' : ℕ) : Prop where
  later : n ≤ n'
  spent : s'.Spent (t + tokensBetween replies n n')
  whole : ∀ u, reported = some u → u.Whole
  useful : reported.elim 0 ReportedUsage.tokens = usefulBetween replies n n'

theorem Spends.nothing (h : s.Spent t) (n : ℕ) : Spends replies t n none s n where
  later := le_rfl
  spent := by
    rw [tokensBetween_self, add_zero]
    exact h
  whole _ hu := nomatch hu
  useful := (usefulBetween_self replies n).symm

/-- Behind replies that hold no translation come others. -/
theorem Spends.trans {reported : Option ReportedUsage} {n' n'' : ℕ} {s'' : Service}
    (h : Spends replies t n none s' n')
    (h' : Spends replies (t + tokensBetween replies n n') n' reported s'' n'') :
    Spends replies t n reported s'' n'' where
  later := h.later.trans h'.later
  spent := by
    rw [← tokensBetween_add h.later h'.later, ← add_assoc]
    exact h'.spent
  whole := h'.whole
  useful := by
    rw [h'.useful, ← usefulBetween_add h.later h'.later, ← h.useful]
    exact (zero_add _).symm

/-- A reply is taken in: its tokens are on the totals, and they are reported if it holds a
translation. -/
theorem Spends.reply (h : s'.Spent (t + (replies n).tokens))
    {reported : Option ReportedUsage} (hreported : ∀ u, reported = some u →
      (replies n).report? = some u ∧ u.Whole ∧ (replies n).translation?.isSome = true)
    (hnone : reported = none → (replies n).translation? = none) :
    Spends replies t n reported s' (n + 1) where
  later := n.le_succ
  spent := by
    rw [tokensBetween_succ]
    exact h
  whole u hu := (hreported u hu).2.1
  useful := by
    rw [usefulBetween_succ]
    cases reported with
    | none => simp [hnone rfl]
    | some u =>
      obtain ⟨hu, -, hsome⟩ := hreported u rfl
      rw [hsome, if_pos rfl, Reply.tokens_of_some hu]
      rfl

/-- A reply without a report is passed over. -/
theorem Spends.unread (h : s.Spent t) (hreport : (replies n).report? = none) :
    Spends replies t n none s (n + 1) := by
  refine Spends.reply ?_ (fun u hu => nomatch hu) fun _ => Reply.translation?_of_none hreport
  rw [Reply.tokens_of_none hreport, add_zero]
  exact h

/-- A good reply that is an object is taken in. -/
theorem spends_digest (h : s.Spent t) (hwhole : (replies n).Whole) {fields : Fields}
    (hobject : (replies n).object? = some fields) {result : Except Failure Json}
    (hdigest : s.digest (.obj fields) = (result, s')) :
    Spends replies t n ((result >>= objectOf).toOption.map fun _ => s'.lastUsage) s' (n + 1) := by
  have hreport : (replies n).report? = (ReportedUsage.ofReply fields).toOption :=
    congrArg (Option.bind · _) hobject
  unfold digest at hdigest
  cases hu : ReportedUsage.ofReply fields with
  | error fault =>
    rw [hu] at hreport
    simp only [hu] at hdigest
    cases hdigest
    exact .unread h hreport
  | ok u =>
    rw [hu] at hreport
    obtain ⟨s'', haccount, hspent, hlast⟩ := account_whole h (hwhole u hreport)
    simp only [hu, haccount] at hdigest
    cases hdigest
    have htranslation : (replies n).translation? = (s'.content fields >>= objectOf).toOption := by
      rw [content_toOption, Reply.translation?, hobject, hreport]
      rfl
    rw [← Reply.tokens_of_some hreport] at hspent
    refine Spends.reply hspent ?_ ?_
    · intro u' hu'
      obtain ⟨found, hfound, rfl⟩ := Option.map_eq_some_iff.mp hu'
      rw [hlast, htranslation]
      exact ⟨hreport, hwhole u hreport, Option.isSome_of_eq_some hfound⟩
    · intro hnone
      rw [htranslation]
      exact Option.map_eq_none_iff.mp hnone

/-- The value that is read out of a reply is an object if the body of a good reply is one. -/
theorem object?_of_readReply (s : Service) (reply : Reply) :
    reply.object? = match s.readReply reply with
      | .ok (.obj fields) => some fields
      | _ => none := by
  unfold readReply Reply.object?
  cases reply with
  | timedOut => rfl
  | unreachable reason => rfl
  | response status body =>
    dsimp only
    cases Reply.isGood status with
    | false => rfl
    | true =>
      rw [if_pos rfl]
      cases readBody body with
      | error e => rfl
      | ok value => cases value <;> rfl

/-- An attempt takes in one reply or none. -/
theorem spends_attempt (h : s.Spent t) (hwhole : ∀ i, (replies i).Whole)
    {result : Except Failure Fields} {n' : ℕ}
    (hattempt : s.attempt (replaying replies) n system user = (result, s', n')) :
    Spends replies t n (result.toOption.map fun _ => s'.lastUsage) s' n' := by
  unfold attempt ask replaying at hattempt
  cases hrequest : s.request system user with
  | error failure =>
    simp only [hrequest] at hattempt
    cases hattempt
    exact .nothing h n
  | ok request =>
    have hobject := object?_of_readReply s (replies n)
    have hunread (hnone : (replies n).object? = none) : (replies n).report? = none :=
      congrArg (Option.bind · _) hnone
    cases hread : s.readReply (replies n) with
    | error failure =>
      simp only [hrequest, hread] at hattempt hobject
      cases hattempt
      exact .unread h (hunread hobject)
    | ok value =>
      cases value with
      | obj fields =>
        simp only [hread] at hobject
        cases hdigest : s.digest (.obj fields) with
        | mk content s₁ =>
          have hspends := spends_digest h (hwhole n) hobject hdigest
          simp only [hrequest, hread, hdigest] at hattempt
          cases content with
          | error failure =>
            cases hattempt
            exact hspends
          | ok content =>
            cases hattempt
            exact hspends
      | _ =>
        simp only [hread] at hobject
        simp only [hrequest, hread, digest] at hattempt
        cases hattempt
        exact .unread h (hunread hobject)

/-! ### A chunk -/

/-- The tokens of a translation that came. -/
def Outcome.report? (o : Outcome) : Option ReportedUsage := o.result.toOption.map Prod.snd

theorem spends_tryFrom (hwhole : ∀ i, (replies i).Whole) (attempts strings left number : ℕ)
    (h : s.Spent t) {outcome : Outcome} {n' : ℕ}
    (htry : s.tryFrom (replaying replies) system user attempts strings left number n =
      (outcome, s', n')) :
    Spends replies t n outcome.report? s' n' := by
  induction left generalizing number s t n outcome with
  | zero =>
    cases htry
    exact .nothing h _
  | succ left ih =>
    cases hattempt : s.attempt (replaying replies) n system user with
    | mk result after =>
      obtain ⟨s₁, n₁⟩ := after
      have hspends := spends_attempt h hwhole hattempt
      rw [tryFrom] at htry
      simp only [hattempt] at htry
      rcases result with (last | fault) | fields
      · simp only at htry
        split at htry
        · cases hrest : s₁.tryFrom (replaying replies) system user attempts strings left
              (number + 1) n₁ with
          | mk outcome₁ after₁ =>
            obtain ⟨s₂, n₂⟩ := after₁
            simp only [hrest] at htry
            cases htry
            have hlater := ih (number + 1) hspends.spent hrest
            exact hspends.trans hlater
        · cases htry
          exact hspends
      · cases htry
        exact hspends
      · cases htry
        exact hspends

/-- A chunk takes in the replies to its attempts, and reports the tokens of those that hold a
translation. -/
theorem spends_translateChunk (h : s.Spent t) (hwhole : ∀ i, (replies i).Whole)
    (strings : List Text) {outcome : Outcome} {n' : ℕ}
    (hchunk : s.translateChunk (replaying replies) n strings system = (outcome, s', n')) :
    Spends replies t n outcome.report? s' n' := by
  rw [translateChunk] at hchunk
  split at hchunk
  · cases hchunk
    exact {
      Spends.nothing h n with
      whole := fun u hu => Option.some.inj hu ▸ ⟨0, 0, 0, rfl⟩
      useful := (usefulBetween_self replies n).symm }
  · split at hchunk
    · cases hchunk
      exact .nothing h n
    · exact spends_tryFrom hwhole _ _ _ _ h hchunk

end Service

end Localize
