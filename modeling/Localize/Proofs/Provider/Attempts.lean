import Localize.Proofs.Provider.Reply
import Localize.Settings.Basic

/-!
# How the attempts at a chunk end

An attempt is one exchange with the provider. It comes to an object or to an error of the
translation unless it breaks: the settings do not give a request, or the reply is JSON of a shape
that its use does not expect. Attempts follow each other as long as the verdict on the error is to
try again and there are some left. So a chunk ends in a translation, in an error of the translation
or, exactly when an attempt that is reached breaks, in a fault.
-/

namespace Localize.Service

open Provider

variable {σ : Type}

/-! ### One attempt -/

/-- The attempt comes to an object or to an error. -/
def Ends (post : Endpoint σ) (system user : Text) (s : Service) (e : σ) (r : Except Error Fields) :
    Prop :=
  (∃ error, s.request system user = .error (.error error) ∧ r = .error error) ∨
    ∃ request, s.request system user = .ok request ∧ ¬s.Misread (post e request).1 ∧
      Comes s.provider (post e request).1 r

/-- The attempt meets a setting or a reply of a wrong shape. -/
def Breaks (post : Endpoint σ) (system user : Text) (s : Service) (e : σ) : Prop :=
  (∃ fault, s.request system user = .error (.fault fault)) ∨
    ∃ request, s.request system user = .ok request ∧ s.Misread (post e request).1

variable {post : Endpoint σ} {system user : Text} {s : Service} {e : σ}

theorem attempt_of_request {request : Request} (h : s.request system user = .ok request) :
    (s.attempt post e system user).1 = s.outcome (post e request).1 := by
  unfold attempt ask outcome fieldsIn
  simp only [h]
  cases s.readReply (post e request).1 with
  | error failure => rfl
  | ok value =>
    simp only
    rcases hd : s.digest value with ⟨r, s'⟩
    cases r with
    | error failure => simp only [bind, Except.bind, hd]
    | ok content => simp only [bind, Except.bind, hd]

theorem attempt_of_request_error (post : Endpoint σ) (e : σ) {failure : Failure}
    (h : s.request system user = .error failure) :
    (s.attempt post e system user).1 = .error failure := by
  unfold attempt ask
  simp only [h]

theorem digest_provider (value : Json) : (s.digest value).2.provider = s.provider := by
  unfold digest
  split
  · split
    · rfl
    · split <;> rename_i h <;> exact (congrArg (·.2.provider) h).symm.trans (account_provider _)
  · rfl

theorem attempt_provider (post : Endpoint σ) (system user : Text) (s : Service) (e : σ) :
    (s.attempt post e system user).2.1.provider = s.provider := by
  unfold attempt ask
  cases s.request system user with
  | error failure => rfl
  | ok request =>
    cases hread : s.readReply (post e request).1 with
    | error failure => simp only [hread]
    | ok value =>
      rcases hd : s.digest value with ⟨r, s'⟩
      have hprovider : s'.provider = s.provider := by rw [← digest_provider (s := s) value, hd]
      simp only [hread, hd]
      cases r <;> exact hprovider

/-- An attempt breaks or comes to something. -/
theorem breaks_or_ends (post : Endpoint σ) (system user : Text) (s : Service) (e : σ) :
    (Breaks post system user s e ∧
        ∃ fault, (s.attempt post e system user).1 = .error (.fault fault)) ∨
      ∃ r, Ends post system user s e r ∧
        (s.attempt post e system user).1 = r.mapError Failure.error := by
  cases hrequest : s.request system user with
  | error failure =>
    have hattempt := attempt_of_request_error post e hrequest
    cases failure with
    | fault fault => exact .inl ⟨.inl ⟨fault, hrequest⟩, fault, hattempt⟩
    | error error => exact .inr ⟨.error error, .inl ⟨error, hrequest, rfl⟩, hattempt⟩
  | ok request =>
    rw [attempt_of_request hrequest]
    by_cases hmisread : s.Misread (post e request).1
    · exact .inl ⟨.inr ⟨request, hrequest, hmisread⟩, exists_fault_of_misread hmisread⟩
    · obtain ⟨r, hcomes, houtcome⟩ := exists_comes hmisread
      exact .inr ⟨r, .inr ⟨request, hrequest, hmisread, hcomes⟩, houtcome⟩

theorem Ends.not_breaks {r : Except Error Fields} (h : Ends post system user s e r) :
    ¬Breaks post system user s e := by
  rintro (⟨fault, hfault⟩ | ⟨request, hrequest, hmisread⟩)
  all_goals obtain ⟨error, herror, -⟩ | ⟨request', hrequest', hread, -⟩ := h
  · rw [hfault] at herror
    cases herror
  · rw [hfault] at hrequest'
    cases hrequest'
  · rw [hrequest] at herror
    cases herror
  · rw [hrequest] at hrequest'
    cases hrequest'
    exact hread hmisread

theorem Ends.unique {r r' : Except Error Fields} (h : Ends post system user s e r)
    (h' : Ends post system user s e r') : r = r' := by
  obtain ⟨error, herror, rfl⟩ | ⟨request, hrequest, -, hcomes⟩ := h
  all_goals obtain ⟨error', herror', rfl⟩ | ⟨request', hrequest', -, hcomes'⟩ := h'
  · cases herror.symm.trans herror'
    rfl
  · cases herror.symm.trans hrequest'
  · cases hrequest.symm.trans herror'
  · cases hrequest.symm.trans hrequest'
    exact hcomes.unique hcomes'

theorem limitFailure_category {limit : Json} {fault : Fault} {error : Error}
    (h : s.limitFailure limit fault = .error error) : error.category = .translation := by
  unfold limitFailure at h
  split at h
  · cases h
    rfl
  · cases h

theorem request_error_category {error : Error}
    (h : s.request system user = .error (.error error)) : error.category = .translation := by
  unfold request at h
  cases ha : ((s.setting? "api_url").getD (.str [])).isSomething with
  | false =>
    simp only [ha, Bool.false_eq_true, if_false] at h
    cases h
    rfl
  | true =>
    simp only [ha, if_true] at h
    cases ht : s.connectionTimeout with
    | error failure =>
      simp only [ht] at h
      cases h
      unfold connectionTimeout at ht
      split at ht
      · cases ht
      · simp only at ht
        split at ht
        · cases ht
        · exact limitFailure_category (Except.error.inj ht)
    | ok timeout =>
      rw [ht] at h
      split at h <;> simp_all

theorem Ends.attempt_eq {r : Except Error Fields} (h : Ends post system user s e r) :
    (s.attempt post e system user).1 = r.mapError Failure.error := by
  rcases breaks_or_ends post system user s e with
    ⟨hbreaks, -⟩ | ⟨r', hends, hattempt⟩
  · exact absurd hbreaks h.not_breaks
  · exact h.unique hends ▸ hattempt

theorem Ends.category {last : Error} (h : Ends post system user s e (.error last)) :
    last.category = .translation := by
  obtain ⟨error, hrequest, hlast⟩ | ⟨request, -, -, hcomes⟩ := h
  · cases hlast
    exact request_error_category hrequest
  · exact hcomes.category

/-! ### Attempts one after another -/

/-- The attempts before the one with a given number have all come to an error that is worth another
attempt. The waits after them and the service and state that they leave are listed with it. -/
inductive Retried (post : Endpoint σ) (system user : Text) (s : Service) (e : σ) :
    Nat → List Nat → Service → σ → Prop
  | start : Retried post system user s e 0 [] s e
  | again {number : Nat} {waits : List Nat} {s' : Service} {e' : σ} {last : Error}
      (before : Retried post system user s e number waits s' e')
      (failed : Ends post system user s' e' (.error last))
      (worth : (verdict last.detailedMessage number).retry = true) :
      Retried post system user s e (number + 1)
        (waits ++ [(verdict last.detailedMessage number).wait])
        (s'.attempt post e' system user).2.1 (s'.attempt post e' system user).2.2

/-- Attempts go one way. -/
theorem Retried.unique {number : Nat} {waits waits' : List Nat} {s₁ s₂ : Service} {e₁ e₂ : σ}
    (h : Retried post system user s e number waits s₁ e₁)
    (h' : Retried post system user s e number waits' s₂ e₂) :
    waits = waits' ∧ s₁ = s₂ ∧ e₁ = e₂ := by
  induction h generalizing waits' s₂ e₂ with
  | start =>
    cases h'
    exact ⟨rfl, rfl, rfl⟩
  | again before failed worth ih =>
    cases h' with
    | again before' failed' worth' =>
      obtain ⟨rfl, rfl, rfl⟩ := ih before'
      cases failed.unique failed'
      exact ⟨rfl, rfl, rfl⟩

/-- Each attempt before one that is reached came to an error worth another attempt. -/
theorem Retried.exists_before {number earlier : Nat} {waits : List Nat} {s₁ : Service} {e₁ : σ}
    (h : Retried post system user s e number waits s₁ e₁) (hlt : earlier < number) :
    ∃ waits' s' e' last, Retried post system user s e earlier waits' s' e' ∧
      Ends post system user s' e' (.error last) ∧
      (verdict last.detailedMessage earlier).retry = true := by
  induction h with
  | start => exact absurd hlt (Nat.not_lt_zero _)
  | @again number waits s' e' last before failed worth ih =>
    rcases Nat.lt_succ_iff_lt_or_eq.mp hlt with hlt | rfl
    · exact ih hlt
    · exact ⟨waits, s', e', last, before, failed, worth⟩

/-! ### What each kind of attempt does to a run -/

section

variable {attempts strings left number : Nat}

theorem tryFrom_fault {fault : Fault}
    (h : (s.attempt post e system user).1 = .error (.fault fault)) :
    s.tryFrom post system user attempts strings (left + 1) number e =
      (⟨.error fault, []⟩, (s.attempt post e system user).2) := by
  rw [tryFrom]
  rcases ha : s.attempt post e system user with ⟨r, s', e'⟩
  rw [ha] at h
  cases h
  rfl

theorem tryFrom_ok {fields : Fields} (h : (s.attempt post e system user).1 = .ok fields) :
    s.tryFrom post system user attempts strings (left + 1) number e =
      (⟨.ok (fields, (s.attempt post e system user).2.1.lastUsage), []⟩,
        (s.attempt post e system user).2) := by
  rw [tryFrom]
  rcases ha : s.attempt post e system user with ⟨r, s', e'⟩
  rw [ha] at h
  cases h
  rfl

theorem tryFrom_last {last : Error}
    (h : (s.attempt post e system user).1 = .error (.error last))
    (hlast : left = 0 ∨ (verdict last.detailedMessage number).retry = false) :
    s.tryFrom post system user attempts strings (left + 1) number e =
      (⟨.error (Error.attemptsExhausted attempts last s.provider strings), []⟩,
        (s.attempt post e system user).2) := by
  rw [← attempt_provider post system user s e, tryFrom]
  rcases ha : s.attempt post e system user with ⟨r, s', e'⟩
  rw [ha] at h
  cases h
  have hstop : ((verdict last.detailedMessage number).retry && decide (left ≠ 0)) = false := by
    rcases hlast with rfl | hretry
    · exact Bool.and_false _
    · rw [hretry]
      rfl
  simp only [hstop, Bool.false_eq_true, if_false]

theorem tryFrom_again {last : Error}
    (h : (s.attempt post e system user).1 = .error (.error last)) (hleft : left ≠ 0)
    (hretry : (verdict last.detailedMessage number).retry = true) :
    s.tryFrom post system user attempts strings (left + 1) number e =
      let run := (s.attempt post e system user).2.1.tryFrom post system user attempts strings left
        (number + 1) (s.attempt post e system user).2.2
      (⟨run.1.result, (verdict last.detailedMessage number).wait :: run.1.waits⟩, run.2) := by
  rw [tryFrom]
  rcases ha : s.attempt post e system user with ⟨r, s', e'⟩
  rw [ha] at h
  cases h
  simp only [hretry, hleft, ne_eq, not_false_eq_true, decide_true, Bool.and_self, if_true]

end

/-! ### A chunk -/

/-- How the attempt that decides gives the result of the chunk. -/
inductive Decides (post : Endpoint σ) (system user : Text) (attempts strings number : Nat)
    (s : Service) (e : σ) : Except Failure (Fields × ReportedUsage) → Prop
  | translated {fields : Fields} (came : Ends post system user s e (.ok fields)) :
      Decides post system user attempts strings number s e
        (.ok (fields, (s.attempt post e system user).2.1.lastUsage))
  | failed {last : Error} (came : Ends post system user s e (.error last))
      (final : number + 1 = attempts ∨ (verdict last.detailedMessage number).retry = false) :
      Decides post system user attempts strings number s e
        (.error (Error.attemptsExhausted attempts last s.provider strings))
  | broken {fault : Fault} (breaks : Breaks post system user s e) :
      Decides post system user attempts strings number s e (.error fault)

/-- Without another attempt the one that is made decides. -/
theorem decides_tryFrom (strings left : Nat) {attempts number : Nat}
    (hleft : number + left + 1 = attempts)
    (hlast : ∀ last, Ends post system user s e (.error last) →
      left = 0 ∨ (verdict last.detailedMessage number).retry = false) :
    let run := s.tryFrom post system user attempts strings (left + 1) number e
    Decides post system user attempts strings number s e run.1.result ∧ run.1.waits = [] ∧
      run.2 = (s.attempt post e system user).2 := by
  rcases breaks_or_ends post system user s e with
    ⟨hbreaks, fault, hattempt⟩ | ⟨r, hends, hattempt⟩
  · rw [tryFrom_fault hattempt]
    exact ⟨.broken hbreaks, rfl, rfl⟩
  cases r with
  | ok fields =>
    rw [tryFrom_ok hattempt]
    exact ⟨.translated hends, rfl, rfl⟩
  | error last =>
    rw [tryFrom_last hattempt (hlast last hends)]
    exact ⟨.failed hends ((hlast last hends).imp_left (by omega)), rfl, rfl⟩

/-- The attempts left go on from those that were made until one decides. -/
theorem exists_decides_tryFrom {attempts strings : Nat} (left : Nat) {number : Nat}
    {waits : List Nat} {s' : Service} {e' : σ}
    (h : Retried post system user s e number waits s' e') (hleft : number + left + 1 = attempts) :
    let run := s'.tryFrom post system user attempts strings (left + 1) number e'
    ∃ decisive < attempts, ∃ s₁ e₁,
      Retried post system user s e decisive (waits ++ run.1.waits) s₁ e₁ ∧
      Decides post system user attempts strings decisive s₁ e₁ run.1.result ∧
      run.2 = (s₁.attempt post e₁ system user).2 := by
  induction left generalizing number waits s' e' with
  | zero =>
    obtain ⟨hdecides, hwaits, hafter⟩ :=
      decides_tryFrom (s := s') (e := e') strings 0 hleft fun last _ => .inl rfl
    exact ⟨number, by omega, s', e', by rw [hwaits, List.append_nil]; exact h, hdecides, hafter⟩
  | succ left ih =>
    by_cases hagain : ∃ last, Ends post system user s' e' (.error last) ∧
        (verdict last.detailedMessage number).retry = true
    · obtain ⟨last, hends, hretry⟩ := hagain
      rw [tryFrom_again hends.attempt_eq (Nat.succ_ne_zero left) hretry]
      obtain ⟨decisive, hlt, s₁, e₁, hretried, hdecides⟩ :=
        ih (.again h hends hretry) (by omega)
      rw [List.append_assoc, List.singleton_append] at hretried
      exact ⟨decisive, hlt, s₁, e₁, hretried, hdecides⟩
    · obtain ⟨hdecides, hwaits, hafter⟩ :=
        decides_tryFrom (s := s') (e := e') strings (left + 1) hleft fun last hends =>
          .inr (eq_false_of_ne_true fun hretry => hagain ⟨last, hends, hretry⟩)
      exact ⟨number, by omega, s', e', by rw [hwaits, List.append_nil]; exact h, hdecides, hafter⟩

/-- No attempt that breaks can stand before the one that decides or behind it. -/
theorem Decides.exists_fault {attempts strings decisive number : Nat} {waits waits' : List Nat}
    {s₁ s₂ : Service} {e₁ e₂ : σ} {result : Except Failure (Fields × ReportedUsage)}
    (hdecides : Decides post system user attempts strings decisive s₁ e₁ result)
    (hdecisive : Retried post system user s e decisive waits s₁ e₁)
    (h : Retried post system user s e number waits' s₂ e₂) (hnumber : number < attempts)
    (hbreaks : Breaks post system user s₂ e₂) : ∃ fault, result = .error (.fault fault) := by
  rcases Nat.lt_trichotomy number decisive with hlt | rfl | hgt
  · obtain ⟨_, _, _, _, hbefore, hends, -⟩ := hdecisive.exists_before hlt
    obtain ⟨-, rfl, rfl⟩ := h.unique hbefore
    exact absurd hbreaks hends.not_breaks
  · obtain ⟨-, rfl, rfl⟩ := h.unique hdecisive
    cases hdecides with
    | translated hends => exact absurd hbreaks hends.not_breaks
    | failed hends => exact absurd hbreaks hends.not_breaks
    | broken => exact ⟨_, rfl⟩
  · obtain ⟨_, _, _, last, hbefore, hends, hretry⟩ := h.exists_before hgt
    obtain ⟨-, rfl, rfl⟩ := hdecisive.unique hbefore
    cases hdecides with
    | translated hends' => cases hends.unique hends'
    | failed hends' hfinal =>
      cases hends.unique hends'
      rcases hfinal with hlast | hstop
      · omega
      · exact absurd (hretry.symm.trans hstop) (by decide)
    | broken hbreaks' => exact absurd hbreaks' hends.not_breaks

theorem exists_decides (post : Endpoint σ) (e : σ) (system : Text) {strings : List Text}
    (hs : strings ≠ []) {attempts : Nat} (h : s.attempts = .ok attempts) :
    let user := (Json.arr (strings.map .str)).written
    let run := s.translateChunk post e strings system
    ∃ decisive < attempts, ∃ s₁ e₁, Retried post system user s e decisive run.1.waits s₁ e₁ ∧
      Decides post system user attempts strings.length decisive s₁ e₁ run.1.result ∧
      run.2 = (s₁.attempt post e₁ system user).2 := by
  have hempty : strings.isEmpty = false := by simpa using hs
  have hpositive : 0 < attempts := by
    unfold Service.attempts at h
    obtain ⟨n, -, hn⟩ := bind_ok_iff.mp h
    cases hn
    omega
  obtain ⟨left, rfl⟩ : ∃ left, attempts = left + 1 := ⟨attempts - 1, by omega⟩
  simp only [translateChunk, hempty, h, Bool.false_eq_true, if_false]
  exact exists_decides_tryFrom left .start (by omega)

/-- A chunk ends in a translation with its tokens, in an error of the translation or in a fault. The
fault comes exactly of a number of attempts that is no number and of an attempt that is reached and
breaks, so of settings and replies of a wrong shape. Every other bad reply is answered as the
verdict on it says: attempts follow each other with the waits of their verdicts as long as there
are some left. -/
theorem translateChunk_decided (post : Endpoint σ) (s : Service) (e : σ) (system : Text)
    {strings : List Text} (hs : strings ≠ []) :
    let user := (Json.arr (strings.map .str)).written
    let run := s.translateChunk post e strings system
    ((∃ fault, run.1.result = .error (.fault fault)) ↔
      (∃ fault, s.attempts = .error fault) ∨
        ∃ attempts, s.attempts = .ok attempts ∧ ∃ number < attempts, ∃ waits s' e',
          Retried post system user s e number waits s' e' ∧ Breaks post system user s' e') ∧
    (∀ error, run.1.result = .error (.error error) → error.category = .translation) ∧
    ∀ attempts, s.attempts = .ok attempts → ∃ decisive < attempts, ∃ s₁ e₁,
      Retried post system user s e decisive run.1.waits s₁ e₁ ∧
      Decides post system user attempts strings.length decisive s₁ e₁ run.1.result ∧
      run.2 = (s₁.attempt post e₁ system user).2 := by
  intro user run
  have hempty : strings.isEmpty = false := by simpa using hs
  cases hattempts : s.attempts with
  | error fault =>
    have hresult : run.1.result = .error (.fault fault) := by
      simp only [run, translateChunk, hempty, hattempts, Bool.false_eq_true, if_false]
    refine ⟨⟨fun _ => .inl ⟨fault, rfl⟩, fun _ => ⟨fault, hresult⟩⟩, fun error herror => ?_,
      fun attempts h => by cases h⟩
    cases hresult.symm.trans herror
  | ok attempts =>
    obtain ⟨decisive, hlt, s₁, e₁, hretried, hdecides, hafter⟩ :=
      exists_decides post e system hs hattempts
    refine ⟨⟨?_, ?_⟩, ?_, ?_⟩
    · rintro ⟨fault, hfault⟩
      change Decides _ _ _ _ _ _ _ _ run.1.result at hdecides
      rw [hfault] at hdecides
      cases hdecides with
      | broken hbreaks =>
        exact .inr ⟨attempts, rfl, decisive, hlt, _, s₁, e₁, hretried, hbreaks⟩
    · rintro (⟨fault, hfault⟩ | ⟨attempts', h, number, hnumber, waits, s', e', hreached, hbreaks⟩)
      · cases hfault
      · cases h
        exact hdecides.exists_fault hretried hreached hnumber hbreaks
    · intro error herror
      change Decides _ _ _ _ _ _ _ _ run.1.result at hdecides
      rw [herror] at hdecides
      cases hdecides
      rfl
    · rintro attempts' h
      cases h
      exact ⟨decisive, hlt, s₁, e₁, hretried, hdecides, hafter⟩

/-- The service of the default settings. -/
def standard : Service :=
  ⟨Settings.default, "openai".toList, Json.lit "k", .null, false, .zero, .whole 0, .whole 0⟩

/-- A provider that counts the requests and answers each one with a list. -/
def listing : Endpoint Nat := fun count _ => (.response 200 "[1]".toList, count + 1)

theorem translateChunk_decided_listing :
    let run := standard.translateChunk listing 0 ["Save".toList] "sys".toList
    (∃ fault, run.1.result = .error (.fault fault)) ∧ run.1.waits = [] ∧ run.2.2 = 1 := by
  have hread : readBody "[1]".toList = .ok (.arr [.nat 1]) := by
    decide +kernel
  obtain ⟨request, hrequest, -⟩ := exists_ok_of_any (P := fun _ => true)
    (x := standard.request "sys".toList (Json.arr (["Save".toList].map .str)).written)
    (by decide +kernel)
  have hmisread : standard.Misread (listing 0 request).1 :=
    ⟨200, "[1]".toList, _, rfl, by decide, hread, by rintro ⟨reply, hreply, -⟩; cases hreply⟩
  have hattempts : standard.attempts = .ok 3 := by
    decide +kernel
  intro run
  have hwaits : run.1.waits = [] ∧ run.2.2 = 1 := by
    decide +kernel
  exact ⟨(translateChunk_decided listing standard 0 "sys".toList (by decide)).1.mpr
    (.inr ⟨3, hattempts, 0, by decide, [], standard, 0, .start,
      .inr ⟨request, hrequest, hmisread⟩⟩), hwaits⟩

end Localize.Service
