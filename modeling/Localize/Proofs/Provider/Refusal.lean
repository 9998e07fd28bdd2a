import Localize.Error
import Localize.Proofs.Text.Basic
import Localize.Proofs.Text.Case
import Localize.Proofs.Text.Search
import Localize.Provider.Exchange
import Localize.Provider.Retry
import Mathlib.Order.MinMax

/-!
# Verdicts on refusals

A verdict is read off the words of a message, which tell of a trouble (`Trouble`); of several
troubles the first one counts. The message of a refusal consists of the provider's name, the status
and the reason that the other side gives, and nothing is told across their borders. So the verdict
on a refusal is the one on the first trouble that one of these three tells of: the reason can call
for a verdict that the status does not call for.
-/

namespace Localize.Provider

/-- In a sorted list, the first member with a property is the least one. -/
theorem exists_find?_le_iff {α : Type} [Preorder α] {l : List α} (hsorted : l.Pairwise (· ≤ ·))
    {p : α → Bool} {bound : α} :
    (∃ first, l.find? p = some first ∧ first ≤ bound) ↔ ∃ a ∈ l, a ≤ bound ∧ p a = true := by
  induction l with
  | nil => simp
  | cons a l ih =>
    obtain ⟨ha, hl⟩ := List.pairwise_cons.mp hsorted
    by_cases hp : p a = true
    · rw [List.find?_cons_of_pos hp]
      constructor
      · rintro ⟨first, heq, hle⟩
        cases heq
        exact ⟨a, List.mem_cons_self, hle, hp⟩
      · rintro ⟨b, hb, hle, -⟩
        refine ⟨a, rfl, ?_⟩
        rcases List.mem_cons.mp hb with heq | hb
        · exact heq ▸ hle
        · exact (ha b hb).trans hle
    · simp [List.find?_cons_of_neg hp, ih hl, hp]

/-- What a message can tell of. -/
inductive Trouble where
  | tooMany | denied | malformed | broken | late | garbled | unknown
  deriving DecidableEq, Repr

namespace Trouble

/-- All troubles, the one that counts first in front. -/
def all : List Trouble := [tooMany, denied, malformed, broken, late, garbled, unknown]

/-- The parts that tell of a trouble as they stand. -/
def marks : Trouble → List Text
  | tooMany => ["429"].map String.toList
  | denied => ["401", "403"].map String.toList
  | malformed => ["(400)"].map String.toList
  | broken => ["500", "502", "503", "504"].map String.toList
  | late | garbled => []
  -- every message tells of a failure
  | unknown => [[]]

/-- The words that tell of a trouble in small and in capital letters. -/
def words : Trouble → List Text
  | tooMany => ["rate limit", "too many requests"].map String.toList
  | denied => ["unauthorized", "forbidden"].map String.toList
  | late => ["timeout"].map String.toList
  | garbled => ["parse", "json"].map String.toList
  | malformed | broken | unknown => []

/-- The verdict that a trouble calls for behind an attempt. -/
def verdict : Trouble → Nat → Verdict
  | tooMany, attempt => ⟨true, seconds (min (30 * 2 ^ attempt) 300)⟩
  | denied, _ | malformed, _ => ⟨false, 0⟩
  | broken, attempt | unknown, attempt => ⟨true, seconds (2 ^ attempt)⟩
  | late, attempt => ⟨true, seconds (5 * 2 ^ attempt)⟩
  | garbled, attempt => ⟨attempt = 0, seconds 1⟩

/-- The trouble that a status stands for. -/
def ofStatus : Nat → Trouble
  | 429 => tooMany
  | 401 | 403 => denied
  | 400 => malformed
  | 500 | 502 | 503 | 504 => broken
  | _ => unknown

/-! ### Which trouble counts -/

theorem rank_injective : Function.Injective fun trouble => all.idxOf trouble := by
  intro trouble other
  cases trouble <;> cases other <;> decide

/-- The troubles in the order in which they count. -/
instance : LinearOrder Trouble := LinearOrder.lift' (all.idxOf ·) rank_injective

theorem mem_all (trouble : Trouble) : trouble ∈ all := by
  cases trouble <;> decide

theorem pairwise_all : all.Pairwise (· ≤ ·) := by
  decide

theorem tooMany_le (trouble : Trouble) : tooMany ≤ trouble := by
  cases trouble <;> decide

/-- The message tells of the trouble. -/
def told (message : Text) (trouble : Trouble) : Bool :=
  trouble.marks.any (Text.occursIn · message) ||
    trouble.words.any (Text.occursIn · (Text.lower message))

/-- The first trouble that a message tells of. -/
def ofMessage (message : Text) : Trouble := (all.find? (told message)).getD unknown

variable {message a b separator : Text} {trouble : Trouble} {status attempt : Nat}

theorem told_unknown : told message unknown = true := by
  have hempty : Text.occursIn [] message = true := Text.occursIn_iff.mpr List.nil_infix
  simp [told, marks, hempty]

theorem find?_told : all.find? (told message) = some (ofMessage message) := by
  have hsome : (all.find? (told message)).isSome = true :=
    List.find?_isSome.mpr ⟨unknown, mem_all unknown, told_unknown⟩
  obtain ⟨trouble, htrouble⟩ := Option.isSome_iff_exists.mp hsome
  rw [ofMessage, htrouble, Option.getD_some]

theorem ofMessage_le_iff :
    ofMessage message ≤ trouble ↔ ∃ other ≤ trouble, told message other = true := by
  have hfirst : (∃ first, all.find? (told message) = some first ∧ first ≤ trouble) ↔
      ∃ other ∈ all, other ≤ trouble ∧ told message other = true :=
    exists_find?_le_iff pairwise_all
  simpa only [find?_told, Option.some.injEq, exists_eq_left', mem_all, true_and] using hfirst

/-- The verdict on a message is the one that the first trouble calls for that it tells of. -/
theorem verdict_eq (message : Text) (attempt : Nat) :
    Provider.verdict message attempt = (ofMessage message).verdict attempt := by
  have hverdict : Provider.verdict message attempt =
      if told message tooMany then verdict tooMany attempt
      else if told message denied then verdict denied attempt
      else if told message malformed then verdict malformed attempt
      else if told message broken then verdict broken attempt
      else if told message late then verdict late attempt
      else if told message garbled then verdict garbled attempt
      else verdict unknown attempt := by
    simp only [told, marks, words, List.map_cons, List.map_nil, List.any_cons, List.any_nil,
      Bool.or_false, Bool.false_or, Bool.or_assoc]
    simp only [Provider.verdict, Bool.or_assoc]
    rfl
  rw [hverdict, ofMessage, all]
  split_ifs <;> simp only [List.find?, told_unknown, Option.getD_some, *]

/-! ### Messages in parts -/

/-- Nothing that tells of the trouble touches the separator. -/
def Apart (separator : Text) (trouble : Trouble) : Prop :=
  (∀ mark ∈ trouble.marks, Text.Separates separator mark) ∧
    ∀ word ∈ trouble.words, Text.Separates (separator.flatMap Text.lowerEach) word

instance (separator : Text) (trouble : Trouble) : Decidable (Apart separator trouble) :=
  inferInstanceAs (Decidable ((∀ mark ∈ trouble.marks, Text.Separates separator mark) ∧
    ∀ word ∈ trouble.words, Text.Separates (separator.flatMap Text.lowerEach) word))

/-- No word holds a sigma, so that words can be looked for one character at a time. -/
theorem sigma_notMem_words : ∀ trouble : Trouble, ∀ word ∈ trouble.words,
    Char.ofNat 0x3c2 ∉ word ∧ Char.ofNat 0x3c3 ∉ word := by
  intro trouble
  cases trouble <;> decide

theorem told_iff : told message trouble = true ↔ (∃ mark ∈ trouble.marks, mark <:+: message) ∨
    ∃ word ∈ trouble.words, word <:+: message.flatMap Text.lowerEach := by
  have hwords : (∃ word ∈ trouble.words, word <:+: Text.lower message) ↔
      ∃ word ∈ trouble.words, word <:+: message.flatMap Text.lowerEach :=
    exists_congr fun word => and_congr_right fun hword =>
      Text.infix_lower_iff (sigma_notMem_words trouble word hword)
  rw [← hwords]
  simp only [told, Bool.or_eq_true, List.any_eq_true, Text.occursIn_iff]

theorem exists_infix_append_iff {parts : List Text}
    (h : ∀ part ∈ parts, Text.Separates separator part) :
    (∃ part ∈ parts, part <:+: a ++ separator ++ b) ↔
      (∃ part ∈ parts, part <:+: a) ∨ ∃ part ∈ parts, part <:+: b := by
  rw [← exists_or]
  refine exists_congr fun part => ?_
  rw [← and_or_left]
  exact and_congr_right fun hpart => (h part hpart).infix_append_iff

theorem told_append_iff (h : Apart separator trouble) :
    told (a ++ separator ++ b) trouble = true ↔ told a trouble = true ∨ told b trouble = true := by
  rw [told_iff, told_iff, told_iff, List.flatMap_append, List.flatMap_append,
    exists_infix_append_iff h.1, exists_infix_append_iff h.2, or_or_or_comm]

/-- A separator that nothing telling touches leaves the first trouble of the two sides. -/
theorem ofMessage_append (h : ∀ trouble ≠ unknown, Apart separator trouble) :
    ofMessage (a ++ separator ++ b) = min (ofMessage a) (ofMessage b) := by
  have htold : ∀ trouble, told (a ++ separator ++ b) trouble = true ↔
      told a trouble = true ∨ told b trouble = true := by
    intro trouble
    by_cases hunknown : trouble = unknown
    · subst hunknown
      simp only [told_unknown, or_self]
    · exact told_append_iff (h trouble hunknown)
  refine eq_of_forall_ge_iff fun bound => ?_
  rw [min_le_iff, ofMessage_le_iff, ofMessage_le_iff, ofMessage_le_iff, ← exists_or]
  refine exists_congr fun trouble => ?_
  rw [htold, and_or_left]

/-- A status as the message of a refusal shows it. -/
def shown (status : Nat) : Text := "(".toList ++ Text.ofNat status ++ ")".toList

/-- A refusal tells of the first trouble that the provider's name, the status or the reason tells
of. -/
theorem ofMessage_refusedByProvider (provider reason : Text) (status : Nat) :
    ofMessage (Error.refusedByProvider provider status reason).detailedMessage =
      min (ofMessage provider) (min (ofMessage (shown status)) (ofMessage reason)) := by
  have hmessage : (Error.refusedByProvider provider status reason).detailedMessage =
      provider ++ " API error ".toList ++ (shown status ++ ": ".toList ++ reason) := by
    have hopening : " API error (".toList = " API error ".toList ++ "(".toList := rfl
    have hclosing : "): ".toList = ")".toList ++ ": ".toList := rfl
    change provider ++ " API error (".toList ++ Text.ofNat status ++ "): ".toList ++ reason = _
    simp only [hopening, hclosing, shown, List.append_assoc]
  have hname : ∀ trouble ≠ unknown, Apart " API error ".toList trouble := by
    intro trouble
    cases trouble <;> decide +kernel
  have hreason : ∀ trouble ≠ unknown, Apart ": ".toList trouble := by
    intro trouble
    cases trouble <;> decide +kernel
  rw [hmessage, ofMessage_append hname, ofMessage_append hreason]

/-- The statuses that stand for a trouble. -/
def telling : List Nat := [429, 401, 403, 400, 500, 502, 503, 504]

theorem mem_telling_of_ofStatus (h : ofStatus status ≠ unknown) : status ∈ telling := by
  unfold ofStatus at h
  split at h
  case h_9 => exact absurd rfl h
  all_goals decide

theorem toNat_of_mem_shown {c : Char} (h : c ∈ shown status) : c.toNat < 65 := by
  simp only [shown, List.mem_append] at h
  rcases h with (h | h) | h
  · cases List.mem_singleton.mp h
    decide
  · have hdigit := Text.isDigit_of_mem_ofNat h
    simp only [Char.isDigit, Bool.and_eq_true, decide_eq_true_eq, UInt32.le_iff_toNat_le] at hdigit
    exact Nat.lt_of_le_of_lt hdigit.2 (by decide)
  · cases List.mem_singleton.mp h
    decide

theorem lower_shown : Text.lower (shown status) = shown status :=
  Text.lower_of_isSmall fun c hc => by
    have hlt := toNat_of_mem_shown hc
    have hsmall := Text.isSmall_of_not_capital c.toNat (by omega) (.inl hlt)
    rwa [Char.ofNat_toNat] at hsmall

theorem filter_shown : (shown status).filter Char.isDigit = Text.ofNat status := by
  have hdigits : (Text.ofNat status).filter Char.isDigit = Text.ofNat status :=
    List.filter_eq_self.mpr fun c hc => Text.isDigit_of_mem_ofNat hc
  have hopen : "(".toList.filter Char.isDigit = [] := by decide
  have hclose : ")".toList.filter Char.isDigit = [] := by decide
  rw [shown, List.filter_append, List.filter_append, hdigits, hopen, hclose, List.nil_append,
    List.append_nil]

/-- A status of three digits tells of a trouble only as a whole. -/
theorem mem_telling (hstatus : status < 1000) (hunknown : trouble ≠ unknown)
    (h : told (shown status) trouble = true) : status ∈ telling := by
  have hletter : ∀ trouble : Trouble, ∀ word ∈ trouble.words, word.any (65 ≤ ·.toNat) = true := by
    intro trouble
    cases trouble <;> decide
  have hdigits : ∀ trouble ≠ unknown, ∀ mark ∈ trouble.marks, ∃ n ∈ telling,
      mark.filter Char.isDigit = Text.ofNat n := by
    intro trouble
    cases trouble <;> decide
  simp only [told, lower_shown, Bool.or_eq_true, List.any_eq_true, Text.occursIn_iff] at h
  rcases h with ⟨mark, hmark, hwithin⟩ | ⟨word, hword, hwithin⟩
  · obtain ⟨n, hn, hmark⟩ := hdigits trouble hunknown mark hmark
    have hnumeral : Text.ofNat n <:+: Text.ofNat status := by
      rw [← hmark, ← filter_shown]
      exact hwithin.filter Char.isDigit
    have hthree : ∀ n ∈ telling, (Text.ofNat n).length = 3 := by decide
    have hlength : (Text.ofNat status).length ≤ (Text.ofNat n).length := by
      rw [hthree n hn]
      exact (Nat.length_toDigits_le_iff (by decide) (by decide)).mpr hstatus
    rwa [← Text.ofNat_injective (hnumeral.eq_of_length_le hlength)]
  · obtain ⟨c, hc, hlarge⟩ := List.any_eq_true.mp (hletter trouble word hword)
    have hsmall := toNat_of_mem_shown (hwithin.subset hc)
    have hlarge := of_decide_eq_true hlarge
    omega

/-- A status of three digits tells of the trouble that it stands for. -/
theorem ofMessage_shown (hstatus : status < 1000) : ofMessage (shown status) = ofStatus status := by
  by_cases hlisted : status ∈ telling
  · have hall : ∀ n ∈ telling, ofMessage (shown n) = ofStatus n := by decide +kernel
    exact hall status hlisted
  · have hmessage : ofMessage (shown status) = unknown := by
      by_contra hne
      exact hlisted (mem_telling hstatus hne (List.find?_some find?_told))
    rw [hmessage]
    by_contra hne
    exact hlisted (mem_telling_of_ofStatus (Ne.symm hne))

/-! ### Comparing verdicts -/

theorem min_eq_tooMany_iff {other : Trouble} :
    min trouble other = tooMany ↔ trouble = tooMany ∨ other = tooMany := by
  have hleast : ∀ trouble : Trouble, trouble = tooMany ↔ trouble ≤ tooMany := fun trouble =>
    (tooMany_le trouble).ge_iff_eq'.symm
  rw [hleast, hleast trouble, hleast other, min_le_iff]

theorem retry_eq_false_iff (h : trouble ≤ late) :
    (trouble.verdict attempt).retry = false ↔ trouble ∈ [denied, malformed] := by
  cases trouble with
  | tooMany | broken | late => exact iff_of_false Bool.noConfusion (by decide)
  | denied | malformed => exact iff_of_true rfl (by decide)
  | garbled | unknown => exact absurd h (by decide)

theorem two_pow_mod_three_ne_zero (n : Nat) : 2 ^ n % 3 ≠ 0 := by
  induction n with
  | zero => decide
  | succ n ih =>
    rw [Nat.pow_succ]
    omega

/-- No other trouble calls for the verdict on too many requests: the wait of that is five minutes or
thirty times a power of two, and a power of two is no multiple of three. -/
theorem verdict_eq_tooMany_iff :
    trouble.verdict attempt = verdict tooMany attempt ↔ trouble = tooMany := by
  constructor
  · have hpos : 0 < 2 ^ attempt := Nat.two_pow_pos attempt
    have hmod : 2 ^ attempt % 3 ≠ 0 := two_pow_mod_three_ne_zero attempt
    intro heq
    have hwait := congrArg Verdict.wait heq
    cases trouble with
    | tooMany => rfl
    | denied | malformed => cases congrArg Verdict.retry heq
    | broken | unknown =>
      change 1000 * 2 ^ attempt = 1000 * min (30 * 2 ^ attempt) 300 at hwait
      omega
    | late =>
      change 1000 * (5 * 2 ^ attempt) = 1000 * min (30 * 2 ^ attempt) 300 at hwait
      omega
    | garbled =>
      change 1000 * 1 = 1000 * min (30 * 2 ^ attempt) 300 at hwait
      omega
  · rintro rfl
    rfl

end Trouble

open Trouble

/-- The verdict on a refusal behind an attempt, by the body of the reply. -/
def refusalVerdict (provider : Text) (status attempt : Nat) (body : Text) : Verdict :=
  verdict (Error.refusedByProvider provider status (refusalReason body)).detailedMessage attempt

section Refusal

variable {provider body : Text} {status attempt : Nat}

theorem refusalVerdict_eq : refusalVerdict provider status attempt body =
    Trouble.verdict (min (ofMessage provider)
      (min (ofMessage (shown status)) (ofMessage (refusalReason body)))) attempt := by
  rw [refusalVerdict, verdict_eq, ofMessage_refusedByProvider]

/-- The body has no say where the name or the status tells of the trouble that counts before all
others. Otherwise an empty body and one that tells of that trouble make a difference. -/
theorem refusalVerdict_constant_iff :
    (∀ body body', refusalVerdict provider status attempt body =
      refusalVerdict provider status attempt body') ↔
      ofMessage provider = tooMany ∨ ofMessage (shown status) = tooMany := by
  constructor
  · intro hsame
    have hsilent : ofMessage (refusalReason []) = unknown := by decide +kernel
    have htelling : ofMessage (refusalReason "see 429".toList) = tooMany := by decide +kernel
    have heq := hsame [] "see 429".toList
    rw [refusalVerdict_eq, refusalVerdict_eq, hsilent, htelling, min_eq_right (tooMany_le _),
      min_eq_right (tooMany_le _), verdict_eq_tooMany_iff, min_eq_tooMany_iff,
      min_eq_tooMany_iff] at heq
    rcases heq with hname | hstatus | hnever
    · exact .inl hname
    · exact .inr hstatus
    · cases hnever
  · rintro (hname | hstatus) body body'
    · rw [refusalVerdict_eq, refusalVerdict_eq, hname, min_eq_left (tooMany_le _),
        min_eq_left (tooMany_le _)]
    · rw [refusalVerdict_eq, refusalVerdict_eq, hstatus, min_eq_left (tooMany_le _),
        min_eq_left (tooMany_le _)]

/-- A refusal of the key or of the request is tried again because of too many requests only. -/
theorem retry_iff_tooMany (hstatus : ofMessage (shown status) ∈ [denied, malformed]) :
    (refusalVerdict provider status attempt body).retry = true ↔
      ofMessage provider = tooMany ∨ ofMessage (refusalReason body) = tooMany := by
  have hrefused : ∀ trouble : Trouble, trouble ∈ [denied, malformed] →
      trouble ≤ malformed ∧ trouble ≠ tooMany := by
    intro trouble
    cases trouble <;> decide
  have hfirst : ∀ trouble ≤ malformed, trouble ∉ [denied, malformed] ↔ trouble = tooMany := by
    intro trouble
    cases trouble <;> decide
  obtain ⟨hmalformed, hne⟩ := hrefused _ hstatus
  have hle : min (ofMessage provider)
      (min (ofMessage (shown status)) (ofMessage (refusalReason body))) ≤ malformed :=
    (min_le_right _ _).trans ((min_le_left _ _).trans hmalformed)
  rw [refusalVerdict_eq, ← Bool.not_eq_false, retry_eq_false_iff (hle.trans (by decide)),
    hfirst _ hle, min_eq_tooMany_iff, min_eq_tooMany_iff, or_iff_right hne]

/-- A broken server is given up because of a refusal of the key or of the request only. -/
theorem not_retry_iff_denied (hstatus : ofMessage (shown status) = broken) :
    (refusalVerdict provider status attempt body).retry = false ↔
      min (ofMessage provider) (ofMessage (refusalReason body)) ∈ [denied, malformed] := by
  have hbroken : ∀ trouble, min broken trouble ∈ [denied, malformed] ↔
      trouble ∈ [denied, malformed] := by
    intro trouble
    cases trouble <;> decide
  have hle : min broken (min (ofMessage provider) (ofMessage (refusalReason body))) ≤ late :=
    (min_le_left _ _).trans (by decide)
  rw [refusalVerdict_eq, hstatus, min_left_comm, retry_eq_false_iff hle, hbroken]

end Refusal

/-- Not only the status decides about a refusal: the verdict is the one on the first trouble that the
provider's name, the status or the reason in the body tells of. A status of three digits tells of the
trouble that it stands for. The body has no say exactly where the name or the status tells of too many
requests. So a refusal of the key or of the request is tried again exactly if the name or the reason
tells of too many requests, and a broken server is given up exactly if the first trouble that they
tell of is a refusal of the key or of the request. -/
theorem refusalVerdict_spec (provider : Text) (status attempt : Nat) :
    (∀ body, refusalVerdict provider status attempt body =
      Trouble.verdict (min (ofMessage provider)
        (min (ofMessage (shown status)) (ofMessage (refusalReason body)))) attempt) ∧
    (status < 1000 → ofMessage (shown status) = ofStatus status) ∧
    ((∀ body body', refusalVerdict provider status attempt body =
        refusalVerdict provider status attempt body') ↔
      ofMessage provider = tooMany ∨ ofMessage (shown status) = tooMany) ∧
    (∀ body, (refusalVerdict provider 429 attempt body).retry = true) ∧
    (status ∈ [400, 401, 403] → ∀ body,
      ((refusalVerdict provider status attempt body).retry = true ↔
        ofMessage provider = tooMany ∨ ofMessage (refusalReason body) = tooMany)) ∧
    (status ∈ [500, 502, 503, 504] → ∀ body,
      ((refusalVerdict provider status attempt body).retry = false ↔
        min (ofMessage provider) (ofMessage (refusalReason body)) ∈ [denied, malformed])) := by
  refine ⟨fun body => refusalVerdict_eq, ofMessage_shown, refusalVerdict_constant_iff, ?_, ?_, ?_⟩
  · intro body
    have hstatus : ofMessage (shown 429) = tooMany := by decide +kernel
    rw [refusalVerdict_eq, hstatus, min_eq_left (tooMany_le _), min_eq_right (tooMany_le _)]
    rfl
  · intro hstatus body
    have hall : ∀ n ∈ [400, 401, 403], ofMessage (shown n) ∈ [denied, malformed] := by
      decide +kernel
    exact retry_iff_tooMany (hall status hstatus)
  · intro hstatus body
    have hall : ∀ n ∈ [500, 502, 503, 504], ofMessage (shown n) = broken := by decide +kernel
    exact not_retry_iff_denied (hall status hstatus)

/-- The body of a refusal that quotes the key. -/
def quotingBody : Text :=
  ("\x7b\x22error\x22: \x7b\x22message\x22: " ++
    "\x22Incorrect API key provided: sk-4290\x22\x7d\x7d").toList

/-- A refusal of the key is taken for too many requests where the key in its reason holds the number
of that status. -/
theorem refusalVerdict_quotingBody : 401 < 1000 ∧ 401 ∈ [400, 401, 403] ∧
    ofMessage (shown 401) = denied ∧
    refusalVerdict "openai".toList 401 0 quotingBody = ⟨true, seconds 30⟩ ∧
    (ofMessage "openai".toList = tooMany ∨ ofMessage (refusalReason quotingBody) = tooMany) ∧
    ¬∀ body body', refusalVerdict "openai".toList 401 0 body =
      refusalVerdict "openai".toList 401 0 body' := by
  obtain ⟨hverdict, hthree, hconstant, -, hrefused, -⟩ := refusalVerdict_spec "openai".toList 401 0
  have hstatus : ofMessage (shown 401) = denied := hthree (by decide)
  have hquoting : refusalVerdict "openai".toList 401 0 quotingBody = ⟨true, seconds 30⟩ := by
    rw [hverdict]
    decide +kernel
  refine ⟨by decide, by decide, hstatus, hquoting, ?_, ?_⟩
  · exact (hrefused (by decide) quotingBody).mp (congrArg Verdict.retry hquoting)
  · rw [hconstant, hstatus]
    rintro (hname | hdenied)
    · revert hname
      decide +kernel
    · cases hdenied

end Localize.Provider
