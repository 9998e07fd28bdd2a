import Localize.Text.Basic
import Mathlib.Data.List.Basic
import Mathlib.Tactic.IntervalCases

/-!
# Runs of characters, numerals and separators

A run of characters ends where what follows does not go on with it. A numeral consists of digits,
the first of them not a zero, and tells its number. A text is cut at a separator that it does not
hold into itself alone, and two texts joined by a separator can be told apart again when one side of
the separator does not hold it.
-/

namespace Localize

/-- What holds of every character of a text is decided one character after the other. -/
instance {p : Char → Prop} [DecidablePred p] (t : Text) : Decidable (∀ c ∈ t, p c) :=
  List.decidableBAll p t

/-- Where what follows does not begin as wanted, it is left out. -/
theorem takeWhile_append_left {β : Type} {p : β → Bool} {l l' : List β}
    (h : ∀ x ∈ l'.head?, p x = false) : (l ++ l').takeWhile p = l.takeWhile p := by
  induction l with
  | nil =>
    cases l' with
    | nil => rfl
    | cons x l' => exact List.takeWhile_cons_of_neg (by simp [h x rfl])
  | cons x l ih => rw [List.cons_append, List.takeWhile_cons, List.takeWhile_cons, ih]

theorem takeWhile_append_of_head {t u : Text} {p : Char → Bool} (ht : ∀ c ∈ t, p c = true)
    (hu : ∀ c ∈ u.head?, p c = false) : (t ++ u).takeWhile p = t := by
  have hall : (t ++ []).takeWhile p = t ++ [].takeWhile p := List.takeWhile_append_of_pos ht
  rw [takeWhile_append_left hu]
  simpa using hall

theorem dropWhile_append_of_head {t u : Text} {p : Char → Bool} (ht : ∀ c ∈ t, p c = true)
    (hu : ∀ c ∈ u.head?, p c = false) : (t ++ u).dropWhile p = u := by
  rw [List.dropWhile_append_of_pos ht]
  cases u with
  | nil => rfl
  | cons c u => exact List.dropWhile_cons_of_neg (by simp [hu c rfl])

/-- A text that does not hold a character is a run of others. -/
theorem forall_ne_of_notMem {c : Char} {t : Text} (h : c ∉ t) : ∀ d ∈ t, decide (d ≠ c) = true := by
  intro d hd
  rw [decide_eq_true_eq]
  rintro rfl
  exact h hd

/-- The run of other characters ends at the first of the character. -/
theorem takeWhile_ne_append {c : Char} {t : Text} (h : c ∉ t) (u : Text) :
    (t ++ c :: u).takeWhile (· ≠ c) = t := by
  refine takeWhile_append_of_head (forall_ne_of_notMem h) ?_
  rintro d ⟨⟩
  simp

theorem takeWhile_ne_of_notMem {c : Char} {t : Text} (h : c ∉ t) : t.takeWhile (· ≠ c) = t := by
  have hall : (t ++ []).takeWhile (· ≠ c) = t :=
    takeWhile_append_of_head (forall_ne_of_notMem h) nofun
  rwa [List.append_nil] at hall

/-- Two ways to cut a text where a run ends are the same. -/
theorem append_inj_of_head (p : Char → Bool) {t u t' u' : Text} (ht : ∀ c ∈ t, p c = true)
    (hu : ∀ c ∈ u.head?, p c = false) (ht' : ∀ c ∈ t', p c = true)
    (hu' : ∀ c ∈ u'.head?, p c = false) (h : t ++ u = t' ++ u') : t = t' ∧ u = u' := by
  constructor
  · rw [← takeWhile_append_of_head ht hu, h, takeWhile_append_of_head ht' hu']
  · rw [← dropWhile_append_of_head ht hu, h, dropWhile_append_of_head ht' hu']

theorem drop_length_takeWhile (p : Char → Bool) (t : Text) :
    t.drop (t.takeWhile p).length = t.dropWhile p := by
  have h : (t.takeWhile p ++ t.dropWhile p).drop (t.takeWhile p).length = t.dropWhile p :=
    List.drop_left
  rwa [List.takeWhile_append_dropWhile] at h

/-- A run that is not the whole text ends before a character that does not go on with it. -/
theorem exists_of_takeWhile_ne {p : Char → Bool} {t : Text}
    (h : (t.takeWhile p).length ≠ t.length) :
    ∃ c u, t = t.takeWhile p ++ c :: u ∧ p c = false := by
  have hsplit : t.takeWhile p ++ t.dropWhile p = t := List.takeWhile_append_dropWhile
  have hfirst := List.head?_dropWhile_not p t
  cases hbehind : t.dropWhile p with
  | nil =>
    rw [hbehind, List.append_nil] at hsplit
    exact absurd (congrArg List.length hsplit) h
  | cons c u =>
    rw [hbehind] at hsplit hfirst
    exact ⟨c, u, hsplit.symm, by simpa using hfirst⟩

namespace Text

theorem ofNat_injective {m n : Nat} (h : ofNat m = ofNat n) : m = n := by
  have hm : Nat.ofDigitChars 10 (Nat.toDigits 10 m) 0 = m := Nat.ofDigitChars_ten_toDigits
  have hn : Nat.ofDigitChars 10 (Nat.toDigits 10 n) 0 = n := Nat.ofDigitChars_ten_toDigits
  rw [← hm, ← hn]
  exact congrArg (fun digits => Nat.ofDigitChars 10 digits 0) h

theorem isDigit_of_mem_ofNat {c : Char} {n : Nat} (h : c ∈ ofNat n) : c.isDigit = true :=
  Nat.isDigit_of_mem_toDigits (by decide) (by decide) h

theorem head?_ofNat_ne_zero {n : Nat} (hn : n ≠ 0) : (ofNat n).head? ≠ some '0' := by
  induction n using Nat.strongRecOn with
  | ind n ih =>
    unfold ofNat
    rw [Nat.toDigits_eq_if (by decide)]
    split_ifs with hlt
    · interval_cases n <;> simp_all [Nat.digitChar]
    · have hrest := ih (n / 10) (by omega) (by omega)
      rw [List.head?_append_of_ne_nil _ Nat.toDigits_ne_nil]
      exact hrest

theorem splitOn_ne_nil (separator : Char) (t : Text) : splitOn separator t ≠ [] := by
  cases t with
  | nil => simp [splitOn]
  | cons c t =>
    rw [splitOn]
    split
    · simp
    · split <;> simp

theorem join_splitOn (separator : Char) (t : Text) :
    join [separator] (splitOn separator t) = t := by
  induction t with
  | nil => rfl
  | cons c t ih =>
    rw [splitOn]
    cases hwords : splitOn separator t with
    | nil => exact absurd hwords (splitOn_ne_nil separator t)
    | cons word words =>
      rw [hwords] at ih
      by_cases hc : c = separator
      · simp only [hc, if_true]
        rw [join, ih]
        rfl
      · simp only [hc, if_false]
        cases words with
        | nil => exact congrArg (c :: ·) ih
        | cons next words => exact congrArg (c :: ·) ih

/-- No word holds the separator. -/
theorem notMem_of_mem_splitOn {separator : Char} {t word : Text} (h : word ∈ splitOn separator t) :
    separator ∉ word := by
  induction t generalizing word with
  | nil =>
    obtain rfl := List.mem_singleton.mp h
    exact List.not_mem_nil
  | cons c t ih =>
    rw [splitOn] at h
    cases hrest : splitOn separator t with
    | nil => exact absurd hrest (splitOn_ne_nil separator t)
    | cons first words =>
      rw [hrest] at h ih
      simp only at h
      split_ifs at h with hc
      · obtain rfl | h := List.mem_cons.mp h
        · exact List.not_mem_nil
        · exact ih h
      · obtain rfl | h := List.mem_cons.mp h
        · rw [List.mem_cons, not_or]
          exact ⟨Ne.symm hc, ih List.mem_cons_self⟩
        · exact ih (List.mem_cons_of_mem _ h)

theorem splitOn_of_notMem {separator : Char} {t : Text} (h : separator ∉ t) :
    splitOn separator t = [t] := by
  induction t with
  | nil => rfl
  | cons c t ih =>
    rw [List.mem_cons, not_or] at h
    simp only [splitOn, ih h.2, if_neg (Ne.symm h.1)]

/-- The text before the first separator is the first word. -/
theorem splitOn_append_cons {separator : Char} {t : Text} (h : separator ∉ t) (u : Text) :
    splitOn separator (t ++ separator :: u) = t :: splitOn separator u := by
  induction t with
  | nil =>
    rw [List.nil_append, splitOn]
    cases hu : splitOn separator u with
    | nil => exact absurd hu (splitOn_ne_nil separator u)
    | cons word words => simp
  | cons c t ih =>
    rw [List.mem_cons, not_or] at h
    simp only [List.cons_append, splitOn, ih h.2, if_neg (Ne.symm h.1)]

theorem join_cons_eq_append_flatMap (separator first : Text) (rest : List Text) :
    join separator (first :: rest) = first ++ rest.flatMap (separator ++ ·) := by
  induction rest generalizing first with
  | nil => simp [join]
  | cons next rest ih => rw [join, ih, List.flatMap_cons, List.append_assoc, List.append_assoc]

/-- Words that do not hold the separator are told apart again. -/
theorem splitOn_join {separator : Char} {words : List Text} (hne : words ≠ [])
    (h : ∀ word ∈ words, separator ∉ word) : splitOn separator (join [separator] words) = words := by
  induction words with
  | nil => exact absurd rfl hne
  | cons word words ih =>
    obtain ⟨hword, hwords⟩ := List.forall_mem_cons.mp h
    cases words with
    | nil => exact splitOn_of_notMem hword
    | cons next words =>
      rw [join, List.append_assoc, List.singleton_append, splitOn_append_cons hword,
        ih (List.cons_ne_nil next words) hwords]

/-- The last separator tells what stands before it and what stands behind it. -/
theorem append_separator_inj {separator : Char} {a b u v : Text} (hu : separator ∉ u)
    (hv : separator ∉ v) (h : a ++ separator :: u = b ++ separator :: v) : a = b ∧ u = v := by
  rcases List.append_eq_append_iff.mp h with ⟨r, hb, hr⟩ | ⟨r, ha, hr⟩
  · cases r with
    | nil =>
      rw [List.append_nil] at hb
      exact ⟨hb.symm, (List.cons.inj hr).2⟩
    | cons c r =>
      have hmem : separator ∈ u := by
        rw [(List.cons.inj hr).2]
        simp
      exact absurd hmem hu
  · cases r with
    | nil =>
      rw [List.append_nil] at ha
      exact ⟨ha, (List.cons.inj hr).2.symm⟩
    | cons c r =>
      have hmem : separator ∈ v := by
        rw [(List.cons.inj hr).2]
        simp
      exact absurd hmem hv

/-- The first separator does so too. -/
theorem separator_append_inj {separator : Char} {a b u v : Text} (ha : separator ∉ a)
    (hb : separator ∉ b) (h : a ++ separator :: u = b ++ separator :: v) : a = b ∧ u = v := by
  have hreverse := congrArg List.reverse h
  simp only [List.reverse_append, List.reverse_cons, List.append_assoc,
    List.singleton_append] at hreverse
  obtain ⟨hbehind, hbefore⟩ := append_separator_inj (by simpa using ha) (by simpa using hb) hreverse
  exact ⟨List.reverse_injective hbefore, List.reverse_injective hbehind⟩

/-- A text that holds the separator once is cut at it in one way. -/
theorem separator_unique {separator : Char} {a b u v : Text} (hb : separator ∉ b)
    (hv : separator ∉ v) (h : a ++ separator :: u = b ++ separator :: v) : a = b ∧ u = v := by
  by_cases ha : separator ∈ a
  · obtain ⟨before, behind, rfl, hbefore⟩ := List.eq_append_cons_of_mem ha
    rw [List.append_assoc, List.cons_append] at h
    obtain ⟨-, hsame⟩ := separator_append_inj hbefore hb h
    exact absurd (hsame ▸ by simp) hv
  · exact separator_append_inj ha hb h

/-- A character of a text stands somewhere for the last time. -/
theorem exists_last_of_mem {c : Char} {t : Text} (h : c ∈ t) :
    ∃ x y, t = x ++ c :: y ∧ c ∉ y := by
  obtain ⟨y, x, hreverse, hy⟩ := List.eq_append_cons_of_mem (List.mem_reverse.mpr h)
  refine ⟨x.reverse, y.reverse, ?_, by simpa using hy⟩
  rw [← t.reverse_reverse, hreverse]
  simp

end Text

end Localize
