import Localize.Proofs.Text.Basic
import Localize.Text.Blank
import Localize.Text.Word
import Mathlib.Data.List.TakeWhile

/-!
# Blanks and characters of names

Trimming takes off exactly the blanks at the end: blanks added behind a text are taken off again. A
text that is not blank is its trimmed text with the blanks before and behind it. The characters of
names are told by their numbers, and none of them is a blank.
-/

namespace Localize.Text

variable {t b : Text} {c : Char}

theorem allBlank_cons : allBlank (c :: t) = true ↔ isBlank c = true ∧ allBlank t = true := by
  rw [allBlank, List.all_cons, Bool.and_eq_true]
  rfl

theorem stripRight_of_allBlank (h : allBlank t = true) : stripRight t = [] := by
  induction t with
  | nil => rfl
  | cons c t ih =>
    obtain ⟨hc, ht⟩ := allBlank_cons.mp h
    rw [stripRight_cons, if_pos (ih ht), if_pos hc]

theorem stripRight_append (t : Text) (h : allBlank b = true) :
    stripRight (t ++ b) = stripRight t := by
  induction t with
  | nil => exact stripRight_of_allBlank h
  | cons c t ih => rw [List.cons_append, stripRight_cons, stripRight_cons, ih]

theorem stripRight_concat (t : Text) (h : isBlank c = false) : stripRight (t ++ [c]) = t ++ [c] := by
  induction t with
  | nil => simp [stripRight_cons, h]
  | cons d t ih => simp [stripRight_cons, ih]

theorem exists_blank_behind (t : Text) : ∃ b, allBlank b = true ∧ t = stripRight t ++ b := by
  induction t with
  | nil => exact ⟨[], rfl, rfl⟩
  | cons c t ih =>
    obtain ⟨b, hb, ht⟩ := ih
    rw [stripRight_cons]
    by_cases hnil : stripRight t = []
    · rw [hnil, List.nil_append] at ht
      by_cases hc : isBlank c = true
      · exact ⟨c :: t, allBlank_cons.mpr ⟨hc, ht ▸ hb⟩, by simp [hnil, hc]⟩
      · exact ⟨t, ht ▸ hb, by simp [hnil, hc]⟩
    · refine ⟨b, hb, ?_⟩
      rw [if_neg hnil, List.cons_append, ← ht]

/-! ### The trimmed text and the blanks around it -/

theorem allBlank_eq_false : allBlank t = false ↔ ∃ c ∈ t, isBlank c = false := by
  rw [allBlank, List.all_eq_false]
  simp

theorem allBlank_leadingBlanks (t : Text) : allBlank (leadingBlanks t) = true :=
  List.all_eq_true.mpr fun _ => List.mem_takeWhile_imp

theorem allBlank_trailingBlanks (t : Text) : allBlank (trailingBlanks t) = true := by
  refine List.all_eq_true.mpr fun c hc => ?_
  rw [trailingBlanks, List.mem_reverse] at hc
  exact List.mem_takeWhile_imp hc

theorem leadingBlanks_append_stripLeft (t : Text) : leadingBlanks t ++ stripLeft t = t :=
  List.takeWhile_append_dropWhile

/-- Trimming takes nothing but blanks off the ends. -/
theorem exists_blanks_around (t : Text) : ∃ before behind, t = before ++ strip t ++ behind ∧
    allBlank before = true ∧ allBlank behind = true := by
  obtain ⟨behind, hbehind, hright⟩ := exists_blank_behind (stripLeft t)
  refine ⟨leadingBlanks t, behind, ?_, allBlank_leadingBlanks t, hbehind⟩
  rw [List.append_assoc, strip, ← hright, leadingBlanks_append_stripLeft]

/-- Trimming leaves what holds no blank. -/
theorem infix_strip_iff {part : Text} (hne : part ≠ []) (hpart : ∀ c ∈ part, isBlank c = false) :
    part <:+: strip t ↔ part <:+: t := by
  obtain ⟨before, behind, ht, hbefore, hbehind⟩ := exists_blanks_around t
  -- No part of it is among the blanks.
  have hnone : ∀ {stretch blanks : Text}, allBlank blanks = true → stretch ≠ [] →
      stretch ⊆ part → ¬ stretch <:+: blanks := by
    intro stretch blanks hblanks hstretch hsub hin
    obtain ⟨c, hc⟩ := List.exists_mem_of_ne_nil _ hstretch
    have hblank := List.all_eq_true.mp hblanks c (hin.subset hc)
    rw [hpart c (hsub hc)] at hblank
    cases hblank
  constructor
  · intro hin
    rw [ht]
    exact hin.trans ⟨before, behind, rfl⟩
  · intro hin
    rw [ht] at hin
    rcases List.infix_append_iff_ne_nil.mp hin with hin | hin | ⟨left, right, -, hright, rfl, -, hr⟩
    · rcases List.infix_append_iff_ne_nil.mp hin with hin | hin | ⟨left, right, hleft, -, rfl, hl, -⟩
      · exact absurd hin (hnone hbefore hne (List.Subset.refl _))
      · exact hin
      · exact absurd hl.isInfix (hnone hbefore hleft (List.subset_append_left _ _))
    · exact absurd hin (hnone hbehind hne (List.Subset.refl _))
    · exact absurd hr.isInfix (hnone hbehind hright (List.subset_append_right _ _))

/-- Trimming makes no text blank that is not. -/
theorem allBlank_strip (t : Text) : allBlank (strip t) = allBlank t := by
  obtain ⟨before, behind, ht, hbefore, hbehind⟩ := exists_blanks_around t
  have hall : allBlank t = (allBlank before && allBlank (strip t) && allBlank behind) := by
    conv_lhs => rw [ht]
    rw [allBlank, List.all_append, List.all_append]
    rfl
  rw [hall, hbefore, hbehind, Bool.true_and, Bool.and_true]

theorem stripRight_ne_nil (h : allBlank t = false) : stripRight t ≠ [] := by
  intro hnil
  obtain ⟨b, hb, ht⟩ := exists_blank_behind t
  rw [hnil, List.nil_append] at ht
  rw [ht, hb] at h
  cases h

theorem allBlank_stripLeft (h : allBlank t = false) : allBlank (stripLeft t) = false := by
  obtain ⟨c, hc, hblank⟩ := allBlank_eq_false.mp h
  refine allBlank_eq_false.mpr ⟨c, ?_, hblank⟩
  rw [← leadingBlanks_append_stripLeft t, List.mem_append] at hc
  refine hc.resolve_left fun hleading => ?_
  rw [List.mem_takeWhile_imp hleading] at hblank
  cases hblank

theorem strip_ne_nil (h : allBlank t = false) : strip t ≠ [] :=
  stripRight_ne_nil (allBlank_stripLeft h)

/-- Without the blanks at its end a text does not end in a blank. -/
theorem not_isBlank_getLast?_stripRight (t : Text) :
    ∀ c ∈ (stripRight t).getLast?, isBlank c = false := by
  induction t with
  | nil => exact fun c hc => nomatch hc
  | cons d t ih =>
    rw [stripRight_cons]
    intro c hc
    split_ifs at hc with hnil hd
    · cases hc
    · cases hc
      simpa using hd
    · rw [List.getLast?_cons_of_ne_nil hnil] at hc
      exact ih c hc

theorem trailingBlanks_append {front : Text} (hfront : ∀ c ∈ front.getLast?, isBlank c = false)
    (hb : allBlank b = true) : trailingBlanks (front ++ b) = b := by
  have hblanks : ∀ c ∈ b.reverse, isBlank c = true := fun c hc =>
    List.all_eq_true.mp hb c (List.mem_reverse.mp hc)
  rw [trailingBlanks, List.reverse_append, takeWhile_append_of_head hblanks (by simpa using hfront),
    List.reverse_reverse]

/-- A text that is not blank is its trimmed text between the blanks at its ends. -/
theorem strip_between (h : allBlank t = false) :
    leadingBlanks t ++ strip t ++ trailingBlanks t = t := by
  obtain ⟨b, hb, hleft⟩ := exists_blank_behind (stripLeft t)
  have ht : leadingBlanks t ++ strip t ++ b = t := by
    rw [List.append_assoc, strip, ← hleft, leadingBlanks_append_stripLeft]
  have hlast : ∀ c ∈ (leadingBlanks t ++ strip t).getLast?, isBlank c = false := by
    rw [List.getLast?_append_of_ne_nil _ (strip_ne_nil h)]
    exact not_isBlank_getLast?_stripRight (stripLeft t)
  have htrailing : trailingBlanks t = b := by
    rw [← ht]
    exact trailingBlanks_append hlast hb
  rw [htrailing, ht]

/-! ### The ends of a trimmed text -/

theorem stripLeft_eq_self_iff : stripLeft t = t ↔ ∀ c ∈ t.head?, isBlank c = false := by
  cases t with
  | nil => simp [stripLeft]
  | cons c t =>
    constructor
    · rintro h _ ⟨⟩
      have hrest := List.head?_dropWhile_not isBlank (c :: t)
      change List.dropWhile isBlank (c :: t) = c :: t at h
      rw [h] at hrest
      simpa using hrest
    · intro h
      exact List.dropWhile_cons_of_neg (by simp [h c rfl])

theorem stripRight_eq_self_iff : stripRight t = t ↔ ∀ c ∈ t.getLast?, isBlank c = false := by
  constructor
  · intro h
    rw [← h]
    exact not_isBlank_getLast?_stripRight t
  · intro h
    obtain rfl | ⟨front, c, rfl⟩ := t.eq_nil_or_concat'
    · rfl
    · exact stripRight_concat front (h c (by simp))

/-- A text is trimmed if it neither begins nor ends with a blank. -/
theorem strip_eq_self_iff : strip t = t ↔
    (∀ c ∈ t.head?, isBlank c = false) ∧ ∀ c ∈ t.getLast?, isBlank c = false := by
  rw [← stripLeft_eq_self_iff, ← stripRight_eq_self_iff]
  constructor
  · intro h
    have hlengths : (strip t).length ≤ (stripLeft t).length := by
      obtain ⟨b, -, hb⟩ := exists_blank_behind (stripLeft t)
      have hlength := congrArg List.length hb
      rw [List.length_append] at hlength
      rw [strip]
      omega
    rw [h] at hlengths
    have hleft : stripLeft t = t := (List.dropWhile_suffix isBlank).eq_of_length_le hlengths
    refine ⟨hleft, ?_⟩
    rw [strip, hleft] at h
    exact h
  · rintro ⟨hleft, hright⟩
    rw [strip, hleft, hright]

/-- Blanks around a text are taken off with those at its ends. -/
theorem strip_between_blanks {before behind : Text} (hbefore : allBlank before = true)
    (hbehind : allBlank behind = true) (t : Text) : strip (before ++ t ++ behind) = strip t := by
  have hleft : stripLeft (before ++ t ++ behind) = stripLeft (t ++ behind) := by
    rw [List.append_assoc]
    exact List.dropWhile_append_of_pos fun c hc => List.all_eq_true.mp hbefore c hc
  rw [strip, hleft, strip, stripLeft, List.dropWhile_append]
  split
  · next hnil =>
    have hrest : behind.dropWhile isBlank = [] :=
      List.dropWhile_eq_nil_iff.mpr fun c hc => List.all_eq_true.mp hbehind c hc
    rw [hrest, stripLeft, List.isEmpty_iff.mp hnil]
  · exact stripRight_append _ hbehind

theorem leadingBlanks_append {front behind : Text} (hb : allBlank b = true) (hne : front ≠ [])
    (hfront : ∀ c ∈ front.head?, isBlank c = false) : leadingBlanks (b ++ front ++ behind) = b := by
  rw [leadingBlanks, List.append_assoc]
  refine takeWhile_append_of_head (fun c hc => List.all_eq_true.mp hb c hc) ?_
  rwa [List.head?_append_of_ne_nil _ hne]

/-! ### Characters of names -/

theorem isNameChar_iff : isNameChar c = true ↔ c.toNat = 45 ∨ (48 ≤ c.toNat ∧ c.toNat ≤ 57) ∨
    (65 ≤ c.toNat ∧ c.toNat ≤ 90) ∨ (97 ≤ c.toNat ∧ c.toNat ≤ 122) := by
  have hhyphen : c = '-' ↔ c.toNat = 45 := by
    constructor
    · rintro rfl
      rfl
    · intro h
      exact Char.toNat_inj.mp h
  have hletter : c.isAlpha = (decide (c.val ≥ 'A'.val ∧ c.val ≤ 'Z'.val) ||
      decide (c.val ≥ 'a'.val) && decide (c.val ≤ 'z'.val)) := rfl
  simp only [isNameChar, Char.isAlphanum, hletter, Char.isDigit, UInt32.le_iff_toNat_le,
    Bool.or_eq_true, Bool.and_eq_true, decide_eq_true_eq, hhyphen, Char.reduceVal,
    UInt32.reduceToNat, Char.toNat_val]
  omega

theorem not_isNameChar_of_isBlank (h : isBlank c = true) : isNameChar c = false := by
  rw [Bool.eq_false_iff]
  intro hname
  rw [isNameChar_iff] at hname
  simp only [isBlank, Bool.or_eq_true, Bool.and_eq_true, decide_eq_true_eq] at h
  omega

end Localize.Text
