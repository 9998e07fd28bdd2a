import Localize.Text.Case
import Mathlib.Data.List.Basic

/-!
# Small letters stay as they are

What is made of a character or of a text when its small letters are taken is not changed when they
are taken again: no run of the table holds an image of another, and neither a capital sigma nor a
dotted capital I is left. A character that the tables do not hold is like no other when case is
ignored.
-/

namespace Localize.Text

/-- A run of characters with a step between them and a shift to their images. -/
abbrev Run := Nat × Nat × Nat × Int

/-- The number of a character that is shifted as a run says. -/
def image (run : Run) (n : Nat) : Nat := ((n : Int) + run.2.2.2).toNat

/-- No image of the first run is in the second: they lie apart, or the second leaves out every other
character and the images are the ones left out. -/
def misses (run run' : Run) : Bool :=
  -- truth values compare faster, and the pairs are many
  Nat.blt (image run run.2.1) run'.1 || Nat.blt run'.2.1 (image run run.1) ||
    (run'.2.2.1 % 2 = 0 && (run.2.2.1 % 2 = 0 || run.1 = run.2.1) &&
      (image run run.1 + run'.1) % 2 = 1)

/-- The images of a run are characters and no capital letters among the first 128. -/
def hasLetters : Run → Bool
  | (first, last, _, shift) =>
    0 ≤ (first : Int) + shift && (last : Int) + shift < 0x110000 &&
      ((last : Int) + shift < 65 || 90 < (first : Int) + shift) &&
      ((last : Int) + shift < 0xd800 || 0xdfff < (first : Int) + shift)

theorem misses_lowerRuns : ∀ run ∈ lowerRuns, ∀ run' ∈ lowerRuns, misses run run' = true := by
  have hall : (lowerRuns.all fun run => lowerRuns.all (misses run)) = true := by decide +kernel
  exact fun run hrun => List.all_eq_true.mp (List.all_eq_true.mp hall run hrun)

theorem hasLetters_lowerRuns : ∀ run ∈ lowerRuns, hasLetters run = true := by
  decide +kernel

/-- What it means that a table has a character in a run. -/
def Covers (run : Run) (n : Nat) : Prop :=
  run.1 ≤ n ∧ n ≤ run.2.1 ∧ (n - run.1) % run.2.2.1 = 0

theorem applyRuns_cases (runs : List Run) (n : Nat) :
    (∃ run ∈ runs, Covers run n ∧ applyRuns runs n = image run n) ∨
      ((∀ run ∈ runs, ¬Covers run n) ∧ applyRuns runs n = n) := by
  unfold applyRuns
  dsimp only
  split
  · next first last step shift hrun =>
    have hcovers := List.find?_some hrun
    simp only [Bool.and_eq_true, decide_eq_true_eq] at hcovers
    exact .inl ⟨_, List.mem_of_find?_eq_some hrun, ⟨hcovers.1.1, hcovers.1.2, hcovers.2⟩, rfl⟩
  · next hnone =>
    refine .inr ⟨fun run hrun hcovers => ?_, rfl⟩
    have hnot := List.find?_eq_none.mp hnone run hrun
    simp only [Bool.and_eq_true, decide_eq_true_eq, not_and] at hnot
    exact hnot ⟨hcovers.1, hcovers.2.1⟩ hcovers.2.2

theorem not_covers_image {run run' : Run} {n : Nat} (h : misses run run' = true)
    (hletters : hasLetters run = true) (hn : Covers run n) : ¬Covers run' (image run n) := by
  obtain ⟨first, last, step, shift⟩ := run
  obtain ⟨first', last', step', shift'⟩ := run'
  obtain ⟨hfirst, hlast, hstep⟩ := hn
  rintro ⟨hfirst', hlast', hstep'⟩
  simp only [misses, Bool.or_eq_true, Bool.and_eq_true, decide_eq_true_eq, Nat.blt_eq] at h
  simp only [hasLetters, Bool.or_eq_true, Bool.and_eq_true, decide_eq_true_eq] at hletters
  simp only [image] at *
  rcases h with (h | h) | ⟨⟨heven', heven⟩, hodd⟩
  · omega
  · omega
  · have hleft : (((n : Int) + shift).toNat - first') % 2 = 0 := by
      rw [← Nat.mod_mod_of_dvd _ (Nat.dvd_of_mod_eq_zero heven'), hstep']
    have hright : (n - first) % 2 = 0 := by
      rcases heven with heven | heq
      · rw [← Nat.mod_mod_of_dvd _ (Nat.dvd_of_mod_eq_zero heven), hstep]
      · omega
    omega

/-! ### Characters -/

/-- The character is its own small letter. -/
def IsSmall (c : Char) : Prop := lowerChar c = c

instance (c : Char) : Decidable (IsSmall c) := inferInstanceAs (Decidable (lowerChar c = c))

theorem isSmall_toLower : ∀ n < 128, IsSmall (Char.ofNat n).toLower := by
  decide +kernel

theorem isSmall_of_not_capital : ∀ n < 128, n < 65 ∨ 90 < n → IsSmall (Char.ofNat n) := by
  decide +kernel

theorem toNat_ofNat_of_lt {m : Nat} (h : m < 0xd800 ∨ 0xdfff < m ∧ m < 0x110000) :
    (Char.ofNat m).toNat = m := by
  have hvalid : m.isValidChar := by
    rcases h with h | h
    · exact .inl h
    · exact .inr h
  rw [Char.ofNat, dif_pos hvalid]
  rfl

theorem isSmall_image {run : Run} {n : Nat} (hrun : run ∈ lowerRuns) (hn : Covers run n) :
    IsSmall (Char.ofNat (image run n)) := by
  have hletters := hasLetters_lowerRuns _ hrun
  have hbounds : (image run n < 65 ∨ 90 < image run n) ∧ (image run n < 0xd800 ∨
      0xdfff < image run n ∧ image run n < 0x110000) := by
    obtain ⟨first, last, step, shift⟩ := run
    obtain ⟨hfirst, hlast, -⟩ := hn
    simp only [hasLetters, Bool.or_eq_true, Bool.and_eq_true, decide_eq_true_eq] at hletters
    simp only [image] at *
    omega
  have hchar := toNat_ofNat_of_lt hbounds.2
  by_cases hsmall : image run n < 128
  · exact isSmall_of_not_capital _ hsmall hbounds.1
  · rcases applyRuns_cases lowerRuns (image run n) with ⟨run', hrun', hcovers, -⟩ | ⟨-, hsame⟩
    · exact absurd hcovers (not_covers_image (misses_lowerRuns _ hrun run' hrun') hletters hn)
    · rw [IsSmall, lowerChar, hchar, if_neg hsmall, hsame]

theorem isSmall_lowerChar (c : Char) : IsSmall (lowerChar c) := by
  unfold lowerChar
  split
  · next hc =>
    have hsmall := isSmall_toLower c.toNat hc
    rwa [Char.ofNat_toNat] at hsmall
  · next hc =>
    rcases applyRuns_cases lowerRuns c.toNat with ⟨run, hrun, hcovers, himage⟩ | ⟨-, hsame⟩
    · rw [himage]
      exact isSmall_image hrun hcovers
    · rw [hsame, Char.ofNat_toNat, IsSmall, lowerChar, if_neg hc, hsame, Char.ofNat_toNat]

theorem IsSmall.ne {c : Char} (h : IsSmall c) : c.toNat ≠ 0x3a3 ∧ c.toNat ≠ 0x130 := by
  have hcapitals : ∀ n ∈ [0x3a3, 0x130], ¬IsSmall (Char.ofNat n) := by decide +kernel
  have hne : ∀ n ∈ [0x3a3, 0x130], c.toNat ≠ n := by
    rintro n hn rfl
    have hnot := hcapitals _ hn
    rw [Char.ofNat_toNat] at hnot
    exact hnot h
  exact ⟨hne _ (by simp), hne _ (by simp)⟩

/-! ### Texts -/

theorem isSmall_of_mem_lowerAfter {c : Char} {afterCased : Bool} {t : Text}
    (h : c ∈ lowerAfter afterCased t) : IsSmall c := by
  have hall : ['i', Char.ofNat 0x307, Char.ofNat 0x3c2, Char.ofNat 0x3c3].all
      (fun c => decide (IsSmall c)) = true := by decide +kernel
  have hothers : ∀ c ∈ ['i', Char.ofNat 0x307, Char.ofNat 0x3c2, Char.ofNat 0x3c3], IsSmall c :=
    fun c hc => of_decide_eq_true (List.all_eq_true.mp hall c hc)
  induction t generalizing afterCased with
  | nil => cases h
  | cons d t ih =>
    rw [lowerAfter] at h
    rcases List.mem_append.mp h with hsmall | hrest
    · split_ifs at hsmall
      · exact hothers c (by simp [List.mem_singleton.mp hsmall])
      · exact hothers c (by simp [List.mem_singleton.mp hsmall])
      · exact hothers c (List.mem_append_left [Char.ofNat 0x3c2, Char.ofNat 0x3c3] hsmall)
      · rw [List.mem_singleton.mp hsmall]
        exact isSmall_lowerChar d
    · exact ih hrest

theorem toLower_eq_lowerChar {c : Char} (h : c.toNat < 128) : c.toLower = lowerChar c := by
  rw [lowerChar, if_pos h]

theorem isSmall_of_mem_lower {c : Char} {t : Text} (h : c ∈ lower t) : IsSmall c := by
  unfold lower at h
  split at h
  · next hascii =>
    obtain ⟨d, hd, rfl⟩ := List.mem_map.mp h
    rw [toLower_eq_lowerChar (by simpa using List.all_eq_true.mp hascii d hd)]
    exact isSmall_lowerChar d
  · exact isSmall_of_mem_lowerAfter h

theorem lowerAfter_of_isSmall {t : Text} (h : ∀ c ∈ t, IsSmall c) (afterCased : Bool) :
    lowerAfter afterCased t = t := by
  induction t generalizing afterCased with
  | nil => rfl
  | cons c t ih =>
    obtain ⟨hc, ht⟩ := List.forall_mem_cons.mp h
    simp only [lowerAfter, hc.ne.1, hc.ne.2, if_false, ih ht]
    exact congrArg (· :: t) hc

theorem lower_of_isSmall {t : Text} (h : ∀ c ∈ t, IsSmall c) : lower t = t := by
  unfold lower
  split
  · next hascii =>
    have hsame : ∀ c ∈ t, c.toLower = c := fun c hc => by
      rw [toLower_eq_lowerChar (by simpa using List.all_eq_true.mp hascii c hc)]
      exact h c hc
    rw [List.map_congr_left hsame]
    exact List.map_id t
  · exact lowerAfter_of_isSmall h false

/-- Taking the small letters of a text again changes nothing. -/
theorem lower_lower (t : Text) : lower (lower t) = lower t :=
  lower_of_isSmall fun _ => isSmall_of_mem_lower

/-! ### Texts in parts -/

/-- The small sigma at the end of a word as the small sigma within. -/
def evenSigma (c : Char) : Char := if c = Char.ofNat 0x3c2 then Char.ofNat 0x3c3 else c

/-- The small letters of one character, the same at the end of a word as within. -/
def lowerEach (c : Char) : Text :=
  if c.toNat = 0x3a3 then [Char.ofNat 0x3c3]
  else if c.toNat = 0x130 then ['i', Char.ofNat 0x307]
  else [evenSigma (lowerChar c)]

/-- The form of the sigma apart, small letters are taken from one character at a time. -/
theorem map_evenSigma_lowerAfter (afterCased : Bool) (t : Text) :
    (lowerAfter afterCased t).map evenSigma = t.flatMap lowerEach := by
  have hsigmas : evenSigma (Char.ofNat 0x3c2) = Char.ofNat 0x3c3 ∧
      evenSigma (Char.ofNat 0x3c3) = Char.ofNat 0x3c3 := by decide
  have hdotted : ['i', Char.ofNat 0x307].map evenSigma = ['i', Char.ofNat 0x307] := by decide
  induction t generalizing afterCased with
  | nil => rfl
  | cons c t ih =>
    rw [lowerAfter, List.map_append, ih, List.flatMap_cons, lowerEach]
    congr 1
    split_ifs
    · rw [List.map_singleton, hsigmas.1]
    · rw [List.map_singleton, hsigmas.2]
    · exact hdotted
    · rfl

theorem map_evenSigma_lower (t : Text) : (lower t).map evenSigma = t.flatMap lowerEach := by
  unfold lower
  split
  · next hascii =>
    have hsame : ∀ c ∈ t, [evenSigma c.toLower] = lowerEach c := fun c hc => by
      have hc : c.toNat < 128 := by simpa using List.all_eq_true.mp hascii c hc
      rw [lowerEach, if_neg (by omega), if_neg (by omega), toLower_eq_lowerChar hc]
    rw [List.map_map, List.map_eq_flatMap]
    exact List.flatMap_congr hsame
  · exact map_evenSigma_lowerAfter false t

/-- A word without a sigma can be looked for one character at a time. -/
theorem infix_lower_iff {word t : Text}
    (hword : Char.ofNat 0x3c2 ∉ word ∧ Char.ofNat 0x3c3 ∉ word) :
    word <:+: lower t ↔ word <:+: t.flatMap lowerEach := by
  have hsame : ∀ c, evenSigma c ∈ word → evenSigma c = c := fun c hc => by
    unfold evenSigma at hc ⊢
    split_ifs at hc ⊢
    · exact absurd hc hword.2
    · rfl
  rw [← map_evenSigma_lower]
  constructor
  · intro h
    have hmap : word.map evenSigma = word := by
      refine (List.map_congr_left fun c hc => ?_).trans (List.map_id word)
      have hne : c ≠ Char.ofNat 0x3c2 := by
        rintro rfl
        exact hword.1 hc
      exact if_neg hne
    rw [← hmap]
    exact h.map evenSigma
  · rintro ⟨front, behind, h⟩
    obtain ⟨middle, behind, hlower, hmiddle, rfl⟩ := List.map_eq_append_iff.mp h.symm
    obtain ⟨front, inner, rfl, rfl, rfl⟩ := List.map_eq_append_iff.mp hmiddle
    have hinner : inner.map evenSigma = inner := by
      refine (List.map_congr_left fun c hc => ?_).trans (List.map_id inner)
      exact hsame c (List.mem_map_of_mem hc)
    rw [hinner]
    exact ⟨front, behind, hlower.symm⟩

/-! ### Characters without case -/

/-- No letter has the number, neither a capital nor a small one nor a variant of another. -/
def isCaseless (n : Nat) : Bool :=
  (n < 65 || (90 < n && n < 97) || 122 < n) &&
    (lowerRuns.all fun run => (Nat.blt n run.1 || Nat.blt run.2.1 n) &&
      (Nat.blt n (image run run.1) || Nat.blt (image run run.2.1) n)) &&
    !variantClasses.any (·.contains n)

variable {a c : Char}

theorem toLower_cases : ∀ n < 128, (Char.ofNat n).toLower = Char.ofNat n ∧ (n < 65 ∨ 90 < n) ∨
    (65 ≤ n ∧ n ≤ 90) ∧ 97 ≤ (Char.ofNat n).toLower.toNat ∧
      (Char.ofNat n).toLower.toNat ≤ 122 := by
  decide +kernel

theorem covers_image_within {run : Run} {n : Nat} (h : Covers run n) :
    image run run.1 ≤ image run n ∧ image run n ≤ image run run.2.1 := by
  obtain ⟨hfirst, hlast, -⟩ := h
  simp only [image]
  omega

theorem toNat_image {run : Run} {n : Nat} (hrun : run ∈ lowerRuns) (hn : Covers run n) :
    (Char.ofNat (image run n)).toNat = image run n := by
  have hletters := hasLetters_lowerRuns _ hrun
  refine toNat_ofNat_of_lt ?_
  obtain ⟨first, last, step, shift⟩ := run
  obtain ⟨hfirst, hlast, -⟩ := hn
  simp only [hasLetters, Bool.or_eq_true, Bool.and_eq_true, decide_eq_true_eq] at hletters
  simp only [image] at *
  omega

theorem lowerChar_of_caseless (h : isCaseless c.toNat = true) : lowerChar c = c := by
  simp only [isCaseless, Bool.and_eq_true, List.all_eq_true, Bool.or_eq_true, Nat.blt_eq,
    decide_eq_true_eq] at h
  obtain ⟨⟨hnumber, hruns⟩, -⟩ := h
  unfold lowerChar
  split
  · next hsmall =>
    have hcases := toLower_cases c.toNat hsmall
    rw [Char.ofNat_toNat] at hcases
    rcases hcases with ⟨hsame, -⟩ | ⟨hcapital, -⟩
    · exact hsame
    · omega
  · rcases applyRuns_cases lowerRuns c.toNat with ⟨run, hrun, ⟨hfirst, hlast, -⟩, -⟩ | ⟨-, hsame⟩
    · have hmiss := (hruns run hrun).1
      omega
    · rw [hsame, Char.ofNat_toNat]

/-- Only itself has a character without case as its small letter. -/
theorem eq_of_lowerChar (h : isCaseless c.toNat = true) (ha : lowerChar a = c) : a = c := by
  simp only [isCaseless, Bool.and_eq_true, List.all_eq_true, Bool.or_eq_true, Nat.blt_eq,
    decide_eq_true_eq] at h
  obtain ⟨⟨hnumber, hruns⟩, -⟩ := h
  unfold lowerChar at ha
  split at ha
  · next hsmall =>
    have hcases := toLower_cases a.toNat hsmall
    rw [Char.ofNat_toNat, ha] at hcases
    rcases hcases with ⟨hsame, -⟩ | ⟨-, hletter⟩
    · exact hsame.symm
    · omega
  · rcases applyRuns_cases lowerRuns a.toNat with ⟨run, hrun, hcovers, himage⟩ | ⟨-, hsame⟩
    · have hmiss := (hruns run hrun).2
      have hwithin := covers_image_within hcovers
      rw [himage] at ha
      rw [← ha, toNat_image hrun hcovers] at hmiss
      omega
    · rw [hsame, Char.ofNat_toNat] at ha
      exact ha

theorem foldChar_of_caseless (h : isCaseless c.toNat = true) : foldChar c = c := by
  have hnone : variantClasses.find? (·.contains c.toNat) = none := by
    simp only [isCaseless, Bool.and_eq_true, Bool.not_eq_true', List.any_eq_false] at h
    exact List.find?_eq_none.mpr h.2
  simp only [foldChar, lowerChar_of_caseless h, hnone]

theorem toNat_first : ∀ cls ∈ variantClasses, ∀ n ∈ cls.head?, (Char.ofNat n).toNat = n := by
  decide +kernel

/-- A character without case is like no other one when case is ignored. -/
theorem eq_of_sameLetter (h : isCaseless c.toNat = true) (ha : sameLetter a c = true) : a = c := by
  rw [sameLetter, decide_eq_true_eq, foldChar_of_caseless h] at ha
  unfold foldChar at ha
  dsimp only at ha
  split at ha
  · next first rest hfound =>
    have hclass := List.mem_of_find?_eq_some hfound
    have hnumber := toNat_first _ hclass first rfl
    rw [ha] at hnumber
    simp only [isCaseless, Bool.and_eq_true, Bool.not_eq_true', List.any_eq_false] at h
    refine absurd ?_ (h.2 _ hclass)
    simp [hnumber]
  · exact eq_of_lowerChar h ha

end Localize.Text
