import Localize.Markup.Extraction
import Localize.Proofs.Outcome
import Localize.Proofs.Text.Basic
import Localize.Proofs.Text.Blank
import Mathlib.Data.List.Forall2

/-!
# Reading visible attributes

A visible attribute is read where a name stands, letter case ignored, and behind it, perhaps after
blanks, an equals sign and a quoted value. The names looked for hold neither blanks nor equals
signs, so one that is read ends right before the first equals sign or the blanks before that sign,
and nothing is read where an equals sign has the end of another name before it.
-/

namespace Localize.Markup

open Text (isBlank isNameChar sameLetter allBlank)

/-- Two texts of the same letters, letter case ignored. -/
def SameLetters (t u : Text) : Prop := List.Forall₂ (fun a b => sameLetter a b = true) t u

instance : DecidableRel SameLetters := fun t u =>
  inferInstanceAs (Decidable (List.Forall₂ (fun a b => sameLetter a b = true) t u))

variable {α : Type} {t behind name : Text}

/-! ### The parts of an attribute -/

theorem afterName?_eq_some_iff :
    afterName? name t = some behind ↔ ∃ w, t = w ++ behind ∧ SameLetters name w := by
  unfold SameLetters
  induction name generalizing t with
  | nil =>
    rw [afterName?, Option.some.injEq]
    constructor
    · rintro rfl
      exact ⟨[], rfl, .nil⟩
    · rintro ⟨w, rfl, hsame⟩
      cases hsame
      rfl
  | cons a name ih =>
    cases t with
    | nil =>
      rw [afterName?]
      constructor
      · nofun
      · rintro ⟨w, hw, hsame⟩
        cases hsame
        cases hw
    | cons b t =>
      rw [afterName?]
      by_cases hab : sameLetter a b = true
      · rw [if_pos hab, ih]
        constructor
        · rintro ⟨w, rfl, hsame⟩
          exact ⟨b :: w, rfl, .cons hab hsame⟩
        · rintro ⟨w, hw, hsame⟩
          cases hsame with
          | cons hcd hrest =>
            rw [List.cons_append, List.cons.injEq] at hw
            exact ⟨_, hw.2, hrest⟩
      · rw [if_neg hab]
        constructor
        · nofun
        · rintro ⟨w, hw, hsame⟩
          cases hsame with
          | cons hcd hrest =>
            rw [List.cons_append, List.cons.injEq] at hw
            exact absurd (hw.1 ▸ hcd) hab

theorem exists_of_afterEquals? {rest : Text} (h : afterEquals? t = some rest) :
    ∃ blanks more, t = blanks ++ '=' :: more ∧ allBlank blanks = true ∧
      rest = Text.stripLeft more := by
  unfold afterEquals? at h
  split at h
  · next more hmore =>
    refine ⟨t.takeWhile isBlank, more, ?_, ?_, (Option.some.inj h).symm⟩
    · rw [← hmore]
      exact List.takeWhile_append_dropWhile.symm
    · rw [allBlank, List.all_takeWhile]
  · cases h

theorem afterEquals?_of_blanks {blanks : Text} (hblanks : allBlank blanks = true) (more : Text) :
    afterEquals? (blanks ++ '=' :: more) = some (Text.stripLeft more) := by
  have hstrip : Text.stripLeft (blanks ++ '=' :: more) = '=' :: more :=
    dropWhile_append_of_head (List.all_eq_true.mp hblanks) (by rintro c ⟨⟩; decide)
  simp only [afterEquals?, hstrip]

theorem afterEquals?_cons (more : Text) : afterEquals? ('=' :: more) = some (Text.stripLeft more) :=
  afterEquals?_of_blanks (List.all_nil : allBlank [] = true) more

/-! ### Names of letters, digits and hyphens -/

variable {w y value : Text}

/-- The numbers of the blanks. -/
def blankNumbers : List Nat :=
  [0x09, 0x0a, 0x0b, 0x0c, 0x0d, 0x1c, 0x1d, 0x1e, 0x1f, 0x20, 0x85, 0xa0, 0x1680, 0x2000, 0x2001,
    0x2002, 0x2003, 0x2004, 0x2005, 0x2006, 0x2007, 0x2008, 0x2009, 0x200a, 0x2028, 0x2029, 0x202f,
    0x205f, 0x3000]

theorem mem_blankNumbers {c : Char} (h : isBlank c = true) : c.toNat ∈ blankNumbers := by
  simp only [isBlank, Bool.or_eq_true, Bool.and_eq_true, decide_eq_true_eq] at h
  simp only [blankNumbers, List.mem_cons, List.not_mem_nil, or_false]
  omega

/-- Among the characters of names letter case is all that is ignored. -/
theorem foldChar_of_isNameChar {c : Char} (h : isNameChar c = true) :
    Text.foldChar c = c.toLower ∧ isNameChar c.toLower = true := by
  have hall : ∀ n < 128, isNameChar (Char.ofNat n) = true →
      Text.foldChar (Char.ofNat n) = (Char.ofNat n).toLower ∧
        isNameChar (Char.ofNat n).toLower = true := by
    decide
  have hnumber := Text.isNameChar_iff.mp h
  have hchar := hall c.toNat (by omega)
  rw [Char.ofNat_toNat] at hchar
  exact hchar h

/-- No character of a name is an equals sign or a blank in another letter case. -/
theorem foldChar_of_blank : ∀ n ∈ '='.toNat :: blankNumbers,
    isNameChar (Text.foldChar (Char.ofNat n)) = false := by
  decide

theorem sameLetter_iff {a c : Char} (ha : isNameChar a = true) (hc : isNameChar c = true) :
    sameLetter a c = true ↔ a.toLower = c.toLower := by
  rw [sameLetter, decide_eq_true_eq, (foldChar_of_isNameChar ha).1, (foldChar_of_isNameChar hc).1]

/-- A text of the same letters as a name holds neither blanks nor equals signs. -/
theorem SameLetters.unbroken (h : SameLetters name w) (hname : ∀ a ∈ name, isNameChar a = true) :
    '=' ∉ w ∧ ∀ c ∈ w, isBlank c = false := by
  have hletter : ∀ c ∈ w, c.toNat ∉ '='.toNat :: blankNumbers := by
    intro c hc hmem
    obtain ⟨a, ha, hsame⟩ := exists_of_mem_right h hc
    have hfold := foldChar_of_blank c.toNat hmem
    obtain ⟨hlower, hchar⟩ := foldChar_of_isNameChar (hname a ha)
    rw [sameLetter, decide_eq_true_eq] at hsame
    rw [Char.ofNat_toNat, ← hsame, hlower, hchar] at hfold
    cases hfold
  refine ⟨fun hmem => hletter '=' hmem List.mem_cons_self, fun c hc => ?_⟩
  rw [Bool.eq_false_iff]
  intro hblank
  exact hletter c hc (List.mem_cons_of_mem _ (mem_blankNumbers hblank))

theorem lower_of_name (hw : ∀ c ∈ w, isNameChar c = true) : Text.lower w = w.map Char.toLower := by
  rw [Text.lower, if_pos]
  rw [List.all_eq_true]
  intro c hc
  have hname := Text.isNameChar_iff.mp (hw c hc)
  rw [decide_eq_true_eq]
  omega

theorem sameLetters_iff (hname : ∀ a ∈ name, isNameChar a = true)
    (hw : ∀ c ∈ w, isNameChar c = true) : SameLetters name w ↔ Text.lower w = Text.lower name := by
  rw [lower_of_name hw, lower_of_name hname]
  unfold SameLetters
  induction name generalizing w with
  | nil => rw [List.forall₂_nil_left_iff, List.map_nil, List.map_eq_nil_iff]
  | cons a name ih =>
    obtain ⟨ha, hname⟩ := List.forall_mem_cons.mp hname
    cases w with
    | nil => simp
    | cons c w =>
      obtain ⟨hc, hw⟩ := List.forall_mem_cons.mp hw
      rw [List.forall₂_cons, sameLetter_iff ha hc, ih hname hw, List.map_cons, List.map_cons,
        List.cons.injEq, eq_comm]

/-! ### Where nothing is read -/

/-- The first equals sign, if there is one, has a name right before it and a blank before that. -/
def Calm (t : Text) : Prop :=
  ∀ front behind, t = front ++ '=' :: behind → '=' ∉ front →
    ∃ before c name, front = before ++ c :: name ∧ isBlank c = true ∧ name ≠ [] ∧
      ∀ d ∈ name, isNameChar d = true

theorem calm_nil : Calm [] := by
  intro front behind h
  exact absurd h.symm (by simp)

theorem Calm.append_left {s : Text} (hs : '=' ∉ s) (h : Calm t) : Calm (s ++ t) := by
  intro front behind heq hfront
  rcases List.append_eq_append_iff.mp heq with ⟨r, rfl, ht⟩ | ⟨r, rfl, hr⟩
  · have hr : '=' ∉ r := fun hr => hfront (List.mem_append_right s hr)
    obtain ⟨before, c, name, rfl, hc, hname⟩ := h r behind ht hr
    exact ⟨s ++ before, c, name, by rw [List.append_assoc], hc, hname⟩
  · cases r with
    | nil =>
      obtain ⟨before, c, name, hempty, -⟩ := h [] behind hr.symm List.not_mem_nil
      exact absurd hempty (by simp)
    | cons d r =>
      obtain rfl : '=' = d := (List.cons.inj hr).1
      exact absurd (List.mem_append_right front List.mem_cons_self) hs

theorem calm_of_notMem (h : '=' ∉ t) : Calm t := by
  have hcalm := calm_nil.append_left h
  rwa [List.append_nil] at hcalm

theorem calm_name {c : Char} (hc : isBlank c = true) (hne : name ≠ [])
    (hname : ∀ d ∈ name, isNameChar d = true) (behind : Text) :
    Calm (c :: (name ++ '=' :: behind)) := by
  intro front behind' heq hfront
  have hequals : '=' ∉ c :: name := by
    rw [List.mem_cons, not_or]
    refine ⟨fun h => ?_, fun h => ?_⟩
    · exact absurd (h ▸ hc) (by decide)
    · exact absurd (hname '=' h) (by decide)
  rw [← List.cons_append] at heq
  obtain ⟨rfl, -⟩ := Text.separator_append_inj hequals hfront heq
  exact ⟨[], c, name, rfl, hc, hne, hname⟩

/-- A name that ends right before an equals sign has no blanks behind it. -/
theorem blanks_eq_nil (front : Text) {blanks : Text} (hblanks : allBlank blanks = true)
    (hne : name ≠ [])
    (hname : ∀ d ∈ name, isNameChar d = true) (h : w ++ blanks = front ++ name) : blanks = [] := by
  rcases List.eq_nil_or_concat blanks with rfl | ⟨blanks, b, rfl⟩
  · rfl
  · obtain ⟨name, d, rfl⟩ := (List.eq_nil_or_concat name).resolve_left hne
    rw [List.concat_eq_append, List.concat_eq_append, ← List.append_assoc, ← List.append_assoc] at h
    obtain ⟨-, hlast⟩ := List.append_inj' h rfl
    obtain rfl : b = d := List.singleton_inj.mp hlast
    have hblank : isBlank b = true := List.all_eq_true.mp hblanks b (by simp)
    have hd := Text.not_isNameChar_of_isBlank hblank
    rw [hname b (by simp)] at hd
    cases hd

/-- Where it is calm no name stands before the equals sign. -/
theorem not_sameLetters_of_calm {blanks more : Text} (h : Calm (w ++ (blanks ++ '=' :: more)))
    (hblanks : allBlank blanks = true) (hname : ∀ a ∈ name, isNameChar a = true) :
    ¬ SameLetters name w := by
  intro hsame
  obtain ⟨hequals, hunbroken⟩ := hsame.unbroken hname
  have hfront : '=' ∉ w ++ blanks := by
    rw [List.mem_append, not_or]
    refine ⟨hequals, fun hmem => ?_⟩
    exact absurd (List.all_eq_true.mp hblanks '=' hmem) (by decide)
  obtain ⟨before, c, last, heq, hc, hne, hlast⟩ := h (w ++ blanks) more (by simp) hfront
  have hnil := blanks_eq_nil (before ++ [c]) hblanks hne hlast (by simpa using heq)
  rw [hnil, List.append_nil] at heq
  have hblank := hunbroken c (by simp [heq])
  rw [hc] at hblank
  cases hblank

/-- A name that ends before an equals sign is all that can stand there before it. -/
theorem eq_of_sameLetters {blanks more behind : Text} (hy : ∀ c ∈ y, isNameChar c = true)
    (hname : name ≠ [] ∧ ∀ a ∈ name, isNameChar a = true) (hsame : SameLetters name w)
    (hblanks : allBlank blanks = true) (h : y ++ '=' :: behind = w ++ (blanks ++ '=' :: more)) :
    y = w ∧ behind = more := by
  have hequals : '=' ∉ y := fun hmem => absurd (hy '=' hmem) (by decide)
  have hfront : '=' ∉ w ++ blanks := by
    rw [List.mem_append, not_or]
    refine ⟨(hsame.unbroken hname.2).1, fun hmem => ?_⟩
    exact absurd (List.all_eq_true.mp hblanks '=' hmem) (by decide)
  rw [← List.append_assoc] at h
  obtain ⟨rfl, rfl⟩ := Text.separator_append_inj hequals hfront h
  have hne : w ++ blanks ≠ [] := by
    rintro hnil
    obtain ⟨rfl, -⟩ := List.append_eq_nil_iff.mp hnil
    exact hname.1 (List.forall₂_nil_right_iff.mp hsame)
  have hnil : blanks = [] := blanks_eq_nil [] hblanks hne hy rfl
  exact ⟨by rw [hnil, List.append_nil], rfl⟩

/-! ### Values in quotes -/

/-- A value is read up to the next quote of either kind, if there is any. -/
theorem quotedValue?_quoted {opening closing : Char} (hopening : isQuote opening = true)
    (hvalue : ∀ c ∈ value, isQuote c = false) (hclosing : isQuote closing = true) (rest : Text) :
    quotedValue? (opening :: (value ++ closing :: rest)) =
      if value = [] then none else some (value, rest) := by
  have htake : (value ++ closing :: rest).takeWhile (!isQuote ·) = value :=
    takeWhile_append_of_head (fun c hc => by simp [hvalue c hc]) (by simp [hclosing])
  rw [quotedValue?, if_pos hopening]
  simp only [htake, List.drop_left, List.isEmpty_iff]

theorem stripLeft_quoted (value rest : Text) :
    Text.stripLeft ('"' :: (value ++ '"' :: rest)) = '"' :: (value ++ '"' :: rest) :=
  List.dropWhile_cons_of_neg (by decide)

end Localize.Markup
