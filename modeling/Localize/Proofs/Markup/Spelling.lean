import Localize.Proofs.Markup.Attribute
import Localize.Proofs.Text.Case
import Localize.Proofs.Text.Search

/-!
# How a visible attribute is spelled

A listed name stands for the texts that it matches, letter case ignored and a star taken for a run of
letters, digits and hyphens. A visible attribute is read where such a text stands with an equals sign
and a quoted value behind it, and it reaches to the next quote of either kind. Where no listed name
holds a blank, an equals sign or a quote, there is one way to read an attribute at a place. A reading
that begins before a place reaches over it only if a listed name does, or the signs behind it, or if
the place is within a value.
-/

namespace Localize.Markup

open Text (isBlank isNameChar sameLetter allBlank)

/-- The texts that a name with stars stands for, letter case ignored. -/
def NamePattern.Matches : NamePattern → Text → Prop
  | [], w => w = []
  | .char _ :: _, [] => False
  | .char c :: parts, d :: w => sameLetter c d = true ∧ Matches parts w
  | .anyRun :: parts, w =>
    ∃ run rest, w = run ++ rest ∧ (∀ c ∈ run, isRunChar c = true) ∧ Matches parts rest

/-- One of the names stands for the text. -/
def Listed (names : List NamePattern) (w : Text) : Prop := ∃ name ∈ names, name.Matches w

variable {α : Type} {names : List NamePattern} {next : Text → Option α} {value : α}
  {t u w y r : Text}

/-! ### Names with stars -/

theorem exists_of_afterRun? (h : afterRun? next t = some value) :
    ∃ run rest, t = run ++ rest ∧ (∀ c ∈ run, isRunChar c = true) ∧ next rest = some value := by
  induction t with
  | nil => exact ⟨[], [], rfl, nofun, h⟩
  | cons c t ih =>
    rw [afterRun?] at h
    by_cases hc : isRunChar c = true
    · rw [if_pos hc] at h
      cases hlonger : afterRun? next t with
      | some longer =>
        rw [hlonger] at h
        obtain ⟨run, rest, rfl, hrun, hnext⟩ := ih (hlonger.trans h)
        exact ⟨c :: run, rest, rfl, List.forall_mem_cons.mpr ⟨hc, hrun⟩, hnext⟩
      | none =>
        rw [hlonger] at h
        exact ⟨[], c :: t, rfl, nofun, h⟩
    · rw [if_neg hc] at h
      exact ⟨[], c :: t, rfl, nofun, h⟩

theorem isSome_afterRun? {run rest : Text} (hrun : ∀ c ∈ run, isRunChar c = true)
    (h : (next rest).isSome = true) : (afterRun? next (run ++ rest)).isSome = true := by
  induction run with
  | nil =>
    cases rest with
    | nil => exact h
    | cons c rest =>
      rw [List.nil_append, afterRun?]
      by_cases hc : isRunChar c = true
      · rw [if_pos hc]
        cases afterRun? next rest with
        | some longer => rfl
        | none => exact h
      · rw [if_neg hc]
        exact h
  | cons c run ih =>
    obtain ⟨hc, hrun⟩ := List.forall_mem_cons.mp hrun
    obtain ⟨longer, hlonger⟩ := Option.isSome_iff_exists.mp (ih hrun)
    rw [List.cons_append, afterRun?, if_pos hc, hlonger]
    rfl

theorem exists_of_match? {name : NamePattern} (h : name.match? next t = some value) :
    ∃ w rest, t = w ++ rest ∧ name.Matches w ∧ next rest = some value := by
  induction name generalizing t with
  | nil => exact ⟨[], t, rfl, rfl, h⟩
  | cons part parts ih =>
    cases part with
    | char c =>
      cases t with
      | nil => cases h
      | cons d t =>
        rw [NamePattern.match?, Option.ite_none_right_eq_some] at h
        obtain ⟨hsame, h⟩ := h
        obtain ⟨w, rest, rfl, hw, hnext⟩ := ih h
        exact ⟨d :: w, rest, rfl, ⟨hsame, hw⟩, hnext⟩
    | anyRun =>
      obtain ⟨run, behind, rfl, hrun, h⟩ := exists_of_afterRun? h
      obtain ⟨w, rest, rfl, hw, hnext⟩ := ih h
      exact ⟨run ++ w, rest, (List.append_assoc run w rest).symm, ⟨run, w, rfl, hrun, hw⟩, hnext⟩

theorem isSome_match? {name : NamePattern} (hw : name.Matches w) (h : (next r).isSome = true) :
    (name.match? next (w ++ r)).isSome = true := by
  induction name generalizing w with
  | nil =>
    obtain rfl : w = [] := hw
    exact h
  | cons part parts ih =>
    cases part with
    | char c =>
      cases w with
      | nil => exact hw.elim
      | cons d w =>
        obtain ⟨hsame, hw⟩ := hw
        rw [List.cons_append, NamePattern.match?, if_pos hsame]
        exact ih hw
    | anyRun =>
      obtain ⟨run, rest, rfl, hrun, hrest⟩ := hw
      rw [List.append_assoc]
      exact isSome_afterRun? hrun (ih hrest)

theorem Listed.mono {more : List NamePattern} (h : names ⊆ more) (hw : Listed names w) :
    Listed more w := by
  obtain ⟨name, hname, hw⟩ := hw
  exact ⟨name, h hname, hw⟩

theorem listed_map_ofText {texts : List Text} :
    Listed (texts.map NamePattern.ofText) w ↔ ∃ name ∈ texts, (NamePattern.ofText name).Matches w := by
  simp only [Listed, List.mem_map, exists_exists_and_eq_and]

/-- A name without a star stands for the texts of the same letters. -/
theorem matches_ofText {name : Text} (hname : '*' ∉ name) :
    (NamePattern.ofText name).Matches w ↔ SameLetters name w := by
  induction name generalizing w with
  | nil => simp [NamePattern.ofText, NamePattern.Matches, SameLetters]
  | cons a name ih =>
    rw [List.mem_cons, not_or] at hname
    have hchar : NamePattern.ofText (a :: name) = .char a :: NamePattern.ofText name := by
      simp [NamePattern.ofText, Ne.symm hname.1]
    rw [hchar]
    cases w with
    | nil => simp [NamePattern.Matches, SameLetters]
    | cons d w =>
      rw [NamePattern.Matches, ih hname.2, SameLetters, SameLetters, List.forall₂_cons]

/-- Names without a star list the texts of the same letters. -/
theorem listed_iff_sameLetters {texts : List Text} (hstar : ∀ name ∈ texts, '*' ∉ name) :
    Listed (texts.map .ofText) w ↔ ∃ name ∈ texts, SameLetters name w := by
  rw [listed_map_ofText]
  exact exists_congr fun name => and_congr_right fun hname => matches_ofText (hstar name hname)

/-! ### Characters that no name holds -/

/-- What stands between the name of an attribute and its value. -/
def isBarrier (c : Char) : Bool := isBlank c || c = '=' || isQuote c

/-- A name of an attribute, perhaps with stars. -/
def IsListable (name : Text) : Prop := ∀ c ∈ name, isBarrier c = false

instance : DecidablePred IsListable := fun name =>
  inferInstanceAs (Decidable (∀ c ∈ name, isBarrier c = false))

/-- No text that is listed holds a barrier. -/
def Unbroken (names : List NamePattern) : Prop :=
  ∀ w, Listed names w → ∀ c ∈ w, isBarrier c = false

theorem isBarrier_eq_false {c : Char} :
    isBarrier c = false ↔ isBlank c = false ∧ c ≠ '=' ∧ isQuote c = false := by
  simp [isBarrier, and_assoc]

theorem isBarrier_of_isBlank {c : Char} (h : isBlank c = true) : isBarrier c = true := by
  simp [isBarrier, h]

theorem isBarrier_of_isQuote {c : Char} (h : isQuote c = true) : isBarrier c = true := by
  simp [isBarrier, h]

theorem Unbroken.notMem (h : Unbroken names) {c : Char} (hc : isBarrier c = true) (hw : Listed names w) :
    c ∉ w := fun hmem => by
  rw [h w hw c hmem] at hc
  cases hc

theorem caseless_of_isBarrier {c : Char} (h : isBarrier c = true) :
    Text.isCaseless c.toNat = true := by
  have hall : ∀ n ∈ 0x22 :: 0x27 :: 0x3d :: blankNumbers, Text.isCaseless n = true := by
    decide +kernel
  refine hall _ ?_
  simp only [isBarrier, isQuote, Bool.or_eq_true, decide_eq_true_eq] at h
  rcases h with (hblank | rfl) | rfl | rfl
  · simp [mem_blankNumbers hblank]
  · decide
  · decide
  · decide

theorem not_isRunChar_of_isBarrier {c : Char} (h : isBarrier c = true) : isRunChar c = false := by
  rw [isRunChar, Text.foldChar_of_caseless (caseless_of_isBarrier h), Bool.eq_false_iff]
  intro hname
  simp only [isBarrier, isQuote, Bool.or_eq_true, decide_eq_true_eq] at h
  rcases h with (hblank | rfl) | rfl | rfl
  · rw [Text.not_isNameChar_of_isBlank hblank] at hname
    cases hname
  · exact absurd hname (by decide)
  · exact absurd hname (by decide)
  · exact absurd hname (by decide)

theorem isBarrier_of_isNameChar {c : Char} (h : isNameChar c = true) : isBarrier c = false := by
  rw [isBarrier_eq_false]
  refine ⟨?_, ?_, ?_⟩
  · rw [Bool.eq_false_iff]
    intro hblank
    rw [Text.not_isNameChar_of_isBlank hblank] at h
    cases h
  · rintro rfl
    exact absurd h (by decide)
  · rw [Bool.eq_false_iff, isQuote, ne_eq, Bool.or_eq_true, decide_eq_true_eq, decide_eq_true_eq]
    rintro (rfl | rfl)
    · exact absurd h (by decide)
    · exact absurd h (by decide)

/-- What holds of every character of a run, and of a name in any letter case, holds of every
character of a text that the name stands for. -/
theorem forall_of_matches {p : Char → Prop} {name : Text} (hrun : ∀ c, isRunChar c = true → p c)
    (hname : ∀ a ∈ name, a ≠ '*' → ∀ d, sameLetter a d = true → p d)
    (hw : (NamePattern.ofText name).Matches w) : ∀ c ∈ w, p c := by
  induction name generalizing w with
  | nil =>
    obtain rfl : w = [] := hw
    exact nofun
  | cons a name ih =>
    obtain ⟨ha, hname⟩ := List.forall_mem_cons.mp hname
    have hcons : NamePattern.ofText (a :: name) =
        (if a = '*' then .anyRun else .char a) :: NamePattern.ofText name := rfl
    rw [hcons] at hw
    split_ifs at hw with hstar
    · obtain ⟨run, rest, rfl, hchars, hrest⟩ := hw
      intro c hc
      rcases List.mem_append.mp hc with hc | hc
      · exact hrun c (hchars c hc)
      · exact ih hname hrest c hc
    · cases w with
      | nil => exact hw.elim
      | cons d w =>
        obtain ⟨hsame, hw⟩ := hw
        exact List.forall_mem_cons.mpr ⟨ha hstar d hsame, ih hname hw⟩

theorem IsListable.matches {name : Text} (hname : IsListable name)
    (hw : (NamePattern.ofText name).Matches w) : ∀ c ∈ w, isBarrier c = false := by
  refine forall_of_matches (fun c hrun => ?_) (fun a ha _ d hsame => ?_) hw
  · rw [Bool.eq_false_iff]
    intro hbarrier
    rw [not_isRunChar_of_isBarrier hbarrier] at hrun
    cases hrun
  · rw [Bool.eq_false_iff]
    intro hbarrier
    have hnot := hname a ha
    rw [Text.eq_of_sameLetter (caseless_of_isBarrier hbarrier) hsame, hbarrier] at hnot
    cases hnot

/-- A listed text is one that a name given stands for; without any it is empty. -/
theorem cases_of_listed {texts : List Text} (hw : Listed (namePatterns texts) w) :
    w = [] ∨ ∃ name ∈ texts, (NamePattern.ofText name).Matches w := by
  rw [namePatterns] at hw
  split_ifs at hw
  · obtain ⟨pattern, hpattern, hw⟩ := hw
    obtain rfl := List.mem_singleton.mp hpattern
    exact .inl hw
  · exact .inr (listed_map_ofText.mp hw)

theorem listed_namePatterns {texts : List Text} (hne : texts ≠ [])
    (hstar : ∀ name ∈ texts, '*' ∉ name) :
    Listed (namePatterns texts) w ↔ ∃ name ∈ texts, SameLetters name w := by
  rw [namePatterns, if_neg (by simpa using hne), listed_iff_sameLetters hstar]

theorem unbroken_of_isListable {texts : List Text} (h : ∀ name ∈ texts, IsListable name) :
    Unbroken (namePatterns texts) := by
  intro w hw
  rcases cases_of_listed hw with rfl | ⟨name, hname, hw⟩
  · exact nofun
  · exact (h name hname).matches hw

/-! ### One reading -/

/-- What comes before the value of an attribute. -/
structure Head where
  name : Text
  before : Text
  behind : Text
  quote : Char

/-- The signs between a name and its value. -/
def Head.signs (h : Head) : Text := h.before ++ '=' :: (h.behind ++ [h.quote])

def Head.write (h : Head) : Text := h.name ++ h.signs

/-- A listed name, an equals sign between blanks, and a quote. -/
structure Head.Readable (names : List NamePattern) (h : Head) : Prop where
  name : Listed names h.name
  before : allBlank h.before = true
  behind : allBlank h.behind = true
  quote : isQuote h.quote = true

/-- An attribute as it is read. -/
structure Spelling where
  head : Head
  value : Text
  closing : Char

def Spelling.write (s : Spelling) : Text := s.head.write ++ (s.value ++ [s.closing])

/-- A value that is not empty, up to the nearest quote. -/
structure Spelling.Readable (names : List NamePattern) (s : Spelling) : Prop where
  head : s.head.Readable names
  value : s.value ≠ [] ∧ ∀ c ∈ s.value, isQuote c = false
  closing : isQuote s.closing = true

/-- The text ends within the value of a visible attribute. -/
def OpenValue (names : List NamePattern) (t : Text) : Prop :=
  ∃ x head v, t = x ++ (Head.write head ++ v) ∧ head.Readable names ∧ ∀ c ∈ v, isQuote c = false

theorem exists_of_quotedValue? {value rest : Text} (h : quotedValue? t = some (value, rest)) :
    ∃ opening closing, t = opening :: (value ++ closing :: rest) ∧ isQuote opening = true ∧
      (value ≠ [] ∧ ∀ c ∈ value, isQuote c = false) ∧ isQuote closing = true := by
  cases t with
  | nil => cases h
  | cons opening t =>
    rw [quotedValue?, Option.ite_none_right_eq_some] at h
    obtain ⟨hopening, h⟩ := h
    simp only [drop_length_takeWhile] at h
    have hsplit : t.takeWhile (!isQuote ·) ++ t.dropWhile (!isQuote ·) = t :=
      List.takeWhile_append_dropWhile
    have hfirst := List.head?_dropWhile_not (!isQuote ·) t
    cases hbehind : t.dropWhile (!isQuote ·) with
    | nil =>
      rw [hbehind] at h
      cases h
    | cons closing behind =>
      rw [hbehind] at h hsplit hfirst
      simp only [Option.ite_none_left_eq_some, List.isEmpty_iff, Option.some.injEq,
        Prod.mk.injEq] at h
      obtain ⟨hne, rfl, rfl⟩ := h
      refine ⟨opening, closing, by rw [hsplit], hopening, ⟨hne, fun c hc => ?_⟩, ?_⟩
      · simpa using List.mem_takeWhile_imp hc
      · simpa using hfirst

theorem not_isBlank_of_isQuote {c : Char} (h : isQuote c = true) : isBlank c = false := by
  rw [isQuote, Bool.or_eq_true, decide_eq_true_eq, decide_eq_true_eq] at h
  rcases h with rfl | rfl
  · decide
  · decide

namespace Head

variable {h : Head}

theorem isBarrier_of_mem_signs (hh : h.Readable names) : ∀ c ∈ h.signs, isBarrier c = true := by
  have hblank : ∀ blanks : Text, allBlank blanks = true → ∀ c ∈ blanks, isBarrier c = true :=
    fun blanks hblanks c hc => isBarrier_of_isBlank (List.all_eq_true.mp hblanks c hc)
  intro c hc
  simp only [signs, List.mem_append, List.mem_cons, List.not_mem_nil, or_false] at hc
  rcases hc with hc | rfl | hc | rfl
  · exact hblank _ hh.before c hc
  · decide
  · exact hblank _ hh.behind c hc
  · exact isBarrier_of_isQuote hh.quote

theorem signs_ne_nil : h.signs ≠ [] := by simp [signs]

/-- The name of a head ends at the first barrier. -/
theorem name_eq (hnames : Unbroken names) (hh : h.Readable names) (hy : ∀ c ∈ y, isBarrier c = false)
    (hr : ∀ c ∈ r.head?, isBarrier c = true) (heq : h.write ++ t = y ++ r) :
    h.name = y ∧ h.signs ++ t = r := by
  rw [write, List.append_assoc] at heq
  refine append_inj_of_head (!isBarrier ·) (fun c hc => ?_) (fun c hc => ?_) (fun c hc => ?_)
    (fun c hc => ?_) heq
  · simp [hnames h.name hh.name c hc]
  · rw [List.head?_append_of_ne_nil _ signs_ne_nil] at hc
    simp [isBarrier_of_mem_signs hh c (List.mem_of_mem_head? hc)]
  · simp [hy c hc]
  · simp [hr c hc]

/-- There is one way to read a head at a place. -/
theorem write_append_inj {h' : Head} (hnames : Unbroken names) (hh : h.Readable names)
    (hh' : h'.Readable names) (heq : h.write ++ t = h'.write ++ u) : h = h' ∧ t = u := by
  have hequals : ∀ v : Text, ∀ c ∈ ('=' :: v).head?, isBlank c = false := by
    rintro v c ⟨⟩
    decide
  have hquote : ∀ g : Head, g.Readable names → ∀ v : Text, ∀ c ∈ (g.quote :: v).head?,
      isBlank c = false := by
    rintro g hg v c ⟨⟩
    exact not_isBlank_of_isQuote hg.quote
  have hcut : h.write ++ t = h'.name ++ (h'.signs ++ u) := by
    rw [heq, write, List.append_assoc]
  obtain ⟨hname, heq⟩ := name_eq hnames hh (hnames h'.name hh'.name) (fun c hc => by
    rw [List.head?_append_of_ne_nil _ signs_ne_nil] at hc
    exact isBarrier_of_mem_signs hh' c (List.mem_of_mem_head? hc)) hcut
  simp only [signs, List.append_assoc, List.cons_append, List.nil_append] at heq
  obtain ⟨hbefore, heq⟩ := append_inj_of_head isBlank (List.all_eq_true.mp hh.before) (hequals _)
    (List.all_eq_true.mp hh'.before) (hequals _) heq
  obtain ⟨hbehind, heq⟩ := append_inj_of_head isBlank (List.all_eq_true.mp hh.behind)
    (hquote h hh t) (List.all_eq_true.mp hh'.behind) (hquote h' hh' u) (List.cons.inj heq).2
  obtain ⟨hmark, rfl⟩ := List.cons.inj heq
  obtain ⟨name, before, behind, quote⟩ := h
  obtain ⟨name', before', behind', quote'⟩ := h'
  obtain rfl : name = name' := hname
  obtain rfl : before = before' := hbefore
  obtain rfl : behind = behind' := hbehind
  obtain rfl : quote = quote' := hmark
  exact ⟨rfl, rfl⟩

/-- Up to a character that is no barrier a head is its name. -/
theorem exists_of_write_eq {c : Char} {z : Text} (hh : h.Readable names)
    (heq : h.write = y ++ c :: z) (hc : isBarrier c = false) : ∃ z', h.name = y ++ c :: z' := by
  rw [write] at heq
  rcases List.append_eq_append_iff.mp heq with ⟨d, rfl, hd⟩ | ⟨d, hd, hrest⟩
  · have hmem : c ∈ h.signs := hd ▸ by simp
    rw [isBarrier_of_mem_signs hh c hmem] at hc
    cases hc
  · cases d with
    | nil =>
      have hmem : c ∈ h.signs := by
        rw [List.nil_append] at hrest
        exact hrest ▸ List.mem_cons_self
      rw [isBarrier_of_mem_signs hh c hmem] at hc
      cases hc
    | cons e d =>
      obtain ⟨rfl, -⟩ := List.cons.inj hrest
      exact ⟨d, hd⟩

end Head

/-- Text without quotes leaves a value open or not. -/
theorem OpenValue.of_append (h : OpenValue names (t ++ u)) (hu : ∀ c ∈ u, isQuote c = false) :
    OpenValue names t := by
  obtain ⟨x, head, v, heq, hhead, hv⟩ := h
  rw [← List.append_assoc] at heq
  rcases List.append_eq_append_iff.mp heq with ⟨d, hd, rfl⟩ | ⟨d, rfl, rfl⟩
  · rcases List.eq_nil_or_concat d with rfl | ⟨d, c, rfl⟩
    · rw [List.append_nil] at hd
      exact ⟨x, head, [], by rw [List.append_nil, hd], hhead, nofun⟩
    · -- The head ends with a quote.
      have hlast := congrArg List.getLast? hd
      have hquote : head.quote = c := by
        simpa [Head.write, Head.signs, List.getLast?_append, List.getLast?_cons] using hlast
      have hnot := hu c (by simp)
      rw [← hquote, hhead.quote] at hnot
      cases hnot
  · exact ⟨x, head, d, by rw [List.append_assoc], hhead, fun c hc => hv c (List.mem_append_left u hc)⟩

/-- Without a quote no value is open. -/
theorem not_openValue (h : ∀ c ∈ t, isQuote c = false) : ¬ OpenValue names t := by
  intro hopen
  obtain ⟨x, head, v, hnil, -, -⟩ := hopen.of_append (t := []) h
  simp [Head.write, Head.signs] at hnil

namespace Spelling

variable {s s' : Spelling} {u' : Text}

theorem write_append (s : Spelling) (u : Text) :
    s.write ++ u = s.head.name ++ (s.head.before ++ '=' :: (s.head.behind ++ s.head.quote ::
      (s.value ++ s.closing :: u))) := by
  simp [write, Head.write, Head.signs]

/-- What is read as a visible attribute is an attribute as it is spelled. -/
theorem exists_of_visibleAttribute? {read : WrittenAttribute × Nat}
    (h : visibleAttribute? names t = some read) :
    ∃ s : Spelling, s.Readable names ∧ (∃ u, t = s.write ++ u) ∧
      read = (⟨s.head.name, s.value⟩, s.write.length) := by
  obtain ⟨name, hname, h⟩ := List.exists_of_findSome?_eq_some h
  obtain ⟨w, rest, ht, hw, h⟩ := exists_of_match? h
  obtain ⟨after, hafter, h⟩ := Option.bind_eq_some_iff.mp h
  obtain ⟨before, more, hrest, hbefore, rfl⟩ := exists_of_afterEquals? hafter
  obtain ⟨⟨value, u⟩, hvalue, h⟩ := Option.bind_eq_some_iff.mp h
  obtain ⟨quote, closing, hmore, hquote, hvalue, hclosing⟩ := exists_of_quotedValue? hvalue
  have hbehind := Text.leadingBlanks_append_stripLeft more
  rw [hmore] at hbehind
  let s : Spelling := ⟨⟨w, before, Text.leadingBlanks more, quote⟩, value, closing⟩
  have hwrite : t = s.write ++ u := by
    rw [ht, hrest, ← hbehind, write_append]
  refine ⟨s, ⟨⟨⟨name, hname, hw⟩, hbefore, Text.allBlank_leadingBlanks more, hquote⟩, hvalue,
    hclosing⟩, ⟨u, hwrite⟩, ?_⟩
  have hname : t.take (t.length - rest.length) = w := by
    rw [ht, List.length_append, Nat.add_sub_cancel, List.take_left]
  have hlength : t.length - u.length = s.write.length := by
    rw [hwrite, List.length_append, Nat.add_sub_cancel]
  rw [← Option.some.inj h, hname, hlength]

theorem Readable.isSome_visibleAttribute? (hs : s.Readable names) (u : Text) :
    (visibleAttribute? names (s.write ++ u)).isSome = true := by
  obtain ⟨name, hname, hw⟩ := hs.head.name
  rw [visibleAttribute?, List.findSome?_isSome_iff]
  refine ⟨name, hname, ?_⟩
  rw [write_append]
  refine isSome_match? hw ?_
  have hstrip : Text.stripLeft (s.head.behind ++ s.head.quote :: (s.value ++ s.closing :: u)) =
      s.head.quote :: (s.value ++ s.closing :: u) :=
    dropWhile_append_of_head (List.all_eq_true.mp hs.head.behind)
      (by rintro c ⟨⟩; exact not_isBlank_of_isQuote hs.head.quote)
  simp only [afterEquals?_of_blanks hs.head.before, Option.bind_eq_bind, Option.bind_some, hstrip,
    quotedValue?_quoted hs.head.quote hs.value.2 hs.closing, if_neg hs.value.1]
  rfl

/-- There is one way to read an attribute at a place. -/
theorem write_append_inj (hnames : Unbroken names) (hs : s.Readable names)
    (hs' : s'.Readable names) (h : s.write ++ u = s'.write ++ u') : s = s' ∧ u = u' := by
  obtain ⟨head, value, closing⟩ := s
  obtain ⟨head', value', closing'⟩ := s'
  simp only [write, List.append_assoc, List.singleton_append] at h
  obtain ⟨rfl, hrest⟩ := Head.write_append_inj hnames hs.head hs'.head h
  have hclosing : ∀ c ∈ (closing :: u).head?, (!isQuote c) = false := by
    rintro c ⟨⟩
    simp [hs.closing]
  have hclosing' : ∀ c ∈ (closing' :: u').head?, (!isQuote c) = false := by
    rintro c ⟨⟩
    simp [hs'.closing]
  obtain ⟨rfl, hlast⟩ := append_inj_of_head (!isQuote ·) (fun c hc => by simp [hs.value.2 c hc])
    hclosing (fun c hc => by simp [hs'.value.2 c hc]) hclosing' hrest
  obtain ⟨rfl, rfl⟩ := List.cons.inj hlast
  exact ⟨rfl, rfl⟩

/-- At an end of a name the value behind it is read, if there is one. -/
theorem eq_of_write_append (hnames : Unbroken names) (hs : s.Readable names)
    (hy : ∀ c ∈ y, isBarrier c = false) {quote closing : Char} (hquote : isQuote quote = true)
    {value : Text} (hvalue : ∀ c ∈ value, isQuote c = false) (hclosing : isQuote closing = true)
    (h : s.write ++ u = y ++ '=' :: quote :: (value ++ closing :: t)) :
    Listed names y ∧ value ≠ [] ∧ s = ⟨⟨y, [], [], quote⟩, value, closing⟩ := by
  obtain ⟨head, value', closing'⟩ := s
  rw [write, List.append_assoc] at h
  obtain ⟨rfl, -⟩ := Head.name_eq hnames hs.head hy (by rintro c ⟨⟩; rfl) h
  have hhead : Head.Readable names ⟨head.name, [], [], quote⟩ := ⟨hs.head.name, rfl, rfl, hquote⟩
  have hshape : head.name ++ '=' :: quote :: (value ++ closing :: t) =
      Head.write ⟨head.name, [], [], quote⟩ ++ (value ++ closing :: t) := by
    simp [Head.write, Head.signs]
  obtain ⟨hsame, hrest⟩ := Head.write_append_inj hnames hs.head hhead (h.trans hshape)
  rw [List.append_assoc] at hrest
  obtain ⟨rfl, hlast⟩ := append_inj_of_head (!isQuote ·) (fun c hc => by simp [hs.value.2 c hc])
    (by rintro c ⟨⟩; simp [hs.closing]) (fun c hc => by simp [hvalue c hc])
    (by rintro c ⟨⟩; simp [hclosing]) hrest
  obtain ⟨rfl, -⟩ := List.cons.inj hlast
  exact ⟨hs.head.name, hs.value.1, by rw [← hsame]⟩

/-- An attribute as it is spelled is read. -/
theorem visibleAttribute?_write (hnames : Unbroken names) (hs : s.Readable names) (u : Text) :
    visibleAttribute? names (s.write ++ u) = some (⟨s.head.name, s.value⟩, s.write.length) := by
  obtain ⟨read, hread⟩ := Option.isSome_iff_exists.mp (hs.isSome_visibleAttribute? u)
  obtain ⟨s', hs', ⟨u', hu⟩, rfl⟩ := exists_of_visibleAttribute? hread
  obtain ⟨rfl, -⟩ := write_append_inj hnames hs hs' hu
  exact hread

/-- What is read at a place lies within a text, or the text ends within the name or the signs behind
it, or within the value. -/
theorem cases_of_write_append (hs : s.Readable names) (h : y ++ r = s.write ++ u) :
    s.write <+: y ∨ (∃ c z, s.head.write = y ++ c :: z ∧ ∃ more, r = c :: (z ++ more)) ∨
      ∃ v, y = s.head.write ++ v ∧ ∀ c ∈ v, isQuote c = false := by
  rw [write, List.append_assoc] at h
  rcases List.append_eq_append_iff.mp h with ⟨z, hz, hr⟩ | ⟨v, hy, hv⟩
  · cases z with
    | nil => exact .inr (.inr ⟨[], by rw [hz, List.append_nil, List.append_nil], nofun⟩)
    | cons c z => exact .inr (.inl ⟨c, z, hz, _, hr⟩)
  · rw [List.append_assoc] at hv
    rcases List.append_eq_append_iff.mp hv with ⟨z, hz, hr⟩ | ⟨z, hz, -⟩
    · cases z with
      | nil =>
      rw [List.append_nil] at hz
      exact .inr (.inr ⟨v, hy, hz ▸ hs.value.2⟩)
      | cons d z =>
        refine .inl ⟨z, ?_⟩
        obtain ⟨rfl, -⟩ := List.cons.inj hr
        rw [hy, hz, write]
        simp
    · exact .inr (.inr ⟨v, hy, fun c hc => hs.value.2 c (hz ▸ List.mem_append_left z hc)⟩)

/-- Where whatever is read with a text behind lies before it, the text behind makes no difference. -/
theorem visibleAttribute?_append (hnames : Unbroken names)
    (h : ∀ s : Spelling, s.Readable names → ∀ u, y ++ r = s.write ++ u → s.write <+: y) :
    visibleAttribute? names (y ++ r) = visibleAttribute? names y := by
  refine Option.ext fun read => ?_
  constructor
  · intro hread
    obtain ⟨s, hs, ⟨u, hu⟩, rfl⟩ := exists_of_visibleAttribute? hread
    obtain ⟨rest, rfl⟩ := h s hs u hu
    exact visibleAttribute?_write hnames hs rest
  · intro hread
    obtain ⟨s, hs, ⟨u, rfl⟩, rfl⟩ := exists_of_visibleAttribute? hread
    rw [List.append_assoc]
    exact visibleAttribute?_write hnames hs (u ++ r)

/-- A match of a scan is an attribute as it is spelled, where it was found. -/
theorem exists_of_mem_scan {f : Text.Found WrittenAttribute}
    (hf : f ∈ Text.scan (fun _ t => visibleAttribute? names t) t) :
    ∃ (s : Spelling) (x u : Text), t = x ++ (s.write ++ u) ∧ x.length = f.start ∧
      s.Readable names ∧ f.length = s.write.length ∧ f.value = ⟨s.head.name, s.value⟩ := by
  obtain ⟨hstart, hread⟩ := Text.matcher_of_mem_scan hf
  obtain ⟨s, hs, ⟨u, hu⟩, hsame⟩ := exists_of_visibleAttribute? hread
  obtain ⟨hvalue, hlength⟩ := Prod.mk.inj hsame
  refine ⟨s, t.take f.start, u, ?_, List.length_take_of_le hstart, hs, hlength, hvalue⟩
  rw [← hu, List.take_append_drop]

/-- A place where a visible attribute can be read lies within a match of a scan. -/
theorem exists_mem_scan {n length : Nat} {value : WrittenAttribute} (hn : n ≤ t.length)
    (h : visibleAttribute? names (t.drop n) = some (value, length)) :
    ∃ f ∈ Text.scan (fun _ t => visibleAttribute? names t) t,
      f.start ≤ n ∧ n < f.start + f.length := by
  refine Text.exists_mem_scan hn h ?_
  obtain ⟨s, -, -, hread⟩ := exists_of_visibleAttribute? h
  obtain ⟨-, rfl⟩ := Prod.mk.inj hread
  simp [write]

/-- A match of a scan is what is read at its place. -/
theorem eq_of_mem_scan {f : Text.Found WrittenAttribute}
    (hf : f ∈ Text.scan (fun _ t => visibleAttribute? names t) t) {n length : Nat}
    {value : WrittenAttribute} (hn : f.start = n)
    (h : visibleAttribute? names (t.drop n) = some (value, length)) : f = ⟨n, length, value⟩ := by
  subst hn
  obtain ⟨-, hread⟩ := Text.matcher_of_mem_scan hf
  obtain ⟨hvalue, hlength⟩ := Prod.mk.inj (Option.some.inj (hread.symm.trans h))
  rw [← hvalue, ← hlength]

/-- A match of a scan ends with a quote. -/
theorem getElem?_of_mem_scan {f : Text.Found WrittenAttribute}
    (hf : f ∈ Text.scan (fun _ t => visibleAttribute? names t) t) :
    0 < f.length ∧ ∃ c, t[f.start + f.length - 1]? = some c ∧ isQuote c = true := by
  obtain ⟨s, x, u, rfl, hx, hs, hlength, -⟩ := exists_of_mem_scan hf
  have hshape : x ++ (s.write ++ u) = (x ++ (s.head.write ++ s.value)) ++ s.closing :: u := by
    simp [write]
  have hlast : f.start + f.length - 1 = (x ++ (s.head.write ++ s.value)).length := by
    simp only [hlength, ← hx, write, List.length_append, List.length_singleton]
    omega
  refine ⟨by simp [hlength, write], s.closing, ?_, hs.closing⟩
  rw [hshape, hlast, List.getElem?_append_right (Nat.le_refl _), Nat.sub_self]
  rfl

/-- A match that reaches over a place does so within the head of an attribute or within a value. -/
theorem cases_of_reach {front : Text} {f : Text.Found WrittenAttribute}
    (hf : f ∈ Text.scan (fun _ t => visibleAttribute? names t) (front ++ r))
    (hstart : f.start < front.length) (hend : front.length < f.start + f.length) :
    (∃ x y head c z, front = x ++ y ∧ y ≠ [] ∧ Head.Readable names head ∧
      head.write = y ++ c :: z ∧ ∃ more, r = c :: (z ++ more)) ∨ OpenValue names front := by
  obtain ⟨s, x, u, hcode, hx, hs, hlength, -⟩ := exists_of_mem_scan hf
  obtain ⟨y, rfl⟩ : x <+: front :=
    List.prefix_of_prefix_length_le ⟨_, hcode.symm⟩ ⟨_, rfl⟩ (by omega)
  rw [List.append_assoc, List.append_cancel_left_eq] at hcode
  have hy : y ≠ [] := by
    rintro rfl
    rw [List.append_nil] at hstart
    omega
  rcases cases_of_write_append hs hcode with hshort | ⟨c, z, hhead, hmore⟩ | ⟨v, rfl, hquotes⟩
  · have hle := hshort.length_le
    rw [List.length_append] at hend
    omega
  · exact .inl ⟨x, y, s.head, c, z, rfl, hy, hs.head, hhead, hmore⟩
  · exact .inr ⟨x, s.head, v, rfl, hs.head, hquotes⟩

end Spelling

/-! ### Names with an equals sign -/

/-- A listed name begins the text, and an equals sign stands behind it. -/
def Announced (names : List NamePattern) (t : Text) : Prop :=
  ∃ w blanks more, t = w ++ (blanks ++ '=' :: more) ∧ Listed names w ∧ allBlank blanks = true

theorem Spelling.Readable.announced {s : Spelling} (hs : s.Readable names) (u : Text) :
    Announced names (s.write ++ u) :=
  ⟨s.head.name, s.head.before, _, s.write_append u, hs.head.name, hs.head.before⟩

theorem visibleAttribute?_of_not_announced (h : ¬ Announced names t) :
    visibleAttribute? names t = none := by
  rw [Option.eq_none_iff_forall_ne_some]
  intro read hread
  obtain ⟨s, hs, ⟨u, rfl⟩, -⟩ := Spelling.exists_of_visibleAttribute? hread
  exact h (hs.announced u)

theorem notMem_of_allBlank {blanks : Text} (h : allBlank blanks = true) {c : Char}
    (hc : isBlank c = false) : c ∉ blanks := fun hmem => by
  rw [List.all_eq_true.mp h c hmem] at hc
  cases hc

/-- The name ends at the first equals sign or the blanks before it. -/
theorem exists_of_announced (hnames : Unbroken names) {x : Text} (hx : '=' ∉ x)
    (h : Announced names (x ++ '=' :: r)) :
    ∃ w blanks, x = w ++ blanks ∧ Listed names w ∧ allBlank blanks = true := by
  obtain ⟨w, blanks, more, heq, hw, hblanks⟩ := h
  have hname : '=' ∉ w := hnames.notMem (by decide) hw
  have hfront : '=' ∉ w ++ blanks := by
    rw [List.mem_append, not_or]
    exact ⟨hname, notMem_of_allBlank hblanks (by decide)⟩
  rw [← List.append_assoc] at heq
  exact ⟨w, blanks, (Text.separator_append_inj hx hfront heq).1, hw, hblanks⟩

/-- Nothing is announced where a character that is neither blank nor in a listed name comes before
the first equals sign. -/
theorem not_announced_of_stop (hnames : Unbroken names) {x : Text} (hx : '=' ∉ x) {c : Char}
    (hc : ∀ w, Listed names w → c ∉ w) (hblank : isBlank c = false) (hequals : c ≠ '=')
    (u : Text) : ¬ Announced names (x ++ c :: u) := by
  intro h
  have hsplit : '=' ∈ u := by
    obtain ⟨w, blanks, more, heq, -, -⟩ := h
    have hmem : '=' ∈ x ++ c :: u := heq ▸ by simp
    simpa [hx, hequals.symm] using hmem
  obtain ⟨a, b, rfl, ha⟩ := List.eq_append_cons_of_mem hsplit
  have hfront : '=' ∉ x ++ c :: a := by simp [hx, ha, hequals.symm]
  have hshape : x ++ c :: (a ++ '=' :: b) = (x ++ c :: a) ++ '=' :: b := by simp
  rw [hshape] at h
  obtain ⟨w, blanks, hcut, hw, hblanks⟩ := exists_of_announced hnames hfront h
  have hmem : c ∈ w ++ blanks := hcut ▸ by simp
  rcases List.mem_append.mp hmem with hmem | hmem
  · exact hc w hw hmem
  · exact notMem_of_allBlank hblanks hblank hmem

/-- Nothing is announced where a blank and a name come before the first equals sign. -/
theorem not_announced_of_gap (hnames : Unbroken names) {x name : Text} (hx : '=' ∉ x) {b : Char}
    (hb : isBlank b = true) (hne : name ≠ []) (hname : ∀ c ∈ name, isBarrier c = false)
    (more : Text) : ¬ Announced names (x ++ b :: (name ++ '=' :: more)) := by
  intro h
  have hfront : '=' ∉ x ++ b :: name := by
    simp only [List.mem_append, List.mem_cons, not_or]
    refine ⟨hx, ?_, fun hmem => absurd (hname '=' hmem) (by decide)⟩
    rintro rfl
    exact absurd hb (by decide)
  have hshape : x ++ b :: (name ++ '=' :: more) = (x ++ b :: name) ++ '=' :: more := by simp
  rw [hshape] at h
  obtain ⟨w, blanks, hcut, hw, hblanks⟩ := exists_of_announced hnames hfront h
  -- The name is not blank, so the blanks behind the listed one are none.
  rcases List.eq_nil_or_concat blanks with rfl | ⟨blanks, d, rfl⟩
  · rw [List.append_nil] at hcut
    exact absurd (hcut ▸ by simp) (hnames.notMem (isBarrier_of_isBlank hb) hw)
  · obtain ⟨name, e, rfl⟩ := (List.eq_nil_or_concat name).resolve_left hne
    have hlast := congrArg List.getLast? hcut
    have hblank : isBlank d = true := List.all_eq_true.mp hblanks d (by simp)
    have hnot := (isBarrier_eq_false.mp (hname e (by simp))).1
    have hsame : e = d := by simpa [List.getLast?_append, List.getLast?_cons] using hlast
    rw [hsame, hblank] at hnot
    cases hnot

/-! ### The names looked for when no others are given -/

theorem isName_of_default : ∀ name ∈ defaultVisibleAttributes,
    (name ≠ [] ∧ ∀ a ∈ name, isNameChar a = true) ∧ Text.lower name = name := by decide

theorem listed_default (hw : ∀ c ∈ w, isNameChar c = true) :
    Listed (namePatterns defaultVisibleAttributes) w ↔ Text.lower w ∈ defaultVisibleAttributes := by
  rw [listed_namePatterns (by decide) (by decide)]
  constructor
  · rintro ⟨name, hname, hsame⟩
    obtain ⟨⟨-, hchars⟩, hlower⟩ := isName_of_default name hname
    rwa [(sameLetters_iff hchars hw).mp hsame, hlower]
  · intro hname
    obtain ⟨⟨-, hchars⟩, hlower⟩ := isName_of_default _ hname
    exact ⟨_, hname, (sameLetters_iff hchars hw).mpr hlower.symm⟩

theorem visibleAttribute?_of_calm (h : Calm t) :
    visibleAttribute? (namePatterns defaultVisibleAttributes) t = none := by
  refine visibleAttribute?_of_not_announced fun hannounced => ?_
  obtain ⟨w, blanks, more, rfl, hlisted, hblanks⟩ := hannounced
  obtain ⟨name, hname, hsame⟩ := (listed_namePatterns (by decide) (by decide)).mp hlisted
  exact not_sameLetters_of_calm h hblanks (isName_of_default name hname).1.2 hsame

/-- At a name that ends before its value the attribute is read if the name is one of those looked
for and the value is not empty. -/
theorem visibleAttribute?_name {value : Text} (hy : ∀ c ∈ y, isNameChar c = true)
    (hvalue : ∀ c ∈ value, isQuote c = false) (rest : Text) :
    visibleAttribute? (namePatterns defaultVisibleAttributes)
        (y ++ '=' :: '"' :: (value ++ '"' :: rest)) =
      if Text.lower y ∈ defaultVisibleAttributes ∧ value ≠ [] then
        some (⟨y, value⟩, (y ++ '=' :: '"' :: (value ++ ['"'])).length)
      else none := by
  have hnames : Unbroken (namePatterns defaultVisibleAttributes) :=
    unbroken_of_isListable (by decide)
  split_ifs with h
  · have hs : Spelling.Readable (namePatterns defaultVisibleAttributes)
        ⟨⟨y, [], [], '"'⟩, value, '"'⟩ :=
      ⟨⟨(listed_default hy).mpr h.1, rfl, rfl, rfl⟩, ⟨h.2, hvalue⟩, rfl⟩
    have hread := Spelling.visibleAttribute?_write hnames hs rest
    simpa [Spelling.write, Head.write, Head.signs] using hread
  · rw [Option.eq_none_iff_forall_ne_some]
    intro read hread
    obtain ⟨s, hs, ⟨u, hu⟩, -⟩ := Spelling.exists_of_visibleAttribute? hread
    obtain ⟨hlisted, hne, -⟩ := Spelling.eq_of_write_append hnames hs
      (fun c hc => isBarrier_of_isNameChar (hy c hc)) rfl hvalue rfl hu.symm
    exact h ⟨(listed_default hy).mp hlisted, hne⟩

end Localize.Markup
