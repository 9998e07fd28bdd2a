import Localize.Proofs.Markup.Comment
import Localize.Proofs.Markup.Spelling
import Localize.Proofs.Markup.Union

/-!
# Values in quotes of one kind

A value in quotes of one kind may hold quotes of the other kind, but it is read up to its first quote
of either kind. So an attribute outside of comments, behind no open value, gives its value whole if
and only if the value holds no quote; with an apostrophe in double quotes it gives what stands before
the apostrophe, and with a quote as its first character nothing.
-/

namespace Localize.Markup

open Text (isBlank allBlank)

/-- An attribute whose value stands between two quotes of one kind. -/
structure QuotedAttribute where
  gap : Text
  name : Text
  quote : Char
  value : Text

namespace QuotedAttribute

def write (a : QuotedAttribute) : Text :=
  a.gap ++ (a.name ++ '=' :: a.quote :: (a.value ++ [a.quote]))

/-- A listed name behind blanks, and a value without the quote around it; no comment begins in it. -/
structure WellFormed (names : List NamePattern) (a : QuotedAttribute) : Prop where
  gap : a.gap ≠ [] ∧ allBlank a.gap = true
  name : a.name ≠ [] ∧ Listed names a.name
  quote : isQuote a.quote = true
  value : a.quote ∉ a.value
  uncommented : Uncommented a.write

/-- The value up to its first quote. -/
def seen (a : QuotedAttribute) : Text := a.value.takeWhile (!isQuote ·)

/-- The attribute as it is found where its name begins. -/
def found (a : QuotedAttribute) (place : Nat) : Text.Found WrittenAttribute :=
  ⟨place, a.name.length + a.seen.length + 3, ⟨a.name, a.seen⟩⟩

variable {names : List NamePattern} {a : QuotedAttribute} {front back t x y : Text} {u : Text}

theorem seen_eq_iff : a.seen = a.value ↔ ∀ c ∈ a.value, isQuote c = false := by
  rw [seen, List.takeWhile_eq_self_iff]
  simp

/-- Behind what is seen of the value stands a quote. -/
theorem WellFormed.exists_closing (ha : a.WellFormed names) (back : Text) : ∃ closing rest,
    a.value ++ a.quote :: back = a.seen ++ closing :: rest ∧ isQuote closing = true := by
  have hseen : (a.value ++ a.quote :: back).takeWhile (!isQuote ·) = a.seen :=
    takeWhile_append_left (by rintro c ⟨⟩; simp [ha.quote])
  have hne : ((a.value ++ a.quote :: back).takeWhile (!isQuote ·)).length ≠
      (a.value ++ a.quote :: back).length := by
    intro hlength
    have hall := (List.takeWhile_prefix (!isQuote ·) (l := a.value ++ a.quote :: back)).eq_of_length
      hlength
    have hquote := List.takeWhile_eq_self_iff.mp hall a.quote (by simp)
    simp [ha.quote] at hquote
  obtain ⟨closing, rest, hsplit, hclosing⟩ := exists_of_takeWhile_ne hne
  rw [hseen] at hsplit
  exact ⟨closing, rest, hsplit, by simpa using hclosing⟩

theorem write_append (a : QuotedAttribute) (back : Text) : a.write ++ back =
    a.gap ++ (a.name ++ '=' :: a.quote :: (a.value ++ a.quote :: back)) := by
  simp [write]

theorem WellFormed.not_isBarrier (ha : a.WellFormed names) (hnames : Unbroken names) :
    ∀ c ∈ a.name, isBarrier c = false :=
  hnames a.name ha.name.2

/-- The text with the attribute behind a front. -/
def text (a : QuotedAttribute) (front back : Text) : Text := front ++ (a.write ++ back)

/-- The place where the name begins. -/
def place (a : QuotedAttribute) (front : Text) : Nat := front.length + a.gap.length

theorem drop_text (a : QuotedAttribute) (front back : Text) : (a.text front back).drop (a.place front) =
    a.name ++ '=' :: a.quote :: (a.value ++ a.quote :: back) := by
  rw [text, write_append, ← List.append_assoc, place, ← List.length_append, List.drop_left]

theorem visibleAttribute?_text (ha : a.WellFormed names) (hnames : Unbroken names)
    (hseen : a.seen ≠ []) (front back : Text) :
    visibleAttribute? names ((a.text front back).drop (a.place front)) =
      some (⟨a.name, a.seen⟩, a.name.length + a.seen.length + 3) := by
  obtain ⟨closing, rest, hsplit, hclosing⟩ := ha.exists_closing back
  let s : Spelling := ⟨⟨a.name, [], [], a.quote⟩, a.seen, closing⟩
  have hs : s.Readable names := by
    refine ⟨⟨ha.name.2, rfl, rfl, ha.quote⟩, ⟨hseen, fun c hc => ?_⟩, hclosing⟩
    simpa using List.mem_takeWhile_imp hc
  have hlength : s.write.length = a.name.length + a.seen.length + 3 := by
    simp [s, Spelling.write, Head.write, Head.signs]
    omega
  have hread := Spelling.visibleAttribute?_write hnames hs rest
  rw [hlength, Spelling.write_append] at hread
  rw [drop_text, hsplit]
  exact hread

/-- Behind no open value nothing that is found before the name reaches over its beginning. -/
theorem end_le_place (ha : a.WellFormed names) (hnames : Unbroken names)
    (hopen : ¬ OpenValue names front) {g : Text.Found WrittenAttribute}
    (hg : g ∈ Text.scan (fun _ t => visibleAttribute? names t) (a.text front back))
    (hlt : g.start < a.place front) : g.start + g.length ≤ a.place front := by
  by_contra hend
  have htext : a.text front back = (front ++ a.gap) ++
      (a.name ++ '=' :: a.quote :: (a.value ++ a.quote :: back)) := by
    rw [text, write_append, List.append_assoc]
  have hlength : (front ++ a.gap).length = a.place front := List.length_append
  rw [htext] at hg
  rcases Spelling.cases_of_reach hg (by omega) (by omega) with
    ⟨x, y, head, c, z, hcut, hy, hhead, hwrite, more, hc⟩ | h
  · -- A blank stands right before the name, which goes on with no barrier.
    obtain ⟨d, name, hname⟩ := List.exists_cons_of_ne_nil ha.name.1
    rw [hname] at hc
    obtain ⟨rfl, -⟩ := List.cons.inj hc
    have hd := ha.not_isBarrier hnames d (by simp [hname])
    obtain ⟨z', hz'⟩ := Head.exists_of_write_eq hhead hwrite hd
    obtain ⟨gap, b, hgap⟩ := (List.eq_nil_or_concat a.gap).resolve_left ha.gap.1
    obtain ⟨y, e, rfl⟩ := (List.eq_nil_or_concat y).resolve_left hy
    have hlast : b = e := by
      have := congrArg List.getLast? hcut
      simpa [hgap] using this
    have hblank : isBlank b = true := List.all_eq_true.mp ha.gap.2 b (by simp [hgap])
    exact hnames.notMem (isBarrier_of_isBlank hblank) hhead.name (by simp [hz', hlast])
  · refine hopen (h.of_append fun c hc => ?_)
    rw [Bool.eq_false_iff]
    intro hquote
    have hblank := not_isBlank_of_isQuote hquote
    rw [List.all_eq_true.mp ha.gap.2 c hc] at hblank
    cases hblank

/-- Behind no open value the attribute is found, if anything is seen of its value. -/
theorem found_mem (ha : a.WellFormed names) (hnames : Unbroken names)
    (hopen : ¬ OpenValue names front) (hseen : a.seen ≠ []) (back : Text) :
    a.found (a.place front) ∈
      Text.scan (fun _ t => visibleAttribute? names t) (a.text front back) := by
  have hread := visibleAttribute?_text ha hnames hseen front back
  have hplace : a.place front ≤ (a.text front back).length := by
    simp only [place, text, write, List.length_append]
    omega
  obtain ⟨g, hg, hbegin, hend⟩ := Spelling.exists_mem_scan hplace hread
  rcases Nat.lt_or_eq_of_le hbegin with hlt | heq
  · have hle := end_le_place ha hnames hopen hg hlt
    omega
  · rw [Spelling.eq_of_mem_scan hg heq hread] at hg
    exact hg

/-- Nothing is found in the blanks before the name. -/
theorem not_announced_gap (ha : a.WellFormed names) (hnames : Unbroken names) {n : Nat}
    (hn : front.length ≤ n) (hplace : n < a.place front) (back : Text) :
    ¬ Announced names ((a.text front back).drop n) := by
  obtain ⟨m, rfl⟩ := Nat.exists_eq_add_of_le hn
  have hm : m < a.gap.length := by
    rw [place] at hplace
    omega
  have hne : a.gap.drop m ≠ [] := by
    rw [ne_eq, List.drop_eq_nil_iff]
    omega
  obtain ⟨gap, b, hgap⟩ := (List.eq_nil_or_concat (a.gap.drop m)).resolve_left hne
  have hblank : ∀ c ∈ a.gap.drop m, isBlank c = true := fun c hc =>
    List.all_eq_true.mp ha.gap.2 c (List.mem_of_mem_drop hc)
  have hequals : '=' ∉ gap := fun hmem => absurd (hblank '=' (by simp [hgap, hmem])) (by decide)
  have hnot := not_announced_of_gap hnames hequals (hblank b (by simp [hgap])) ha.name.1
    (ha.not_isBarrier hnames) (a.quote :: (a.value ++ a.quote :: back))
  rw [text, write_append, List.drop_length_add_append,
    List.drop_append_of_le_length (Nat.le_of_lt hm), hgap]
  simpa using hnot

/-- Where nothing is seen of the value nothing is found up to the quotes. -/
theorem not_found_of_nil (ha : a.WellFormed names) (hnames : Unbroken names) (hseen : a.seen = [])
    {n : Nat} (hn : n < a.name.length + 3) (back : Text) :
    visibleAttribute? names ((a.text front back).drop (a.place front + n)) = none := by
  obtain ⟨closing, rest, hsplit, hclosing⟩ := ha.exists_closing back
  rw [hseen, List.nil_append] at hsplit
  rw [← List.drop_drop, drop_text, hsplit]
  by_cases hname : n ≤ a.name.length
  · rw [List.drop_append_of_le_length hname, Option.eq_none_iff_forall_ne_some]
    intro read hread
    obtain ⟨s, hs, ⟨u, hu⟩, -⟩ := Spelling.exists_of_visibleAttribute? hread
    have hchars : ∀ c ∈ a.name.drop n, isBarrier c = false := fun c hc =>
      ha.not_isBarrier hnames c (List.mem_of_mem_drop hc)
    exact (Spelling.eq_of_write_append hnames hs hchars ha.quote (List.forall_mem_nil _) hclosing
      hu.symm).2.1 rfl
  · have hquote : ∀ c, isQuote c = true → ∀ u, visibleAttribute? names (c :: u) = none := by
      intro c hc u
      refine visibleAttribute?_of_not_announced (not_announced_of_stop hnames (x := [])
        List.not_mem_nil (fun w hw => hnames.notMem (isBarrier_of_isQuote hc) hw)
        (not_isBlank_of_isQuote hc) ?_ u)
      rintro rfl
      exact absurd hc (by decide)
    obtain rfl | rfl : n = a.name.length + 1 ∨ n = a.name.length + 2 := by omega
    · rw [List.drop_length_add_append]
      exact hquote a.quote ha.quote _
    · rw [List.drop_length_add_append]
      exact hquote closing hclosing rest

end QuotedAttribute

/-- Of an attribute in quotes of one kind that stands outside of comments and behind no open value the
value is seen up to its first quote, so it is seen whole if and only if it holds none. What is seen of
it, if anything is, is found at the name, nothing else is found before the quote that ends it, and
where no selector excludes the place it is extracted. -/
theorem seen_of_quoted {names : List Text} (hnames : ∀ name ∈ names, IsListable name)
    {a : QuotedAttribute} (ha : a.WellFormed (namePatterns names)) {before behind front : Text}
    (hfront : frontOf before (a.write ++ behind) = some front)
    (hopen : ¬ OpenValue (namePatterns names) front) :
    (a.seen = a.value ↔ ∀ c ∈ a.value, isQuote c = false) ∧
    (a.seen ≠ [] → a.found (a.place front) ∈
      visibleAttributes names (stripComments (before ++ (a.write ++ behind)))) ∧
    (∀ f ∈ visibleAttributes names (stripComments (before ++ (a.write ++ behind))),
      front.length ≤ f.start → f.start < a.place front + (a.name.length + a.seen.length + 3) →
        a.seen ≠ [] ∧ f = a.found (a.place front)) ∧
    ∀ (attributes : Option (List Text)) (selectors : List Json),
      attributes.getD defaultVisibleAttributes = names →
      (Exclusion.ofDocument (stripComments (before ++ (a.write ++ behind)))
        (rulesOf selectors)).excludes (a.place front) = false →
      isTranslatable (decodeEntities (Text.strip a.seen)) = true →
        decodeEntities (Text.strip a.seen) ∈
          extract (before ++ (a.write ++ behind)) attributes selectors := by
  have hunbroken := unbroken_of_isListable hnames
  have hstrip : stripComments (before ++ (a.write ++ behind)) = a.text front (stripComments behind) := by
    rw [stripComments_of_frontOf hfront, stripComments_append ha.uncommented, QuotedAttribute.text]
  have hfound : a.seen ≠ [] → a.found (a.place front) ∈
      visibleAttributes names (a.text front (stripComments behind)) := fun hseen =>
    QuotedAttribute.found_mem ha hunbroken hopen hseen (stripComments behind)
  rw [hstrip]
  refine ⟨QuotedAttribute.seen_eq_iff, hfound, fun f hf hstart hstop => ?_,
    fun attributes selectors hattributes hplace htranslatable => ?_⟩
  · obtain ⟨-, hread⟩ := Text.matcher_of_mem_scan hf
    rcases Nat.lt_or_ge f.start (a.place front) with hlt | hge
    · rw [visibleAttribute?_of_not_announced
        (QuotedAttribute.not_announced_gap ha hunbroken hstart hlt _)] at hread
      cases hread
    · by_cases hseen : a.seen = []
      · obtain ⟨n, hn⟩ := Nat.exists_eq_add_of_le hge
        rw [hn, QuotedAttribute.not_found_of_nil ha hunbroken hseen
          (by rw [hseen, List.length_nil] at hstop; omega)] at hread
        cases hread
      · refine ⟨hseen, ?_⟩
        rcases Nat.lt_or_eq_of_le hge with hlt | heq
        · have hend := Text.end_le_of_mem_scan (hfound hseen) hf hlt
          simp only [QuotedAttribute.found] at hend
          omega
        · exact Spelling.eq_of_mem_scan hf heq.symm
            (QuotedAttribute.visibleAttribute?_text ha hunbroken hseen _ _)
  · obtain ⟨hne, hseen⟩ := ne_nil_of_isTranslatable htranslatable
    have hnonempty : names.isEmpty = false := by
      rw [Bool.eq_false_iff, ne_eq, List.isEmpty_iff]
      rintro rfl
      rcases cases_of_listed ha.name.2 with h | ⟨name, hname, -⟩
      · exact ha.name.1 h
      · cases hname
    refine mem_extract_iff.mpr ⟨⟨Text.strip a.seen, ?_, rfl⟩, htranslatable⟩
    rw [hstrip, hattributes]
    refine keeps_append.mpr (.inr ⟨⟨a.place front, a.seen⟩, ?_, hplace, rfl, hne⟩)
    rw [placedValues, hnonempty]
    exact List.mem_map.mpr ⟨_, hfound hseen, rfl⟩

/-- A title with an apostrophe. -/
def apostropheTitle : QuotedAttribute := ⟨" ".toList, "title".toList, '"', "It's here".toList⟩

/-- Of the title only what stands before the apostrophe is extracted. -/
theorem seen_of_quoted_apostropheTitle :
    apostropheTitle.WellFormed (namePatterns ["title".toList]) ∧
      apostropheTitle.seen ≠ apostropheTitle.value ∧
      "It".toList ∈ extract "<p title=\"It's here\">x</p>".toList (some ["title".toList]) [] := by
  have htitle : apostropheTitle.WellFormed (namePatterns ["title".toList]) := by
    refine ⟨by decide, ⟨by decide, ?_⟩, by decide, by decide, ?_⟩
    · exact (listed_namePatterns (by decide) (by decide)).mpr (by decide)
    · exact uncommented_of_notMem (by decide)
  have hfront : frontOf "<p".toList (apostropheTitle.write ++ ">x</p>".toList) = some "<p".toList := by
    decide
  obtain ⟨hwhole, -, -, hextract⟩ := seen_of_quoted (by decide) htitle hfront
    (not_openValue (by decide))
  refine ⟨htitle, by rw [ne_eq, hwhole]; decide, ?_⟩
  exact hextract (some ["title".toList]) [] rfl (by decide) (by decide)

end Localize.Markup
