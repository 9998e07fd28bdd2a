import Localize.Proofs.Markup.Union

/-!
# What a selector names

A rule asks for a tag, an id and classes, and an element that matches has all it asks for. A part
that is missing asks for nothing. So a selector from which a part can be read excludes only elements
that it mentions, and one that is neither blank nor has a part gives a rule that every element
matches.
-/

namespace Localize.Markup

open Text (isNameChar allBlank strip)

variable {mark : Char} {name t s : Text} {rule : Rule} {tag : Tag}

/-! ### Marked names -/

/-- A mark stands right before a character of ids and classes. -/
def Marked (mark : Char) (t : Text) : Prop := ∃ c, isIdentChar c = true ∧ [mark, c] <:+: t

theorem Marked.mem (h : Marked mark t) : mark ∈ t := by
  obtain ⟨c, -, hstands⟩ := h
  exact hstands.subset List.mem_cons_self

/-- The name of an id or a class. -/
def IsIdent (name : Text) : Prop := name ≠ [] ∧ ∀ c ∈ name, isIdentChar c = true

theorem exists_of_markedName? {n : Nat} (h : markedName? mark t = some (name, n)) :
    ∃ rest, t = mark :: (name ++ rest) ∧ IsIdent name ∧
      ∀ c ∈ rest.head?, isIdentChar c = false := by
  cases t with
  | nil => cases h
  | cons d t =>
    simp only [markedName?, Bool.and_eq_true, decide_eq_true_eq, Bool.not_eq_true',
      List.isEmpty_eq_false_iff] at h
    split_ifs at h with hmark
    obtain ⟨rfl, -⟩ := Prod.mk.inj (Option.some.inj h)
    refine ⟨t.dropWhile isIdentChar, ?_, ⟨hmark.2, fun c => List.mem_takeWhile_imp⟩, ?_⟩
    · rw [List.takeWhile_append_dropWhile, hmark.1]
    · intro c hc
      have hhead := List.head?_dropWhile_not isIdentChar t
      rwa [Option.mem_def.mp hc] at hhead

theorem markedName?_eq_none_iff :
    markedName? mark t = none ↔ ∀ c rest, t = mark :: c :: rest → isIdentChar c = false := by
  cases t with
  | nil => simp [markedName?]
  | cons d t =>
    cases t with
    | nil => simp [markedName?]
    | cons c rest =>
      by_cases hc : isIdentChar c = true
      · simp [markedName?, hc]
      · simp [markedName?, hc]

theorem not_marked_iff :
    ¬ Marked mark t ↔ ∀ behind, behind <:+ t → markedName? mark behind = none := by
  simp only [markedName?_eq_none_iff]
  constructor
  · rintro h behind ⟨front, rfl⟩ c rest rfl
    rw [Bool.eq_false_iff]
    exact fun hc => h ⟨c, hc, front, rest, by simp⟩
  · rintro h ⟨c, hc, front, rest, rfl⟩
    have hnot := h ([mark, c] ++ rest) ⟨front, by simp⟩ c rest rfl
    rw [hc] at hnot
    cases hnot

/-- The first marked name is taken out of a text together with its mark. -/
theorem exists_of_firstMatch?
    (h : Text.firstMatch? (fun u => (markedName? mark u).map (·.1)) t = some name) :
    ∃ front rest, t = front ++ mark :: (name ++ rest) ∧
      Text.replaceFirst (mark :: name) [] t = front ++ rest ∧
      IsIdent name ∧ ∀ c ∈ rest.head?, isIdentChar c = false := by
  induction t with
  | nil => cases h
  | cons d t ih =>
    rw [Text.firstMatch?] at h
    cases hfirst : markedName? mark (d :: t) with
    | some found =>
      obtain ⟨name', n⟩ := found
      rw [hfirst] at h
      obtain rfl : name' = name := Option.some.inj h
      obtain ⟨rest, ht, hname, hrest⟩ := exists_of_markedName? hfirst
      obtain ⟨rfl, rfl⟩ := List.cons.inj ht
      have hstart : Text.afterStart? (d :: name') (d :: (name' ++ rest)) = some rest :=
        Text.afterStart?_eq_some_iff.mpr rfl
      exact ⟨[], rest, rfl, by simp [Text.replaceFirst, Text.cutAt?, hstart], hname, hrest⟩
    | none =>
      rw [hfirst] at h
      obtain ⟨front, rest, rfl, hreplace, hname, hrest⟩ := ih h
      refine ⟨d :: front, rest, rfl, ?_, hname, hrest⟩
      -- No marked name begins here, so the one taken out does not.
      have hstart : Text.afterStart? (mark :: name) (d :: (front ++ mark :: (name ++ rest))) =
          none := by
        rw [Option.eq_none_iff_forall_ne_some]
        intro behind hbehind
        obtain ⟨c, name, rfl⟩ := List.exists_cons_of_ne_nil hname.1
        rw [Text.afterStart?_eq_some_iff.mp hbehind, List.cons_append, List.cons_append,
          markedName?_eq_none_iff] at hfirst
        have hnot := hfirst c (name ++ behind) rfl
        rw [hname.2 c List.mem_cons_self] at hnot
        cases hnot
      rw [List.cons_append, Text.replaceFirst_cons hstart, hreplace]

/-! ### Parts of a rule -/

/-- The rule asks for something that the element has: its tag, its id or one of its classes. -/
def Rule.Names (rule : Rule) (tag : Tag) : Prop :=
  rule.tag = some tag.name ∨ (∃ id, rule.id = some id ∧ tag.id = some id) ∨
    ∃ c ∈ rule.classes, c ∈ tag.classes

/-- The rule of a selector without any part. -/
def Rule.empty : Rule := ⟨none, none, []⟩

theorem Rule.matches_empty (tag : Tag) : Rule.empty.matches tag = true := rfl

/-- An element has all that a rule asks for that it matches. -/
theorem Rule.names_of_matches (h : rule.matches tag = true) (hpart : rule ≠ .empty) :
    rule.Names tag := by
  obtain ⟨ruleTag, ruleId, ruleClasses⟩ := rule
  simp only [Rule.matches, Bool.and_eq_true] at h
  obtain ⟨⟨htag, hid⟩, hclasses⟩ := h
  cases ruleTag with
  | some name => exact .inl (congrArg some (by simpa using htag))
  | none =>
    cases ruleId with
    | some id => exact .inr (.inl ⟨id, rfl, by simpa using hid⟩)
    | none =>
      cases ruleClasses with
      | nil => exact absurd rfl hpart
      | cons c classes =>
        have hc : c ∈ tag.classes := by
          simpa using List.all_eq_true.mp hclasses c List.mem_cons_self
        exact .inr (.inr ⟨c, List.mem_cons_self, hc⟩)

/-- A selector begins with a name, or has the mark of an id or of a class right before a character
of ids and classes. -/
def HasPart (selector : Text) : Prop :=
  (∃ c ∈ selector.head?, isNameChar c = true) ∨ Marked '#' selector ∨ Marked '.' selector

/-- In the selector stands what the element has: its tag at the beginning, letter case ignored, its
id or one of its classes behind the mark. -/
def Mentions (selector : Text) (tag : Tag) : Prop :=
  (∃ name, name ≠ [] ∧ name <+: selector ∧ Text.lower name = tag.name) ∨
    (∃ id, tag.id = some id ∧ '#' :: id <:+: selector) ∨ ∃ c ∈ tag.classes, '.' :: c <:+: selector

theorem firstMatch?_marked_eq_none_iff :
    Text.firstMatch? (fun u => (markedName? mark u).map (·.1)) t = none ↔ ¬ Marked mark t := by
  simp only [Text.firstMatch?_eq_none_iff, Option.map_eq_none_iff, not_marked_iff]

theorem scan_marked_eq_nil_iff :
    (Text.scan (fun _ u => markedName? mark u) t).map (·.value) = [] ↔ ¬ Marked mark t := by
  rw [List.map_eq_nil_iff, Text.scan_eq_nil_iff, not_marked_iff]

/-- What follows the tag of a selector. -/
def behindTag (s : Text) : Text := (strip s).dropWhile isNameChar

theorem id_ofSelector (s : Text) : (Rule.ofSelector s).id =
    Text.firstMatch? (fun u => (markedName? '#' u).map (·.1)) (behindTag s) := rfl

theorem classes_ofSelector_of_no_id (h : (Rule.ofSelector s).id = none) :
    (Rule.ofSelector s).classes =
      (Text.scan (fun _ u => markedName? '.' u) (behindTag s)).map (·.value) := by
  rw [id_ofSelector, behindTag] at h
  simp only [Rule.ofSelector, h]
  rfl

theorem classes_ofSelector_of_id (h : (Rule.ofSelector s).id = some name) :
    (Rule.ofSelector s).classes = (Text.scan (fun _ u => markedName? '.' u)
      (Text.replaceFirst ('#' :: name) [] (behindTag s))).map (·.value) := by
  rw [id_ofSelector, behindTag] at h
  simp only [Rule.ofSelector, h]
  rfl

/-- A selector without any part gives the rule without any part, and no other does. -/
theorem ofSelector_eq_empty_iff : Rule.ofSelector s = .empty ↔ ¬ HasPart (strip s) := by
  by_cases hname : ∃ c ∈ (strip s).head?, isNameChar c = true
  · refine ⟨fun hempty => ?_, fun hnone => absurd (.inl hname) hnone⟩
    obtain ⟨c, hc, hchar⟩ := hname
    have htag : (Rule.ofSelector s).tag = none := congrArg Rule.tag hempty
    cases hs : strip s with
    | nil => simp [hs] at hc
    | cons d t =>
      obtain rfl : d = c := by simpa [hs] using hc
      simp [Rule.ofSelector, hs, hchar] at htag
  · have hfirst : ∀ c ∈ (strip s).head?, isNameChar c = false := fun c hc =>
      Bool.eq_false_iff.mpr fun hchar => hname ⟨c, hc, hchar⟩
    have htag : (Rule.ofSelector s).tag = none := by
      have htake := takeWhile_append_left (l := []) hfirst
      rw [List.nil_append] at htake
      simp [Rule.ofSelector, htake]
    have hbehind : behindTag s = strip s :=
      dropWhile_append_of_head (t := []) (fun _ hc => absurd hc List.not_mem_nil) hfirst
    have hid : (Rule.ofSelector s).id = none ↔ ¬ Marked '#' (strip s) := by
      rw [id_ofSelector, hbehind, firstMatch?_marked_eq_none_iff]
    rw [HasPart, or_iff_right hname, not_or, ← hid]
    constructor
    · intro hempty
      have hnone : (Rule.ofSelector s).id = none := congrArg Rule.id hempty
      have hclasses : (Rule.ofSelector s).classes = [] := congrArg Rule.classes hempty
      rw [classes_ofSelector_of_no_id hnone, hbehind, scan_marked_eq_nil_iff] at hclasses
      exact ⟨hnone, hclasses⟩
    · rintro ⟨hnone, hmarked⟩
      have hclasses : (Rule.ofSelector s).classes = [] := by
        rw [classes_ofSelector_of_no_id hnone, hbehind, scan_marked_eq_nil_iff]
        exact hmarked
      calc Rule.ofSelector s
          = ⟨(Rule.ofSelector s).tag, (Rule.ofSelector s).id, (Rule.ofSelector s).classes⟩ := rfl
        _ = .empty := by rw [htag, hnone, hclasses, Rule.empty]

/-- What is taken out of a text brings no class together that was not there before. -/
theorem infix_of_infix_append {front rest : Text} (hname : IsIdent name)
    (hrest : ∀ c ∈ rest.head?, isIdentChar c = false) (h : '.' :: name <:+: front ++ rest) :
    '.' :: name <:+: front ∨ '.' :: name <:+: rest := by
  rcases List.infix_append_iff_ne_nil.mp h with hfront | hbehind | hacross
  · exact .inl hfront
  · exact .inr hbehind
  · obtain ⟨left, right, hleft, hright, heq, -, hprefix⟩ := hacross
    obtain ⟨d, left, rfl⟩ := List.exists_cons_of_ne_nil hleft
    obtain ⟨c, right, rfl⟩ := List.exists_cons_of_ne_nil hright
    obtain ⟨behind, rfl⟩ := hprefix
    have hc : c ∈ name := by
      rw [(List.cons.inj heq).2]
      simp
    have hnot := hrest c rfl
    rw [hname.2 c hc] at hnot
    cases hnot

theorem infix_of_mem_scan
    (h : name ∈ (Text.scan (fun _ u => markedName? mark u) t).map (·.value)) :
    mark :: name <:+: t ∧ IsIdent name := by
  obtain ⟨f, hf, rfl⟩ := List.mem_map.mp h
  obtain ⟨-, hread⟩ := Text.matcher_of_mem_scan hf
  obtain ⟨rest, ht, hname, -⟩ := exists_of_markedName? hread
  refine ⟨⟨t.take f.start, rest, ?_⟩, hname⟩
  rw [List.append_assoc, List.cons_append, ← ht, List.take_append_drop]

theorem behindTag_suffix (s : Text) : behindTag s <:+ strip s := List.dropWhile_suffix isNameChar

/-- A class of a rule stands behind its mark in the selector. -/
theorem infix_of_mem_classes (h : name ∈ (Rule.ofSelector s).classes) :
    '.' :: name <:+: strip s := by
  refine List.IsInfix.trans ?_ (behindTag_suffix s).isInfix
  cases hid : (Rule.ofSelector s).id with
  | none =>
    rw [classes_ofSelector_of_no_id hid] at h
    exact (infix_of_mem_scan h).1
  | some id =>
    rw [classes_ofSelector_of_id hid] at h
    rw [id_ofSelector] at hid
    obtain ⟨front, rest, hbehind, hreplace, -, hrest⟩ := exists_of_firstMatch? hid
    rw [hreplace] at h
    obtain ⟨hstands, hname⟩ := infix_of_mem_scan h
    rw [hbehind]
    rcases infix_of_infix_append hname hrest hstands with hfront | hlater
    · exact List.infix_append_of_infix_left hfront
    · have hafter : rest <:+ '#' :: (id ++ rest) := ⟨'#' :: id, rfl⟩
      exact List.infix_append_of_infix_right (hlater.trans hafter.isInfix)

theorem mentions_of_names (h : (Rule.ofSelector s).Names tag) : Mentions (strip s) tag := by
  rcases h with htag | ⟨id, hid, hhas⟩ | ⟨c, hc, hhas⟩
  · refine .inl ⟨(strip s).takeWhile isNameChar, ?_, List.takeWhile_prefix isNameChar, ?_⟩
    · rintro hnil
      simp [Rule.ofSelector, hnil] at htag
    · simp only [Rule.ofSelector] at htag
      split_ifs at htag with hempty
      exact Option.some.inj htag
  · rw [id_ofSelector] at hid
    obtain ⟨front, rest, hbehind, -⟩ := exists_of_firstMatch? hid
    refine .inr (.inl ⟨id, hhas, List.IsInfix.trans ?_ (behindTag_suffix s).isInfix⟩)
    exact ⟨front, rest, by rw [hbehind]; simp⟩
  · exact .inr (.inr ⟨c, hhas, infix_of_mem_classes hc⟩)

/-! ### Elements that match -/

theorem mem_rulesOf_singleton :
    rule ∈ rulesOf [.str s] ↔ allBlank s = false ∧ rule = .ofSelector s := by
  by_cases hblank : allBlank s = true
  · simp [rulesOf, hblank]
  · simp [rulesOf, hblank]

/-- Where a rule without any part is in force, all that stands within an element is excluded. -/
theorem excludes_of_empty {rules : List Rule} (h : .empty ∈ rules) (code : Text) (position : Nat) :
    (Exclusion.ofDocument code rules).excludes position = true ↔ openAt code position ≠ [] := by
  rw [excludes_iff]
  constructor
  · rintro ⟨tag, htag, -⟩
    exact List.ne_nil_of_mem htag
  · intro hopen
    obtain ⟨tag, htag⟩ := List.exists_mem_of_ne_nil _ hopen
    exact ⟨tag, htag, matchesAny_iff.mpr ⟨.empty, h, Rule.matches_empty tag⟩⟩

/-- A selector excludes only elements that it names and mentions, if it is blank or has a part. Any
other selector is matched by every element, so that all that stands within an element is
excluded. -/
theorem names_of_matches_iff (s : Text) :
    ((∀ rule ∈ rulesOf [.str s], ∀ tag, rule.matches tag = true →
        rule.Names tag ∧ Mentions (strip s) tag) ↔
      allBlank s = true ∨ HasPart (strip s)) ∧
    (allBlank s = false → ¬ HasPart (strip s) → ∀ selectors, Json.str s ∈ selectors →
      ∀ code position, (Exclusion.ofDocument code (rulesOf selectors)).excludes position = true ↔
        openAt code position ≠ []) := by
  refine ⟨⟨fun hall => ?_, fun hpart rule hrule tag hmatch => ?_⟩, ?_⟩
  · by_contra hneither
    obtain ⟨hblank, hnone⟩ := not_or.mp hneither
    have hrule : Rule.empty ∈ rulesOf [.str s] := mem_rulesOf_singleton.mpr
      ⟨Bool.eq_false_iff.mpr hblank, (ofSelector_eq_empty_iff.mpr hnone).symm⟩
    -- An element without a name, an id and classes shows it.
    obtain ⟨hnames, -⟩ := hall .empty hrule ⟨[], none, [], 0⟩ (Rule.matches_empty _)
    rcases hnames with htag | ⟨id, hid, -⟩ | ⟨c, hc, -⟩
    · cases htag
    · cases hid
    · cases hc
  · obtain ⟨hblank, rfl⟩ := mem_rulesOf_singleton.mp hrule
    have hpart : HasPart (strip s) := hpart.resolve_left (by rw [hblank]; exact Bool.false_ne_true)
    have hnames := Rule.names_of_matches hmatch fun hempty =>
      ofSelector_eq_empty_iff.mp hempty hpart
    exact ⟨hnames, mentions_of_names hnames⟩
  · intro hblank hnone selectors hmem
    refine excludes_of_empty (rulesOf_subset (List.cons_subset.mpr ⟨hmem, List.nil_subset _⟩) ?_)
    exact mem_rulesOf_singleton.mpr ⟨hblank, (ofSelector_eq_empty_iff.mpr hnone).symm⟩

/-- A star is no part of a selector, so with it every text within an element is left out. -/
theorem names_of_matches_iff_star :
    allBlank "*".toList = false ∧ ¬ HasPart (strip "*".toList) ∧
      (Exclusion.ofDocument "<p>Hi</p>".toList (rulesOf [.str "*".toList])).excludes 3 = true ∧
      ¬ ∀ rule ∈ rulesOf [.str "*".toList], ∀ tag, rule.matches tag = true →
        rule.Names tag ∧ Mentions (strip "*".toList) tag := by
  have hnone : ¬ HasPart (strip "*".toList) := by
    rintro (⟨c, hc, hchar⟩ | hid | hclass)
    · obtain rfl : '*' = c := Option.some.inj hc
      exact absurd hchar (by decide)
    · exact absurd hid.mem (by decide)
    · exact absurd hclass.mem (by decide)
  obtain ⟨hnames, hexcluded⟩ := names_of_matches_iff "*".toList
  refine ⟨by decide, hnone, ?_, fun hall => ?_⟩
  · exact (hexcluded (by decide) hnone [.str "*".toList] List.mem_cons_self
      "<p>Hi</p>".toList 3).mpr (by decide)
  · exact (hnames.mp hall).elim (by decide) hnone

end Localize.Markup
