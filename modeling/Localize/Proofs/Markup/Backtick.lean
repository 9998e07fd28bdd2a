import Localize.Proofs.Markup.Entity
import Localize.Proofs.Markup.Expression
import Localize.Proofs.Markup.Union
import Mathlib.Algebra.Group.Nat.Even

/-!
# Backticks in pairs

Templates are read from an expression by pairing its backticks, the first with the second, the third
with the fourth. An expression holds no closing brace, so within it no interpolation is complete and a
template is never cut: what stands between two paired backticks is read as it is. So a beginning of an
interpolation is extracted if and only if it stands within a pair, which takes another template within
the interpolation.
-/

namespace Localize

namespace Markup

open Text (readings)

variable {content front back expression a b t u : Text} {code : Text} {selectors : List Json}
  {attributes : Option (List Text)}

/-- What begins an interpolation. -/
def interpolationMark : Text := ['$', '\x7b']

theorem interpolationLength_eq_zero (h : '\x7d' ∉ t) : interpolationLength t = 0 := by
  unfold interpolationLength
  split
  · next rest =>
    have hrest : '\x7d' ∉ rest := fun hmem => h (by simp [hmem])
    simp only [takeWhile_ne_of_notMem hrest, decide_true, Bool.or_true, if_true]
  · rfl

/-- Without a closing brace a template is not cut. -/
theorem staticParts_of_notMem (h : '\x7d' ∉ content) : staticParts content = [content] :=
  Text.splitFrom_of_zero fun _ _ hsplit _ =>
    interpolationLength_eq_zero fun hmem => h (hsplit ▸ List.mem_append_right _ hmem)

/-! ### Templates -/

theorem template?_closed (h : '\x60' ∉ content) (rest : Text) :
    template? ('\x60' :: (content ++ '\x60' :: rest)) = some (content, content.length + 2) := by
  simp only [template?, takeWhile_ne_append h, List.length_append, List.length_cons]
  simp

theorem template?_open (h : '\x60' ∉ t) : template? ('\x60' :: t) = none := by
  simp only [template?, takeWhile_ne_of_notMem h]
  simp

theorem template?_of_ne {c : Char} (h : c ≠ '\x60') (rest : Text) : template? (c :: rest) = none := by
  simp [template?, h]

theorem readings_template?_append (h : '\x60' ∉ t) (u : Text) :
    readings template? (t ++ u) = readings template? u :=
  Text.readings_append_of_forall fun _ hc rest => template?_of_ne (ne_of_mem_of_not_mem hc h) rest

theorem readings_template?_of_notMem (h : '\x60' ∉ t) : readings template? t = [] :=
  Text.readings_of_forall rfl fun _ hc rest => template?_of_ne (ne_of_mem_of_not_mem hc h) rest

theorem readings_template?_closed (h : '\x60' ∉ content) (rest : Text) :
    readings template? ('\x60' :: (content ++ '\x60' :: rest)) =
      content :: readings template? rest := by
  have hread : template? (('\x60' :: (content ++ ['\x60'])) ++ rest) =
      some (content, ('\x60' :: (content ++ ['\x60'])).length) := by
    simpa using template?_closed h rest
  simpa using Text.readings_append_of_some (List.cons_ne_nil _ _) hread

theorem readings_template?_open (h : '\x60' ∉ t) : readings template? ('\x60' :: t) = [] := by
  rw [Text.readings_cons_of_none (template?_open h), readings_template?_of_notMem h]

/-- The text stands between two backticks that are paired, an even number of them before it. -/
def Paired (content expression : Text) : Prop := ∃ a b,
  expression = a ++ '\x60' :: (content ++ '\x60' :: b) ∧ '\x60' ∉ content ∧ Even (a.count '\x60')

/-- Two backticks are needed for a pair. -/
theorem not_paired_of_count (h : expression.count '\x60' ≤ 1) : ¬ Paired content expression := by
  rintro ⟨a, b, rfl, -⟩
  simp only [List.count_append, List.count_cons_self] at h
  omega

/-- The first two backticks are a pair, and the others are paired as they are without these two. -/
theorem paired_closed_iff (ha : '\x60' ∉ a) (ht : '\x60' ∉ t) :
    Paired content (a ++ '\x60' :: (t ++ '\x60' :: u)) ↔ content = t ∨ Paired content u := by
  have hcount (x : Text) : (a ++ '\x60' :: (t ++ '\x60' :: x)).count '\x60' = x.count '\x60' + 2 := by
    simp only [List.count_append, List.count_cons_self, List.count_eq_zero.mpr ha,
      List.count_eq_zero.mpr ht]
    omega
  constructor
  · rintro ⟨x, b, hsplit, hcontent, heven⟩
    by_cases hx : '\x60' ∈ x
    · right
      obtain ⟨x', x, rfl, hx'⟩ := List.eq_append_cons_of_mem hx
      simp only [List.append_assoc, List.cons_append] at hsplit
      obtain ⟨rfl, hrest⟩ := Text.separator_append_inj ha hx' hsplit
      -- The second backtick is in front of the text too, since one alone is an odd number.
      have hsecond : '\x60' ∈ x := by
        by_contra hnone
        rw [List.count_append, List.count_cons_self, List.count_eq_zero.mpr ha,
          List.count_eq_zero.mpr hnone] at heven
        exact absurd heven (by decide)
      obtain ⟨y, x, rfl, hy⟩ := List.eq_append_cons_of_mem hsecond
      simp only [List.append_assoc, List.cons_append] at hrest
      obtain ⟨rfl, rfl⟩ := Text.separator_append_inj ht hy hrest
      rw [hcount] at heven
      exact ⟨x, b, rfl, hcontent, by simpa [Nat.even_add] using heven⟩
    · left
      obtain ⟨-, hrest⟩ := Text.separator_append_inj ha hx hsplit
      exact (Text.separator_append_inj ht hcontent hrest).1.symm
  · rintro (rfl | ⟨x, b, rfl, hcontent, heven⟩)
    · exact ⟨a, u, rfl, ht, by rw [List.count_eq_zero.mpr ha]; decide⟩
    · refine ⟨a ++ '\x60' :: (t ++ '\x60' :: x), b, by simp, hcontent, ?_⟩
      rw [hcount]
      exact heven.add (by decide)

/-- A template is what stands between two paired backticks. -/
theorem mem_readings_template?_iff :
    content ∈ readings template? expression ↔ Paired content expression := by
  induction hlength : expression.length using Nat.strongRecOn generalizing expression with
  | ind n ih =>
    subst hlength
    by_cases hfirst : '\x60' ∈ expression
    · obtain ⟨a, rest, rfl, ha⟩ := List.eq_append_cons_of_mem hfirst
      rw [readings_template?_append ha]
      by_cases hsecond : '\x60' ∈ rest
      · obtain ⟨t, u, rfl, ht⟩ := List.eq_append_cons_of_mem hsecond
        rw [readings_template?_closed ht, List.mem_cons, paired_closed_iff ha ht,
          ih u.length (by simp; omega) rfl]
      · have hcount : (a ++ '\x60' :: rest).count '\x60' ≤ 1 := by
          simp [List.count_eq_zero.mpr ha, List.count_eq_zero.mpr hsecond]
        rw [readings_template?_open hsecond]
        exact iff_of_false List.not_mem_nil (not_paired_of_count hcount)
    · have hcount : expression.count '\x60' ≤ 1 := by simp [List.count_eq_zero.mpr hfirst]
      rw [readings_template?_of_notMem hfirst]
      exact iff_of_false List.not_mem_nil (not_paired_of_count hcount)

/-! ### Literals in backticks -/

/-- No backslash stands before a backtick or at the end of a line. -/
def Unescaped (t : Text) : Prop := ∀ x c y, t = x ++ '\\' :: c :: y → c ≠ '\x60' ∧ c ≠ '\n'

theorem unescaped_of_notMem (h : '\\' ∉ t) : Unescaped t := by
  rintro x c y rfl
  exact absurd (by simp) h

theorem Unescaped.suffix (h : Unescaped t) (hu : u <:+ t) : Unescaped u := by
  obtain ⟨z, rfl⟩ := hu
  intro x c y hxy
  exact h (z ++ x) c y (by rw [hxy, List.append_assoc])

/-- A literal ends at the next backtick if none is escaped. -/
theorem Unescaped.literalContent?_eq (h : Unescaped t) : literalContent? '\x60' t =
    if '\x60' ∈ t then some (t.takeWhile (· ≠ '\x60')) else none := by
  fun_induction literalContent? '\x60' t with
  | case1 => rfl
  | case2 rest => simp
  | case3 hc => simp
  | case4 rest hc => exact absurd rfl (h [] '\n' rest rfl).2
  | case5 d rest hc hd ih =>
    have hquote : d ≠ '\x60' := (h [] d rest rfl).1
    rw [ih (h.suffix ⟨['\\', d], rfl⟩)]
    simp [hquote, hquote.symm]
  | case6 c rest hquote hc ih =>
    rw [ih (h.suffix (List.suffix_cons c rest))]
    simp [hquote, Ne.symm hquote]

theorem Unescaped.literal?_eq (h : Unescaped t) : literal? '\x60' t = template? t := by
  cases t with
  | nil => rfl
  | cons c t =>
    by_cases hc : c = '\x60'
    · subst hc
      have ht := (h.suffix (List.suffix_cons '\x60' t)).literalContent?_eq
      by_cases hmem : '\x60' ∈ t
      · obtain ⟨content, rest, rfl, hcontent⟩ := List.eq_append_cons_of_mem hmem
        rw [takeWhile_ne_append hcontent, if_pos hmem] at ht
        rw [template?_closed hcontent, literal?, if_pos rfl, ht]
        rfl
      · rw [if_neg hmem] at ht
        rw [template?_open hmem, literal?, if_pos rfl, ht]
        rfl
    · rw [template?_of_ne hc, literal?, if_neg hc]

/-- Where no backtick is escaped literals and templates are the same. -/
theorem Unescaped.literals_eq (h : Unescaped t) : literals '\x60' t = readings template? t :=
  congrArg (List.map Text.Found.value)
    (Text.matchesFrom_congr (fun _ hbehind => (h.suffix hbehind).literal?_eq) 0)

theorem literalContent?_prefix {quote : Char} (h : literalContent? quote t = some content) :
    ∃ rest, t = content ++ quote :: rest := by
  fun_induction literalContent? quote t generalizing content with
  | case1 => cases h
  | case2 rest =>
    cases h
    exact ⟨rest, rfl⟩
  | case3 => cases h
  | case4 => cases h
  | case5 d rest hc hd ih =>
    obtain ⟨content, hcontent, rfl⟩ := Option.map_eq_some_iff.mp h
    obtain ⟨behind, rfl⟩ := ih hcontent
    exact ⟨behind, rfl⟩
  | case6 c rest hquote hc ih =>
    obtain ⟨content, hcontent, rfl⟩ := Option.map_eq_some_iff.mp h
    obtain ⟨behind, rfl⟩ := ih hcontent
    exact ⟨behind, rfl⟩

/-- A literal stands between two quotes. -/
theorem exists_of_mem_literals {quote : Char} (h : content ∈ literals quote t) :
    ∃ a b, t = a ++ quote :: (content ++ quote :: b) := by
  obtain ⟨f, hf, rfl⟩ := List.mem_map.mp h
  have hread := (Text.matcher_of_mem_scan hf).2
  have hsplit := List.take_append_drop f.start t
  cases hdrop : t.drop f.start with
  | nil =>
    rw [hdrop] at hread
    cases hread
  | cons c rest =>
    rw [hdrop, literal?, Option.ite_none_right_eq_some] at hread
    obtain ⟨rfl, hread⟩ := hread
    obtain ⟨content, hcontent, hvalue⟩ := Option.map_eq_some_iff.mp hread
    obtain ⟨behind, hbehind⟩ := literalContent?_prefix hcontent
    obtain ⟨rfl, -⟩ := Prod.mk.inj hvalue
    exact ⟨t.take f.start, behind, by rw [← hbehind, ← hdrop, hsplit]⟩

/-! ### Beginnings of interpolations -/

/-- An interpolation begins between two backticks that are paired, an odd number of them before it. -/
def Leaks (expression : Text) : Prop := ∃ front back,
  expression = front ++ interpolationMark ++ back ∧ Odd (front.count '\x60') ∧ '\x60' ∈ back

/-- An interpolation begins between two backticks. -/
def Spans (expression : Text) : Prop := ∃ front back,
  expression = front ++ interpolationMark ++ back ∧ '\x60' ∈ front ∧ '\x60' ∈ back

theorem spans_of_infix (h : expression = a ++ '\x60' :: (content ++ '\x60' :: b))
    (hmark : interpolationMark <:+: content) : Spans expression := by
  obtain ⟨front, back, rfl⟩ := hmark
  exact ⟨a ++ '\x60' :: front, back ++ '\x60' :: b, by simp [h], by simp, by simp⟩

/-- In a template stands the beginning of an interpolation if one stands between paired backticks. -/
theorem exists_infix_iff : (∃ content ∈ readings template? expression,
    interpolationMark <:+: content) ↔ Leaks expression := by
  constructor
  · rintro ⟨content, hcontent, front, back, rfl⟩
    obtain ⟨a, b, rfl, hnone, heven⟩ := mem_readings_template?_iff.mp hcontent
    simp only [List.mem_append, not_or] at hnone
    refine ⟨a ++ '\x60' :: front, back ++ '\x60' :: b, by simp, ?_, by simp⟩
    rw [List.count_append, List.count_cons_self, List.count_eq_zero.mpr hnone.1.1]
    exact heven.add_one
  · rintro ⟨front, back, rfl, hodd, hback⟩
    have hfront : '\x60' ∈ front := List.count_pos_iff.mp hodd.pos
    obtain ⟨x, y, rfl, hy⟩ := Text.exists_last_of_mem hfront
    obtain ⟨z, b, rfl, hz⟩ := List.eq_append_cons_of_mem hback
    have hmark : '\x60' ∉ interpolationMark := by decide
    refine ⟨y ++ interpolationMark ++ z, mem_readings_template?_iff.mpr ⟨x, b, by simp, ?_, ?_⟩,
      ⟨y, z, rfl⟩⟩
    · simp only [List.mem_append, not_or]
      exact ⟨⟨hy, hmark⟩, hz⟩
    · rw [List.count_append, List.count_cons_self, List.count_eq_zero.mpr hy] at hodd
      rw [Nat.odd_iff] at hodd
      rw [Nat.even_iff]
      omega

/-! ### Templates of a document -/

/-- The expressions of a document outside of excluded elements. -/
def blocks (code : Text) (selectors : List Json) : List Text :=
  visibleMatches (.ofDocument (stripComments code) (rulesOf selectors)) expression?
    (stripComments code)

/-- The strings that the templates of a document contribute, trimmed. -/
def templateStrings (code : Text) (selectors : List Json) : List Text :=
  trimmed ((blocks code selectors).flatMap templateLiterals)

variable {block : Text}

theorem staticParts_of_mem_blocks (hblock : block ∈ blocks code selectors)
    (h : content ∈ readings template? block) : staticParts content = [content] := by
  obtain ⟨a, b, rfl, -⟩ := mem_readings_template?_iff.mp h
  have hnone := notMem_of_mem_expressions hblock
  simp only [List.mem_append, List.mem_cons, not_or] at hnone
  exact staticParts_of_notMem hnone.2.2.1

theorem mem_templateLiterals_iff (hblock : block ∈ blocks code selectors) :
    content ∈ templateLiterals block ↔
      content ∈ literals '\x60' block ∨ content ∈ readings template? block := by
  have hparts : ∀ found ∈ Text.scan (fun _ t => template? t) block,
      staticParts found.value = [found.value] := fun found hfound =>
    staticParts_of_mem_blocks hblock (List.mem_map_of_mem hfound)
  rw [templateLiterals, List.mem_append, List.flatMap_congr hparts, ← List.map_eq_flatMap]
  rfl

theorem interpolationMark_infix_strip :
    interpolationMark <:+: Text.strip t ↔ interpolationMark <:+: t :=
  Text.infix_strip_iff (List.cons_ne_nil _ _) (by decide)

/-- What a template contributes is more than blanks if it holds a beginning of an interpolation. -/
theorem exists_mem_templateStrings_iff :
    (∃ t ∈ templateStrings code selectors, interpolationMark <:+: t) ↔
      ∃ block ∈ blocks code selectors, ∃ content ∈ templateLiterals block,
        interpolationMark <:+: content := by
  simp only [templateStrings, mem_trimmed, List.mem_flatMap]
  constructor
  · rintro ⟨_, ⟨content, ⟨block, hblock, hcontent⟩, rfl, -⟩, hmark⟩
    exact ⟨block, hblock, content, hcontent, interpolationMark_infix_strip.mp hmark⟩
  · rintro ⟨block, hblock, content, hcontent, hmark⟩
    have hstrip := interpolationMark_infix_strip.mpr hmark
    refine ⟨_, ⟨content, ⟨block, hblock, hcontent⟩, rfl, ?_⟩, hstrip⟩
    intro hnil
    rw [hnil] at hstrip
    cases List.infix_nil.mp hstrip

/-- What the templates contribute is among the strings of literals. -/
theorem templateStrings_subset : templateStrings code selectors ⊆
    literalStrings (.ofDocument (stripComments code) (rulesOf selectors)) (stripComments code) := by
  intro t ht
  obtain ⟨content, hcontent, ht⟩ := mem_trimmed.mp ht
  obtain ⟨block, hblock, hcontent⟩ := List.mem_flatMap.mp hcontent
  exact mem_trimmed.mpr
    ⟨content, List.mem_flatMap.mpr ⟨block, hblock, List.mem_append_right _ hcontent⟩, ht⟩

/-- Within an expression nothing is cut out of a template. So a template with the beginning of an
interpolation is extracted with it, in every document where such a beginning stands between paired
backticks of an expression. It stands between two backticks wherever a string of a template holds one,
and between paired ones if no backtick is escaped. -/
theorem interpolation_leaks_iff (code : Text) (attributes : Option (List Text))
    (selectors : List Json) :
    (∀ block ∈ blocks code selectors, ∀ content ∈ readings template? block,
      staticParts content = [content]) ∧
    (∀ block ∈ blocks code selectors, Leaks block → ∃ t ∈ templateStrings code selectors,
      interpolationMark <:+: t ∧ decodeEntities t ∈ extract code attributes selectors ∧
        interpolationMark <:+: decodeEntities t) ∧
    (∀ t ∈ templateStrings code selectors, interpolationMark <:+: t →
      ∃ block ∈ blocks code selectors, Spans block) ∧
    ((∀ block ∈ blocks code selectors, Unescaped block) →
      ((∃ t ∈ templateStrings code selectors, interpolationMark <:+: t) ↔
        ∃ block ∈ blocks code selectors, Leaks block)) := by
  have hleaks : ∀ block ∈ blocks code selectors, Leaks block →
      ∃ t ∈ templateStrings code selectors, interpolationMark <:+: t := by
    intro block hblock hleaks
    obtain ⟨content, hcontent, hmark⟩ := exists_infix_iff.mpr hleaks
    exact exists_mem_templateStrings_iff.mpr
      ⟨block, hblock, content, (mem_templateLiterals_iff hblock).mpr (.inr hcontent), hmark⟩
  refine ⟨fun _ hblock _ => staticParts_of_mem_blocks hblock, ?_, ?_, ?_⟩
  · intro block hblock hleak
    obtain ⟨t, ht, hmark⟩ := hleaks block hblock hleak
    have hdecoded : interpolationMark <:+: decodeEntities t :=
      infix_decodeEntities (by decide) hmark
    have htranslatable : isTranslatable (decodeEntities t) = true :=
      isTranslatable_of_mem (hdecoded.subset List.mem_cons_self) (by decide) (by decide)
    have hextract : decodeEntities t ∈ extract code attributes selectors :=
      decodeEntities_mem_extract (templateStrings_subset ht) htranslatable
    exact ⟨t, ht, hmark, hextract, hdecoded⟩
  · intro t ht hmark
    obtain ⟨block, hblock, content, hcontent, hmark⟩ :=
      exists_mem_templateStrings_iff.mp ⟨t, ht, hmark⟩
    refine ⟨block, hblock, ?_⟩
    rcases (mem_templateLiterals_iff hblock).mp hcontent with hliteral | htemplate
    · obtain ⟨a, b, hsplit⟩ := exists_of_mem_literals hliteral
      exact spans_of_infix hsplit hmark
    · obtain ⟨a, b, hsplit, -⟩ := mem_readings_template?_iff.mp htemplate
      exact spans_of_infix hsplit hmark
  · intro hunescaped
    refine ⟨?_, fun ⟨block, hblock, hleak⟩ => hleaks block hblock hleak⟩
    intro hstrings
    obtain ⟨block, hblock, content, hcontent, hmark⟩ := exists_mem_templateStrings_iff.mp hstrings
    rw [mem_templateLiterals_iff hblock, (hunescaped block hblock).literals_eq, or_self] at hcontent
    exact ⟨block, hblock, exists_infix_iff.mp ⟨content, hcontent, hmark⟩⟩

/-- A template within an interpolation pairs the first backtick with its own. -/
theorem interpolation_leaks_iff_nested :
    blocks "<p>\x7b\x60$\x7b\x60;\x60\x7d\x60\x7d</p>".toList [] = ["\x60$\x7b\x60;\x60".toList] ∧
    Leaks "\x60$\x7b\x60;\x60".toList ∧ Spans "\x60$\x7b\x60;\x60".toList ∧
    ∃ t ∈ extract "<p>\x7b\x60$\x7b\x60;\x60\x7d\x60\x7d</p>".toList none [],
      interpolationMark <:+: t := by
  have hblocks : blocks "<p>\x7b\x60$\x7b\x60;\x60\x7d\x60\x7d</p>".toList [] =
      ["\x60$\x7b\x60;\x60".toList] := by decide
  have hmark : "$\x7b".toList ∈
      templateStrings "<p>\x7b\x60$\x7b\x60;\x60\x7d\x60\x7d</p>".toList [] := by
    rw [templateStrings, hblocks]
    decide
  have hunescaped : ∀ block ∈ blocks "<p>\x7b\x60$\x7b\x60;\x60\x7d\x60\x7d</p>".toList [],
      Unescaped block := by
    rw [hblocks]
    exact List.forall_mem_singleton.mpr (unescaped_of_notMem (by decide))
  obtain ⟨-, hextracted, hspans, hiff⟩ :=
    interpolation_leaks_iff "<p>\x7b\x60$\x7b\x60;\x60\x7d\x60\x7d</p>".toList none []
  obtain ⟨block, hblock, hleaks⟩ := (hiff hunescaped).mp ⟨_, hmark, List.infix_rfl⟩
  obtain ⟨t, -, -, ht, hin⟩ := hextracted block hblock hleaks
  obtain ⟨block', hblock', hspan⟩ := hspans _ hmark List.infix_rfl
  rw [hblocks, List.mem_singleton] at hblock hblock'
  exact ⟨hblocks, hblock ▸ hleaks, hblock' ▸ hspan, _, ht, hin⟩

end Markup

end Localize
