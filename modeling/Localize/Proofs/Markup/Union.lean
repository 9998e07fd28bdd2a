import Localize.Proofs.Markup.Exactness
import Localize.Proofs.Markup.Nesting
import Localize.Proofs.Text.Order
import Mathlib.Data.List.Sort

/-!
# Excluding is a union

A place is excluded when an element open there matches a rule, and which elements are open there is
a matter of the document alone. So rules exclude together what each of them excludes. The strings of
a document stand at places that no selector has a say in, and a string is extracted when one of its
places is not excluded: more selectors leave out more, and neither their order nor their number
matters.
-/

namespace Localize.Markup

/-! ### Excluded places -/

/-- The elements open strictly before a position, outermost first, whatever the rules are. -/
def openAt (code : Text) (position : Nat) : List Tag :=
  ((tagsBefore code position).foldl replay []).reverse

variable {code : Text} {rules rules' : List Rule} {position : Nat} {tag : Tag}

theorem matchesAny_iff : matchesAny rules tag = true ↔ ∃ rule ∈ rules, rule.matches tag = true :=
  List.any_eq_true

theorem excludes_iff : (Exclusion.ofDocument code rules).excludes position = true ↔
    ∃ tag ∈ openAt code position, matchesAny rules tag = true := by
  by_cases hrules : rules = []
  · subst hrules
    constructor
    · nofun
    · rintro ⟨tag, -, hnone⟩
      exact absurd hnone Bool.false_ne_true
  · rw [Exclusion.excludes, openTags_ofDocument code hrules, List.any_eq_true]
    rfl

theorem excludes_append : (Exclusion.ofDocument code (rules ++ rules')).excludes position = true ↔
    (Exclusion.ofDocument code rules).excludes position = true ∨
      (Exclusion.ofDocument code rules').excludes position = true := by
  simp only [excludes_iff, matchesAny, List.any_append, Bool.or_eq_true, and_or_left, exists_or]

theorem excludes_mono (h : rules ⊆ rules')
    (hexcluded : (Exclusion.ofDocument code rules).excludes position = true) :
    (Exclusion.ofDocument code rules').excludes position = true := by
  obtain ⟨tag, htag, hmatch⟩ := excludes_iff.mp hexcluded
  obtain ⟨rule, hrule, hmatch⟩ := matchesAny_iff.mp hmatch
  exact excludes_iff.mpr ⟨tag, htag, matchesAny_iff.mpr ⟨rule, h hrule, hmatch⟩⟩

theorem rulesOf_subset {selectors others : List Json} (h : selectors ⊆ others) :
    rulesOf selectors ⊆ rulesOf others :=
  List.filterMap_subset _ h

/-! ### Strings and their places -/

/-- A text that is read in a document, and the place that has to be outside of excluded elements. -/
structure PlacedText where
  place : Nat
  text : Text
  deriving DecidableEq

/-- The texts between tags. -/
def placedRuns (code : Text) : List PlacedText :=
  (Text.scan (fun _ t => textRun? t) code).map fun f => ⟨f.start, f.value⟩

/-- The literals of the expressions in braces. -/
def placedLiterals (code : Text) : List PlacedText :=
  (Text.scan (fun _ t => expression? t) code).flatMap fun f =>
    (expressionLiterals f.value).map (⟨f.start, ·⟩)

/-- The values of the attributes of some names. -/
def placedValues (names : List Text) (code : Text) : List PlacedText :=
  if names.isEmpty then []
  else
    (Text.scan (fun _ t => visibleAttribute? (namePatterns names) t) code).map fun f =>
      ⟨f.start, f.value.value⟩

/-- All that is read in a document. -/
def placedTexts (names : List Text) (code : Text) : List PlacedText :=
  placedRuns code ++ placedLiterals code ++ placedValues names code

variable {x : Exclusion} {names : List Text} {t : Text}

theorem mem_visibleMatches {α : Type} {matcher : Text → Option (α × Nat)} {a : α} :
    a ∈ visibleMatches x matcher code ↔ ∃ f ∈ Text.scan (fun _ t => matcher t) code,
      x.excludes f.start = false ∧ f.value = a := by
  simp only [visibleMatches, List.mem_map, List.mem_filter, Bool.not_eq_true', and_assoc]

/-- The texts that are left of those read, trimmed. -/
def Exclusion.Keeps (x : Exclusion) (texts : List PlacedText) (t : Text) : Prop :=
  ∃ p ∈ texts, x.excludes p.place = false ∧ Text.strip p.text = t ∧ t ≠ []

theorem mem_textRuns : t ∈ textRuns x code ↔ x.Keeps (placedRuns code) t := by
  simp only [textRuns, mem_trimmed, mem_visibleMatches, Exclusion.Keeps, placedRuns, List.mem_map]
  constructor
  · rintro ⟨_, ⟨f, hf, hplace, rfl⟩, ht⟩
    exact ⟨_, ⟨f, hf, rfl⟩, hplace, ht⟩
  · rintro ⟨_, ⟨f, hf, rfl⟩, hplace, ht⟩
    exact ⟨_, ⟨f, hf, hplace, rfl⟩, ht⟩

theorem mem_literalStrings : t ∈ literalStrings x code ↔ x.Keeps (placedLiterals code) t := by
  simp only [literalStrings, mem_trimmed, List.mem_flatMap, mem_visibleMatches, Exclusion.Keeps,
    placedLiterals, List.mem_map]
  constructor
  · rintro ⟨literal, ⟨_, ⟨f, hf, hplace, rfl⟩, hliteral⟩, ht⟩
    exact ⟨_, ⟨f, hf, literal, hliteral, rfl⟩, hplace, ht⟩
  · rintro ⟨_, ⟨f, hf, literal, hliteral, rfl⟩, hplace, ht⟩
    exact ⟨literal, ⟨_, ⟨f, hf, hplace, rfl⟩, hliteral⟩, ht⟩

/-- The strings of attributes are the values outside of excluded elements. -/
theorem attributeStrings_eq_trimmed (x : Exclusion) (names : List Text) (code : Text) :
    attributeStrings x names code =
      trimmed (((placedValues names code).filter fun p => !x.excludes p.place).map
        PlacedText.text) := by
  rw [attributeStrings, placedValues]
  split
  · rfl
  · rw [visibleMatches, List.filter_map, List.map_map, List.map_map]
    rfl

theorem mem_attributeStrings :
    t ∈ attributeStrings x names code ↔ x.Keeps (placedValues names code) t := by
  simp only [attributeStrings_eq_trimmed, mem_trimmed, List.mem_map, List.mem_filter,
    Bool.not_eq_true', Exclusion.Keeps]
  constructor
  · rintro ⟨_, ⟨p, ⟨hp, hplace⟩, rfl⟩, ht⟩
    exact ⟨p, hp, hplace, ht⟩
  · rintro ⟨p, hp, hplace, ht⟩
    exact ⟨p.text, ⟨p, ⟨hp, hplace⟩, rfl⟩, ht⟩

theorem keeps_append {texts texts' : List PlacedText} :
    x.Keeps (texts ++ texts') t ↔ x.Keeps texts t ∨ x.Keeps texts' t := by
  simp only [Exclusion.Keeps, List.mem_append, or_and_right, exists_or]

/-- A string is extracted if it is to be translated and is read, trimmed and decoded, at a place
that no selector excludes. -/
theorem mem_extract_iff {attributes : Option (List Text)} {selectors : List Json} :
    t ∈ extract code attributes selectors ↔
      (∃ u, (Exclusion.ofDocument (stripComments code) (rulesOf selectors)).Keeps
        (placedTexts (attributes.getD defaultVisibleAttributes) (stripComments code)) u ∧
        decodeEntities u = t) ∧ isTranslatable t = true := by
  rw [extract, Text.mem_sortedSet, List.mem_filter, List.mem_map]
  simp only [List.mem_append, mem_textRuns, mem_literalStrings, mem_attributeStrings, placedTexts,
    keeps_append]

/-- The strings of literals are extracted, decoded, if they are to be translated. -/
theorem decodeEntities_mem_extract {attributes : Option (List Text)} {selectors : List Json}
    (h : t ∈ literalStrings (.ofDocument (stripComments code) (rulesOf selectors))
      (stripComments code)) (htranslatable : isTranslatable (decodeEntities t) = true) :
    decodeEntities t ∈ extract code attributes selectors := by
  refine mem_extract_iff.mpr ⟨⟨t, ?_, rfl⟩, htranslatable⟩
  exact keeps_append.mpr (.inl (keeps_append.mpr (.inr (mem_literalStrings.mp h))))

/-- No string that is extracted is blank. -/
theorem notBlank_of_mem_extract {attributes : Option (List Text)} {selectors : List Json}
    (h : t ∈ extract code attributes selectors) : Text.allBlank t = false := by
  obtain ⟨-, htranslatable⟩ := mem_extract_iff.mp h
  simp only [isTranslatable, Bool.and_eq_true, Bool.not_eq_true'] at htranslatable
  exact htranslatable.1.2

theorem pairwise_extract (code : Text) (attributes : Option (List Text)) (selectors : List Json) :
    (extract code attributes selectors).Pairwise (· < ·) :=
  Text.pairwise_sortedSet _

/-! ### More selectors -/

theorem Exclusion.Keeps.of_fewer {y : Exclusion} {texts : List PlacedText}
    (h : ∀ p, y.excludes p = true → x.excludes p = true) (ht : x.Keeps texts t) :
    y.Keeps texts t := by
  obtain ⟨p, hp, hplace, ht⟩ := ht
  refine ⟨p, hp, ?_, ht⟩
  rw [Bool.eq_false_iff] at hplace ⊢
  exact fun hexcluded => hplace (h p.place hexcluded)

theorem extract_subset (code : Text) (attributes : Option (List Text))
    {selectors others : List Json} (h : selectors ⊆ others) :
    extract code attributes others ⊆ extract code attributes selectors := by
  intro t ht
  obtain ⟨⟨u, hu, hdecoded⟩, htranslatable⟩ := mem_extract_iff.mp ht
  have hfewer : ∀ p,
      (Exclusion.ofDocument (stripComments code) (rulesOf selectors)).excludes p = true →
        (Exclusion.ofDocument (stripComments code) (rulesOf others)).excludes p = true :=
    fun _ => excludes_mono (rulesOf_subset h)
  exact mem_extract_iff.mpr ⟨⟨u, hu.of_fewer hfewer, hdecoded⟩, htranslatable⟩

/-- In every document and at every position two lists of rules exclude together what one of them
excludes. From every document more selectors extract no string that fewer do not, and selectors in
another order, or given more than once, extract the same. -/
theorem excluding_is_union (code : Text) (attributes : Option (List Text))
    (selectors others : List Json) :
    (∀ document rules rules' position,
      (Exclusion.ofDocument document (rules ++ rules')).excludes position = true ↔
        (Exclusion.ofDocument document rules).excludes position = true ∨
          (Exclusion.ofDocument document rules').excludes position = true) ∧
    extract code attributes (selectors ++ others) ⊆ extract code attributes selectors ∧
    ∀ again : List Json, (∀ selector, selector ∈ again ↔ selector ∈ selectors) →
      extract code attributes again = extract code attributes selectors := by
  refine ⟨fun _ _ _ _ => excludes_append,
    extract_subset code attributes (List.subset_append_left selectors others), ?_⟩
  -- Both are sorted sets, so it is enough that they hold the same strings.
  intro again hagain
  have hsame : ∀ t, t ∈ extract code attributes again ↔ t ∈ extract code attributes selectors :=
    fun t => ⟨fun ht => extract_subset code attributes (fun s hs => (hagain s).mpr hs) ht,
      fun ht => extract_subset code attributes (fun s hs => (hagain s).mp hs) ht⟩
  exact (pairwise_extract code attributes again).eq_of_mem_iff
    (pairwise_extract code attributes selectors) hsame

/-- The same two selectors the other way round, and one of them twice. -/
theorem excluding_is_union_reordered :
    (∀ selector, selector ∈ [Json.str "i".toList, .str "b".toList, .str "i".toList] ↔
      selector ∈ [Json.str "b".toList, .str "i".toList]) ∧
    extract "<p>One</p><b>Two</b><i title='Four'>Three</i>".toList none
      [.str "i".toList, .str "b".toList, .str "i".toList] = ["One".toList] := by
  have hsame : ∀ selector, selector ∈ [Json.str "i".toList, .str "b".toList, .str "i".toList] ↔
      selector ∈ [Json.str "b".toList, .str "i".toList] := by
    intro selector
    simp only [List.mem_cons, List.not_mem_nil, or_false]
    tauto
  refine ⟨hsame, ?_⟩
  rw [(excluding_is_union "<p>One</p><b>Two</b><i title='Four'>Three</i>".toList none
    [.str "b".toList, .str "i".toList] []).2.2 _ hsame]
  decide

end Localize.Markup
