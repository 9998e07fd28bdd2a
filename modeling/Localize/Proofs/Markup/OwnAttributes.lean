import Localize.Proofs.Markup.Cut
import Localize.Proofs.Markup.Union

/-!
# Attributes of an excluded element

An attribute stands within a tag, behind its `<`, so the tag itself is among those replayed before
the attribute. A tag that opens an element has pushed it by then, and where the element matches a
rule the attribute is excluded with it. A tag that closes itself pushes nothing: its attributes are
excluded only where an element around it matches, whatever its own name, id and classes are. So an
element without content is treated differently when it is written as one tag and when it is written
as two; before and behind the element the two documents are alike.
-/

namespace Localize.Markup

/-- The element of a tag, with the id and classes that its attributes give. -/
def WrittenTag.element (w : WrittenTag) (position : Nat) : Tag :=
  .ofAttributes (Text.lower w.name) w.attributes position

/-- What the attributes within a tag say, if they are of some names. -/
def ownValues (names : List Text) (code : Text) (tag : Text.Found WrittenTag) : List PlacedText :=
  (placedValues names code).filter fun p => tag.start < p.place ∧ p.place < tag.start + tag.length

variable {code : Text} {tag : Text.Found WrittenTag} {rules : List Rule} {position : Nat}

/-! ### Within a tag -/

/-- The tag itself has a say within it only if it opens an element. -/
theorem excludes_within_iff (h : tag ∈ writtenTags code) (hclosing : tag.value.closing = false)
    (hstart : tag.start < position) (hstop : position ≤ tag.start + tag.length) :
    (Exclusion.ofDocument code rules).excludes position = true ↔
      (Exclusion.ofDocument code rules).excludes tag.start = true ∨
        (endsWithSlash tag.value.attributes = false ∧
          matchesAny rules (tag.value.element tag.start) = true) := by
  rw [excludes_iff, excludes_iff, openAt, openAt, tagsBefore_within h hstart hstop,
    List.foldl_append]
  simp only [List.mem_reverse, List.foldl_cons, List.foldl_nil]
  cases hslash : endsWithSlash tag.value.attributes with
  | true => simp [eventOf, TagEvent.ofWritten, hclosing, hslash, replay]
  | false =>
    simp [eventOf, TagEvent.ofWritten, hclosing, hslash, replay, WrittenTag.element,
      or_comm]

/-- A tag that opens an element of a rule keeps none of its own values, and one that closes itself
keeps them all outside of excluded elements. -/
theorem filter_ownValues (names : List Text) (h : tag ∈ writtenTags code)
    (hclosing : tag.value.closing = false)
    (hmatch : matchesAny rules (tag.value.element tag.start) = true) :
    (ownValues names code tag).filter
        (fun p => !(Exclusion.ofDocument code rules).excludes p.place) =
      if endsWithSlash tag.value.attributes = true ∧
          (Exclusion.ofDocument code rules).excludes tag.start = false then
        ownValues names code tag
      else [] := by
  have hplace : ∀ p ∈ ownValues names code tag,
      ((Exclusion.ofDocument code rules).excludes p.place = true ↔
        (Exclusion.ofDocument code rules).excludes tag.start = true ∨
          endsWithSlash tag.value.attributes = false) := by
    intro p hp
    rw [ownValues, List.mem_filter, decide_eq_true_eq] at hp
    rw [excludes_within_iff h hclosing hp.2.1 (Nat.le_of_lt hp.2.2), hmatch]
    simp only [and_true]
  split
  · next hkept =>
    refine List.filter_eq_self.mpr fun p hp => ?_
    rw [Bool.not_eq_true', Bool.eq_false_iff, ne_eq, hplace p hp, hkept.1, hkept.2]
    simp
  · next hleft =>
    refine List.filter_eq_nil_iff.mpr fun p hp => ?_
    rw [Bool.not_eq_true', Bool.not_eq_false, hplace p hp]
    simp only [not_and, Bool.not_eq_false] at hleft
    cases hslash : endsWithSlash tag.value.attributes with
    | true => exact .inl (hleft hslash)
    | false => exact .inr rfl

/-! ### Elements wherever they stand -/

/-- An element, no matter where its tag stands. -/
def Tag.unplaced (tag : Tag) : Tag := { tag with position := 0 }

def TagEvent.unplaced (event : TagEvent) : TagEvent := { event with tag := event.tag.unplaced }

@[simp] theorem Tag.name_unplaced (tag : Tag) : tag.unplaced.name = tag.name := rfl

theorem map_closeNearest (name : Text) (stack : List Tag) :
    (closeNearest name stack).map Tag.unplaced = closeNearest name (stack.map Tag.unplaced) := by
  induction stack with
  | nil => rfl
  | cons tag rest ih =>
    rw [closeNearest, List.map_cons, closeNearest, Tag.name_unplaced]
    by_cases h : tag.name = name
    · rw [if_pos h, if_pos h]
    · rw [if_neg h, if_neg h, List.map_cons, ih]

theorem map_replay (stack : List Tag) (event : TagEvent) :
    (replay stack event).map Tag.unplaced = replay (stack.map Tag.unplaced) event.unplaced := by
  obtain ⟨kind, tag⟩ := event
  cases kind with
  | opening => rfl
  | closing => exact map_closeNearest tag.name stack
  | selfClosing => rfl

theorem map_foldl_replay (events : List TagEvent) (stack : List Tag) :
    (events.foldl replay stack).map Tag.unplaced =
      (events.map TagEvent.unplaced).foldl replay (stack.map Tag.unplaced) := by
  induction events generalizing stack with
  | nil => rfl
  | cons event events ih => rw [List.foldl_cons, ih, map_replay, List.map_cons, List.foldl_cons]

/-- The elements open at a position, no matter where their tags stand. -/
def unplacedAt (code : Text) (position : Nat) : List Tag :=
  ((tagsBefore code position).map TagEvent.unplaced).foldl replay []

theorem excludes_iff_unplaced : (Exclusion.ofDocument code rules).excludes position = true ↔
    ∃ tag ∈ unplacedAt code position, matchesAny rules tag = true := by
  have hmap : unplacedAt code position =
      ((tagsBefore code position).foldl replay []).map Tag.unplaced :=
    (map_foldl_replay (tagsBefore code position) []).symm
  simp only [excludes_iff, openAt, hmap, List.mem_reverse, List.mem_map]
  constructor
  · rintro ⟨tag, htag, hmatch⟩
    exact ⟨tag.unplaced, ⟨tag, htag, rfl⟩, hmatch⟩
  · rintro ⟨_, ⟨tag, htag, rfl⟩, hmatch⟩
    exact ⟨tag, htag, hmatch⟩

theorem excludes_eq_of_unplacedAt {code' : Text} {position' : Nat}
    (h : unplacedAt code position = unplacedAt code' position') :
    (Exclusion.ofDocument code rules).excludes position =
      (Exclusion.ofDocument code' rules).excludes position' := by
  rw [Bool.eq_iff_iff, excludes_iff_unplaced, excludes_iff_unplaced, h]

theorem TagEvent.unplaced_ofWritten (w : WrittenTag) (position position' : Nat) :
    (TagEvent.ofWritten w position).unplaced = (TagEvent.ofWritten w position').unplaced := by
  simp only [TagEvent.ofWritten]
  by_cases hclosing : w.closing = true
  · rw [if_pos hclosing, if_pos hclosing]
    rfl
  · rw [if_neg hclosing, if_neg hclosing]
    by_cases hslash : endsWithSlash w.attributes = true
    · rw [if_pos hslash, if_pos hslash]
      rfl
    · rw [if_neg hslash, if_neg hslash]
      rfl

/-- Behind the front of a document the tags are replayed that what is behind has by itself. -/
theorem unplacedAt_add {front : List (Text.Found WrittenTag)} {start : Nat} {behind : Text}
    (h : writtenTags code = front ++ Text.matchesFrom writtenTag? start behind)
    (hfront : ∀ tag ∈ front, tag.start < start) (n : Nat) :
    unplacedAt code (start + n) =
      ((tagsBefore behind n).map TagEvent.unplaced).foldl replay
        (((front.map eventOf).map TagEvent.unplaced).foldl replay []) := by
  have hkept : front.filter (·.start < start + n) = front :=
    List.filter_eq_self.mpr fun tag htag => decide_eq_true (Nat.lt_add_right n (hfront tag htag))
  have hstart : ((fun tag : Text.Found WrittenTag => decide (tag.start < start + n)) ∘
      Text.Found.shift start) = fun tag => decide (tag.start < n) := by
    funext tag
    change decide (tag.start + start < start + n) = decide (tag.start < n)
    rw [decide_eq_decide]
    omega
  have hbehind : ∀ tag : Text.Found WrittenTag,
      (eventOf (tag.shift start)).unplaced = (eventOf tag).unplaced := fun tag =>
    TagEvent.unplaced_ofWritten tag.value _ _
  rw [unplacedAt, tagsBefore_eq_map, h, List.filter_append, hkept, Text.matchesFrom_eq_map,
    List.filter_map, hstart, List.map_append, List.map_append, List.foldl_append,
    tagsBefore_eq_map]
  simp only [List.map_map, Function.comp_def, hbehind]
  rfl

/-! ### One tag or two -/

/-- An element without content in a document. -/
structure EmptyElement where
  before : Text
  name : Text
  attributes : Text
  behind : Text

namespace EmptyElement

/-- The document in which the element is one tag that closes itself. -/
def asOne (e : EmptyElement) : Text :=
  e.before ++ (openingTag e.name (e.attributes ++ ['/']) ++ e.behind)

/-- The document in which the element is an opening and a closing tag. -/
def asTwo (e : EmptyElement) : Text :=
  e.before ++ (openingTag e.name e.attributes ++ (closingTag e.name ++ e.behind))

/-- The element as it is written with two tags. -/
def element (e : EmptyElement) : Tag :=
  WrittenTag.element ⟨false, e.name, e.attributes⟩ e.before.length

/-- The tags are tags, the slash is not part of the attributes, and where the element begins the
document has a tag. -/
structure WellFormed (e : EmptyElement) : Prop where
  tag : WrittenTag.WellFormed ⟨false, e.name, e.attributes⟩
  noSlash : endsWithSlash e.attributes = false
  apart : ∃ tag ∈ writtenTags e.asOne, tag.start = e.before.length

/-- The one tag. -/
def single (e : EmptyElement) : Text.Found WrittenTag :=
  ⟨e.before.length, (openingTag e.name (e.attributes ++ ['/'])).length,
    ⟨false, e.name, e.attributes ++ ['/']⟩⟩

/-- The first of the two tags. -/
def opening (e : EmptyElement) : Text.Found WrittenTag :=
  ⟨e.before.length, (openingTag e.name e.attributes).length, ⟨false, e.name, e.attributes⟩⟩

/-- The second of the two tags. -/
def closing (e : EmptyElement) : Text.Found WrittenTag :=
  ⟨e.before.length + (openingTag e.name e.attributes).length, (closingTag e.name).length,
    ⟨true, e.name, []⟩⟩

variable {e : EmptyElement}

theorem WellFormed.singleTag (he : e.WellFormed) :
    WrittenTag.WellFormed ⟨false, e.name, e.attributes ++ ['/']⟩ :=
  ⟨he.tag.name, head_concat_slash he.tag.head, by simpa using he.tag.noEnd⟩

/-- What stands before the element is cut into the same tags however the element is written. -/
theorem writtenTags_before (he : e.WellFormed) (r : Text) :
    writtenTags (e.before ++ '<' :: r) =
      writtenTags e.before ++ Text.matchesFrom writtenTag? e.before.length ('<' :: r) := by
  obtain ⟨tag, htag, hstart⟩ := he.apart
  refine writtenTags_append_start ?_ htag hstart r
  simp

theorem writtenTags_asOne (he : e.WellFormed) :
    writtenTags e.asOne = (writtenTags e.before ++ [e.single]) ++
      Text.matchesFrom writtenTag? (e.before.length + e.single.length) e.behind := by
  have hsingle : writtenTag? (openingTag e.name (e.attributes ++ ['/']) ++ e.behind) =
      some (e.single.value, e.single.length) :=
    writtenTag?_write he.singleTag e.behind
  have hone : Text.matchesFrom writtenTag? e.before.length
      (openingTag e.name (e.attributes ++ ['/']) ++ e.behind) =
        e.single :: Text.matchesFrom writtenTag? (e.before.length + e.single.length) e.behind :=
    Text.matchesFrom_append_of_some (List.cons_ne_nil _ _) hsingle
  rw [List.append_assoc]
  exact (writtenTags_before he _).trans (congrArg (writtenTags e.before ++ ·) hone)

theorem writtenTags_asTwo (he : e.WellFormed) :
    writtenTags e.asTwo = (writtenTags e.before ++ [e.opening, e.closing]) ++
      Text.matchesFrom writtenTag? (e.before.length + e.opening.length + e.closing.length)
        e.behind := by
  have hopening : writtenTag? (openingTag e.name e.attributes ++ (closingTag e.name ++ e.behind)) =
      some (e.opening.value, e.opening.length) :=
    writtenTag?_write he.tag (closingTag e.name ++ e.behind)
  have hclosing : writtenTag? (closingTag e.name ++ e.behind) =
      some (e.closing.value, e.closing.length) :=
    writtenTag?_closingTag he.tag.name e.behind
  have hboth : Text.matchesFrom writtenTag? e.before.length
      (openingTag e.name e.attributes ++ (closingTag e.name ++ e.behind)) =
        e.opening :: e.closing :: Text.matchesFrom writtenTag?
          (e.before.length + e.opening.length + e.closing.length) e.behind :=
    (Text.matchesFrom_append_of_some (List.cons_ne_nil _ _) hopening).trans
      (congrArg (e.opening :: ·) (Text.matchesFrom_append_of_some (List.cons_ne_nil _ _) hclosing))
  rw [List.append_assoc]
  exact (writtenTags_before he _).trans (congrArg (writtenTags e.before ++ ·) hboth)

/-- Up to the element the tags before a position are those of what stands before the element. -/
theorem tagsBefore_before (he : e.WellFormed) (r : Text) (hp : position ≤ e.before.length) :
    tagsBefore (e.before ++ '<' :: r) position = tagsBefore e.before position :=
  tagsBefore_of_cut (writtenTags_before he r) hp

/-- Written as one tag the element leaves the open elements as they are. -/
theorem replay_single (e : EmptyElement) (stack : List Tag) :
    replay stack (eventOf e.single).unplaced = stack := by
  simp [eventOf, single, TagEvent.ofWritten, endsWithSlash_concat, TagEvent.unplaced, replay]

/-- Written as two tags it opens an element and closes it again. -/
theorem replay_opening_closing (he : e.WellFormed) (stack : List Tag) :
    replay (replay stack (eventOf e.opening).unplaced) (eventOf e.closing).unplaced = stack := by
  simp [eventOf, opening, closing, TagEvent.ofWritten, he.noSlash, TagEvent.unplaced, replay,
    closeNearest, Tag.ofAttributes]

/-- Behind the element the same elements are open. -/
theorem unplacedAt_behind (he : e.WellFormed) (n : Nat) :
    unplacedAt e.asTwo (e.before.length + e.opening.length + e.closing.length + n) =
      unplacedAt e.asOne (e.before.length + e.single.length + n) := by
  have hbefore : ∀ tag ∈ writtenTags e.before, tag.start < e.before.length := fun _ =>
    start_lt_of_mem_writtenTags
  have hsingle : 0 < e.single.length := Nat.succ_pos _
  have hclosing : 0 < e.closing.length := Nat.succ_pos _
  have hone : ∀ tag ∈ writtenTags e.before ++ [e.single],
      tag.start < e.before.length + e.single.length := by
    intro tag htag
    rcases List.mem_append.mp htag with htag | htag
    · exact Nat.lt_add_right _ (hbefore tag htag)
    · obtain rfl := List.mem_singleton.mp htag
      exact Nat.lt_add_of_pos_right hsingle
  have htwo : ∀ tag ∈ writtenTags e.before ++ [e.opening, e.closing],
      tag.start < e.before.length + e.opening.length + e.closing.length := by
    intro tag htag
    rcases List.mem_append.mp htag with htag | htag
    · have hstart := hbefore tag htag
      omega
    · rcases List.mem_pair.mp htag with rfl | rfl
      · have hstart : e.opening.start = e.before.length := rfl
        omega
      · exact Nat.lt_add_of_pos_right hclosing
  rw [unplacedAt_add (writtenTags_asTwo he) htwo, unplacedAt_add (writtenTags_asOne he) hone]
  simp only [List.map_append, List.foldl_append, List.map_cons, List.map_nil, List.foldl_cons,
    List.foldl_nil, replay_single, replay_opening_closing he]

variable {rules : List Rule}

theorem excludes_before (he : e.WellFormed) (hp : position ≤ e.before.length) :
    (Exclusion.ofDocument e.asTwo rules).excludes position =
      (Exclusion.ofDocument e.asOne rules).excludes position := by
  refine excludes_eq_of_unplacedAt ?_
  have hone : tagsBefore e.asOne position = tagsBefore e.before position :=
    tagsBefore_before he _ hp
  have htwo : tagsBefore e.asTwo position = tagsBefore e.before position :=
    tagsBefore_before he _ hp
  rw [unplacedAt, unplacedAt, hone, htwo]

theorem excludes_within (he : e.WellFormed) {n : Nat} (hn : 0 < n) (hn' : n ≤ e.opening.length) :
    (Exclusion.ofDocument e.asTwo rules).excludes (e.before.length + n) =
      ((Exclusion.ofDocument e.asOne rules).excludes (e.before.length + n) ||
        matchesAny rules e.element) := by
  have hsingle : e.single ∈ writtenTags e.asOne := by
    rw [writtenTags_asOne he]
    simp
  have hopening : e.opening ∈ writtenTags e.asTwo := by
    rw [writtenTags_asTwo he]
    simp
  have hlength : e.opening.length ≤ e.single.length := by
    simp [opening, single, openingTag]
  have hone : (Exclusion.ofDocument e.asOne rules).excludes (e.before.length + n) = true ↔
      (Exclusion.ofDocument e.asOne rules).excludes e.before.length = true := by
    refine (excludes_within_iff hsingle rfl (Nat.lt_add_of_pos_right hn)
      (Nat.add_le_add_left (hn'.trans hlength) _)).trans ?_
    simp [single, endsWithSlash_concat]
  have htwo : (Exclusion.ofDocument e.asTwo rules).excludes (e.before.length + n) = true ↔
      (Exclusion.ofDocument e.asTwo rules).excludes e.before.length = true ∨
        matchesAny rules e.element = true := by
    refine (excludes_within_iff hopening rfl (Nat.lt_add_of_pos_right hn)
      (Nat.add_le_add_left hn' _)).trans ?_
    simp [opening, he.noSlash, element]
  rw [Bool.eq_iff_iff, Bool.or_eq_true, htwo, hone, excludes_before he (Nat.le_refl _)]

end EmptyElement

/-- In every document a tag that opens an element of a rule keeps none of the values of attributes
within it, and a tag that closes itself keeps them all where no element around it is of a rule. So
written as two tags an element without content excludes what it excludes as one, and what stands in
its opening tag if it is of a rule itself; up to the element and behind it the two ways to write it
exclude the same. -/
theorem ownValues_of_match (rules : List Rule) (names : List Text) :
    (∀ code, attributeStrings (Exclusion.ofDocument code rules) names code =
      trimmed (((placedValues names code).filter
        fun p => !(Exclusion.ofDocument code rules).excludes p.place).map PlacedText.text)) ∧
    (∀ code, ∀ tag ∈ writtenTags code, tag.value.closing = false →
      matchesAny rules (tag.value.element tag.start) = true →
        (ownValues names code tag).filter
            (fun p => !(Exclusion.ofDocument code rules).excludes p.place) =
          if endsWithSlash tag.value.attributes = true ∧
              (Exclusion.ofDocument code rules).excludes tag.start = false then
            ownValues names code tag
          else []) ∧
    ∀ e : EmptyElement, e.WellFormed →
      (∀ p ≤ e.before.length, (Exclusion.ofDocument e.asTwo rules).excludes p =
        (Exclusion.ofDocument e.asOne rules).excludes p) ∧
      (∀ n, 0 < n → n ≤ e.opening.length →
        (Exclusion.ofDocument e.asTwo rules).excludes (e.before.length + n) =
          ((Exclusion.ofDocument e.asOne rules).excludes (e.before.length + n) ||
            matchesAny rules e.element)) ∧
      ∀ n, (Exclusion.ofDocument e.asTwo rules).excludes
          (e.before.length + e.opening.length + e.closing.length + n) =
        (Exclusion.ofDocument e.asOne rules).excludes (e.before.length + e.single.length + n) :=
  ⟨fun code => attributeStrings_eq_trimmed _ names code,
    fun _ _ htag hclosing hmatch => filter_ownValues names htag hclosing hmatch,
    fun _ he => ⟨fun _ hp => EmptyElement.excludes_before he hp,
      fun _ hn hn' => EmptyElement.excludes_within he hn hn',
      fun n => excludes_eq_of_unplacedAt (EmptyElement.unplacedAt_behind he n)⟩⟩

/-- A picture behind a text. -/
def picture : EmptyElement :=
  ⟨"<p>Hi</p>".toList, "img".toList, " alt='Logo'".toList, []⟩

/-- With pictures excluded the text of the picture is kept from one tag and not from two. -/
theorem ownValues_of_match_picture :
    (ownValues ["alt".toList] picture.asOne picture.single).filter
        (fun p => !(Exclusion.ofDocument picture.asOne [⟨some "img".toList, none, []⟩]).excludes
          p.place) = [⟨14, "Logo".toList⟩] ∧
      (Exclusion.ofDocument picture.asTwo [⟨some "img".toList, none, []⟩]).excludes 14 = true := by
  have hsingle : picture.single ∈ writtenTags picture.asOne := by decide
  have hpicture : picture.WellFormed :=
    ⟨⟨by decide, by rintro c ⟨⟩; decide, by decide⟩, by decide, picture.single, hsingle, rfl⟩
  obtain ⟨-, hone, htwo⟩ := ownValues_of_match [⟨some "img".toList, none, []⟩] ["alt".toList]
  constructor
  · rw [hone picture.asOne picture.single hsingle rfl (by decide)]
    decide
  · refine ((htwo picture hpicture).2.1 5 (by decide) (by decide)).trans ?_
    decide

end Localize.Markup
