import Localize.Proofs.Markup.OwnAttributes

/-!
# Elements left open

An element is open from its tag on until a closing tag answers it, and a closing tag that comes first
to another element of the name answers that one. What the names mean does not count: an element that
has no closing tag in HTML, such as a line break, is like any other that is left open. Written with a
slash it is never open, and written without one it stays open behind its tag, to the end of the
document where no closing tag of its name follows.
-/

namespace Localize.Markup

/-! ### Tags of one name -/

/-- However far one goes, the tags close no more elements than they open and `n` others. -/
def Outlasts (n : Nat) (events : List TagEvent) : Prop :=
  ∀ front, front <+: events →
    front.countP (·.kind = .closing) ≤ n + front.countP (·.kind = .opening)

/-- The tags of a name between two places. -/
def namesakesBetween (code name : Text) (start stop : Nat) : List TagEvent :=
  (tagEvents code).filter fun event =>
    event.tag.name = name ∧ start < event.tag.position ∧ event.tag.position < stop

variable {n : Nat} {event : TagEvent} {events : List TagEvent} {tag : Tag} {front back : List Tag}

theorem outlasts_nil : Outlasts n [] := by
  intro front hfront
  rw [List.prefix_nil.mp hfront]
  exact Nat.zero_le _

theorem outlasts_of_forall (h : ∀ event ∈ events, event.kind ≠ .closing) : Outlasts n events := by
  intro front hfront
  have hnone : front.countP (·.kind = .closing) = 0 :=
    List.countP_eq_zero.mpr fun event hevent => by simpa using h event (hfront.subset hevent)
  rw [hnone]
  exact Nat.zero_le _

/-- One tag more in front: it adds an element behind, takes one away, or does nothing. -/
theorem outlasts_cons : Outlasts n (event :: events) ↔
    match event.kind with
    | .opening => Outlasts (n + 1) events
    | .closing => 0 < n ∧ Outlasts (n - 1) events
    | .selfClosing => Outlasts n events := by
  have hcons : Outlasts n (event :: events) ↔ ∀ front, front <+: events →
      (event :: front).countP (·.kind = .closing) ≤
        n + (event :: front).countP (·.kind = .opening) := by
    constructor
    · exact fun h front hfront => h _ ((List.cons_prefix_cons).mpr ⟨rfl, hfront⟩)
    · intro h front hfront
      rcases List.prefix_cons_iff.mp hfront with rfl | ⟨rest, rfl, hrest⟩
      · exact Nat.zero_le _
      · exact h rest hrest
  rw [hcons]
  cases hkind : event.kind with
  | opening =>
    simp only [Outlasts, List.countP_cons, hkind, reduceCtorEq, decide_false, decide_true,
      Bool.false_eq_true, if_false, if_true, Nat.add_zero, Nat.add_assoc, Nat.add_comm 1]
  | closing =>
    simp only [Outlasts, List.countP_cons, hkind, reduceCtorEq, decide_false, decide_true,
      Bool.false_eq_true, if_false, if_true, Nat.add_zero]
    constructor
    · intro h
      have hfirst := h [] List.nil_prefix
      rw [List.countP_nil, List.countP_nil] at hfirst
      exact ⟨by omega, fun front hfront => by have := h front hfront; omega⟩
    · rintro ⟨hn, h⟩ front hfront
      have := h front hfront
      omega
  | selfClosing =>
    simp only [Outlasts, List.countP_cons, hkind, reduceCtorEq, decide_false, Bool.false_eq_true,
      if_false, Nat.add_zero]

/-! ### The stack of a name -/

/-- What was neither on the stack nor is opened is not on the stack. -/
theorem notMem_foldl_pushOrPop (hevents : ∀ event ∈ events, event.tag ≠ tag) (hstack : tag ∉ front) :
    tag ∉ events.foldl pushOrPop front := by
  induction events generalizing front with
  | nil => exact hstack
  | cons event events ih =>
    obtain ⟨hevent, hrest⟩ := List.forall_mem_cons.mp hevents
    refine ih hrest ?_
    rw [pushOrPop]
    cases event.kind with
    | opening => simpa using ⟨hstack, Ne.symm hevent⟩
    | closing => exact fun hmem => hstack (List.dropLast_subset front hmem)
    | selfClosing => exact hstack

/-- An element stays on the stack of its name as long as the tags outlast those behind it. -/
theorem mem_foldl_pushOrPop_iff (hevents : ∀ event ∈ events, event.tag ≠ tag)
    (hfront : tag ∉ front) (hback : tag ∉ back) :
    tag ∈ events.foldl pushOrPop (front ++ tag :: back) ↔ Outlasts back.length events := by
  induction events generalizing back with
  | nil => simpa using outlasts_nil
  | cons event events ih =>
    obtain ⟨hevent, hrest⟩ := List.forall_mem_cons.mp hevents
    rw [List.foldl_cons, pushOrPop, outlasts_cons]
    cases event.kind with
    | opening =>
      have hpushed : tag ∉ back ++ [event.tag] := by simpa using ⟨hback, Ne.symm hevent⟩
      simpa using ih hrest hpushed
    | closing =>
      cases back using List.reverseRecOn with
      | nil =>
        -- The element is the last one, so it is popped itself.
        simpa using notMem_foldl_pushOrPop hrest hfront
      | append_singleton back last =>
        have hpopped : tag ∉ back := fun hmem => hback (List.mem_append_left _ hmem)
        have hdrop : (front ++ tag :: (back ++ [last])).dropLast = front ++ tag :: back := by
          rw [← List.cons_append, ← List.append_assoc, List.dropLast_concat]
        simpa [hdrop] using ih hrest hpopped
    | selfClosing => exact ih hrest hback

/-! ### The element of a tag -/

variable {code : Text} {found : Text.Found WrittenTag} {position : Nat} {rules : List Rule}

theorem eventOf_element (hclosing : found.value.closing = false)
    (hslash : endsWithSlash found.value.attributes = false) :
    eventOf found = ⟨.opening, found.value.element found.start⟩ := by
  simp [eventOf, TagEvent.ofWritten, hclosing, hslash, WrittenTag.element]

/-- Only a tag without a slash opens an element where it stands. -/
theorem endsWithSlash_of_mem_opened (h : found ∈ writtenTags code)
    (hclosing : found.value.closing = false) {events : List TagEvent}
    (hevents : events ⊆ tagEvents code) {tag : Tag} (htag : tag ∈ opened events)
    (hplace : tag.position = found.start) :
    endsWithSlash found.value.attributes = false ∧ tag = found.value.element found.start := by
  obtain ⟨event, hevent, rfl⟩ := List.mem_map.mp htag
  obtain ⟨hevent, hkind⟩ := List.mem_filter.mp hevent
  have hwritten := hevents hevent
  rw [tagEvents_eq_map, List.mem_map] at hwritten
  obtain ⟨other, hother, rfl⟩ := hwritten
  have hstarts : ((writtenTags code).map (·.start)).Nodup :=
    List.pairwise_map.mpr ((Text.pairwise_scan _ code).imp Nat.ne_of_lt)
  have hsame : other = found := by
    refine List.inj_on_of_nodup_map hstarts hother h ?_
    rw [← hplace, eventOf, TagEvent.position_ofWritten]
  subst hsame
  cases hslash : endsWithSlash other.value.attributes with
  | true => simp [eventOf, TagEvent.ofWritten, hclosing, hslash] at hkind
  | false => exact ⟨rfl, congrArg TagEvent.tag (eventOf_element hclosing hslash)⟩

theorem openAt_sublist (code : Text) (position : Nat) :
    (openAt code position).Sublist (opened (tagsBefore code position)) :=
  foldl_replay_sublist (tagsBefore code position) []

theorem mem_openAt_iff_named (tag : Tag) : tag ∈ openAt code position ↔
    tag ∈ ((tagsBefore code position).filter (·.tag.name = tag.name)).foldl pushOrPop [] := by
  have hnamed : tag ∈ openAt code position ↔
      tag ∈ named tag.name ((tagsBefore code position).foldl replay []) := by
    simp [openAt, named]
  rw [hnamed, ← List.mem_reverse, named_foldl_replay]
  rfl

/-- The element of a tag is open behind the tag until it is answered. -/
theorem element_mem_openAt_iff (h : found ∈ writtenTags code)
    (hclosing : found.value.closing = false)
    (hslash : endsWithSlash found.value.attributes = false) (hposition : found.start < position) :
    found.value.element found.start ∈ openAt code position ↔
      Outlasts 0 (namesakesBetween code (Text.lower found.value.name) found.start position) := by
  have hname : (found.value.element found.start).name = Text.lower found.value.name := rfl
  have hplace : (found.value.element found.start).position = found.start := rfl
  have hbetween : ((tagEvents code).filter fun event =>
      found.start < event.tag.position ∧ event.tag.position < position).filter
        (·.tag.name = Text.lower found.value.name) =
      namesakesBetween code (Text.lower found.value.name) found.start position := by
    rw [List.filter_filter, namesakesBetween]
    refine List.filter_congr fun event _ => ?_
    simp
  rw [mem_openAt_iff_named, tagsBefore_behind h hposition, eventOf_element hclosing hslash, hname,
    List.filter_append, List.filter_cons_of_pos (by simp [hname]), hbetween, List.foldl_append,
    List.foldl_cons, pushOrPop]
  refine mem_foldl_pushOrPop_iff (fun event hevent hsame => ?_) ?_ List.not_mem_nil
  · have hlater := List.mem_filter.mp hevent
    simp only [decide_eq_true_eq] at hlater
    rw [hsame, hplace] at hlater
    exact absurd hlater.2.2.1 (Nat.lt_irrefl _)
  · refine notMem_foldl_pushOrPop (fun event hevent hsame => ?_) List.not_mem_nil
    have hbefore := (List.mem_filter.mp (List.mem_filter.mp hevent).1).2
    rw [hsame, hplace, decide_eq_true_eq] at hbefore
    exact Nat.lt_irrefl _ hbefore

/-- At every place behind the tag of an element: the element is open there if and only if the tag does
not close itself and the tags of its name between do not close more elements than they open. So the
place is excluded if the element matches a rule, no matter what its name means; and where no closing
tag of its name follows, at every place up to the end of the document. -/
theorem open_behind_iff (code : Text) {rules : List Rule} (hrules : rules ≠ [])
    {found : Text.Found WrittenTag} (h : found ∈ writtenTags code)
    (hclosing : found.value.closing = false) {position : Nat} (hposition : found.start < position) :
    ((∃ tag ∈ (Exclusion.ofDocument code rules).openTags position, tag.position = found.start) ↔
      endsWithSlash found.value.attributes = false ∧
        Outlasts 0 (namesakesBetween code (Text.lower found.value.name) found.start position)) ∧
    (endsWithSlash found.value.attributes = false →
      Outlasts 0 (namesakesBetween code (Text.lower found.value.name) found.start position) →
      matchesAny rules (found.value.element found.start) = true →
        (Exclusion.ofDocument code rules).excludes position = true) ∧
    ((∀ event ∈ tagEvents code, event.tag.name = Text.lower found.value.name →
        event.kind ≠ .closing) →
      Outlasts 0 (namesakesBetween code (Text.lower found.value.name) found.start position)) := by
  have hopen : (Exclusion.ofDocument code rules).openTags position = openAt code position :=
    openTags_ofDocument code hrules position
  refine ⟨?_, fun hslash houtlasts hmatch => ?_, fun hnone => ?_⟩
  · rw [hopen]
    constructor
    · rintro ⟨tag, htag, hplace⟩
      have hopened := (openAt_sublist code position).subset htag
      obtain ⟨hslash, rfl⟩ :=
        endsWithSlash_of_mem_opened h hclosing (List.filter_sublist.subset) hopened hplace
      exact ⟨hslash, (element_mem_openAt_iff h hclosing hslash hposition).mp htag⟩
    · rintro ⟨hslash, houtlasts⟩
      exact ⟨_, (element_mem_openAt_iff h hclosing hslash hposition).mpr houtlasts, rfl⟩
  · exact excludes_iff.mpr
      ⟨_, (element_mem_openAt_iff h hclosing hslash hposition).mpr houtlasts, hmatch⟩
  · refine outlasts_of_forall fun event hevent => ?_
    obtain ⟨hevent, hbetween⟩ := List.mem_filter.mp hevent
    exact hnone event hevent (of_decide_eq_true hbetween).1

/-- A line break between two texts. -/
def brokenLine : Text.Found WrittenTag := ⟨6, 4, ⟨false, "br".toList, []⟩⟩

/-- With line breaks excluded the text behind the break is excluded, and with it the rest of the
document. -/
theorem open_behind_iff_brokenLine :
    brokenLine ∈ writtenTags "<p>One<br>Two</p><p>Three</p>".toList ∧
      (∃ tag ∈ (Exclusion.ofDocument "<p>One<br>Two</p><p>Three</p>".toList
        [⟨some "br".toList, none, []⟩]).openTags 21, tag.position = 6) ∧
      (Exclusion.ofDocument "<p>One<br>Two</p><p>Three</p>".toList
        [⟨some "br".toList, none, []⟩]).excludes 21 = true := by
  have hbreak : brokenLine ∈ writtenTags "<p>One<br>Two</p><p>Three</p>".toList := by decide
  have hrules : [(⟨some "br".toList, none, []⟩ : Rule)] ≠ [] := by decide
  have hplace : brokenLine.start < 21 := by decide
  obtain ⟨hopen, hexcluded, hnone⟩ :=
    open_behind_iff "<p>One<br>Two</p><p>Three</p>".toList hrules hbreak rfl hplace
  have houtlasts := hnone (by decide)
  exact ⟨hbreak, hopen.mpr ⟨by decide, houtlasts⟩, hexcluded (by decide) houtlasts (by decide)⟩

end Localize.Markup
