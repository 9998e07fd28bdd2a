import Localize.Markup.Exclusion
import Localize.Proofs.Text.Search

/-!
# Badly nested tags

Nothing is asked of the document here: tags may be left open, cross each other or close what was
never opened. A closing tag takes the nearest open element of its name out of the middle of the
stack, so the elements of one name are seen to be a stack of their own: the tags of that name push
and pop it, and the tags of other names leave it alone. What is left open stands in the order in
which it was opened.
-/

namespace Localize.Markup

/-! ### The tags of a document -/

theorem TagEvent.position_ofWritten (w : WrittenTag) (position : Nat) :
    (TagEvent.ofWritten w position).tag.position = position := by
  simp only [TagEvent.ofWritten, Tag.ofAttributes]
  split
  · rfl
  · split
    · rfl
    · rfl

/-- The tags of a document stand one behind the other. -/
theorem pairwise_tagEvents (code : Text) :
    (tagEvents code).Pairwise (·.tag.position < ·.tag.position) := by
  rw [tagEvents, List.pairwise_map]
  refine (Text.pairwise_scan _ code).imp fun h => ?_
  rw [TagEvent.position_ofWritten, TagEvent.position_ofWritten]
  exact h

/-- Where an item that is taken has taken all that stand before it, the items taken from the front
are all that are taken. -/
theorem takeWhile_eq_filter {α : Type} {p : α → Bool} {items : List α}
    (h : items.Pairwise fun x y => p y = true → p x = true) :
    items.takeWhile p = items.filter p := by
  induction items with
  | nil => rfl
  | cons x items ih =>
    obtain ⟨hx, hitems⟩ := List.pairwise_cons.mp h
    by_cases hp : p x = true
    · rw [List.takeWhile_cons_of_pos hp, List.filter_cons_of_pos hp, ih hitems]
    · have hnone : items.filter p = [] :=
        List.filter_eq_nil_iff.mpr fun y hy hpy => hp (hx y hy hpy)
      rw [List.takeWhile_cons_of_neg hp, List.filter_cons_of_neg hp, hnone]

/-- The tags of a document that stand before a position. -/
def tagsBefore (code : Text) (position : Nat) : List TagEvent :=
  (tagEvents code).filter (·.tag.position < position)

theorem openTags_ofDocument (code : Text) {rules : List Rule} (hrules : rules ≠ [])
    (position : Nat) : (Exclusion.ofDocument code rules).openTags position =
      ((tagsBefore code position).foldl replay []).reverse := by
  have hnot : ¬rules.isEmpty = true := fun h => hrules (List.isEmpty_iff.mp h)
  have hbefore : (tagEvents code).takeWhile (·.tag.position < position) =
      tagsBefore code position := by
    refine takeWhile_eq_filter ((pairwise_tagEvents code).imp fun hxy hy => ?_)
    rw [decide_eq_true_iff] at hy ⊢
    omega
  rw [Exclusion.openTags, Exclusion.ofDocument, if_neg hnot, hbefore]

/-! ### The elements of one name -/

/-- The elements of a name. -/
def named (name : Text) (stack : List Tag) : List Tag := stack.filter (·.name = name)

/-- One tag on a stack of elements of its own name, the outermost first: an opening tag pushes its
element, a closing tag pops the last element if there is one. -/
def pushOrPop (stack : List Tag) (event : TagEvent) : List Tag :=
  match event.kind with
  | .opening => stack ++ [event.tag]
  | .closing => stack.dropLast
  | .selfClosing => stack

theorem named_cons (name : Text) (tag : Tag) (stack : List Tag) :
    named name (tag :: stack) =
      if tag.name = name then tag :: named name stack else named name stack := by
  simp only [named, List.filter_cons, decide_eq_true_eq]

theorem named_reverse (name : Text) (stack : List Tag) :
    named name stack.reverse = (named name stack).reverse := List.filter_reverse

/-- Closing a name takes away its nearest element. -/
theorem named_closeNearest_self (name : Text) (stack : List Tag) :
    named name (closeNearest name stack) = (named name stack).tail := by
  induction stack with
  | nil => rfl
  | cons tag rest ih =>
    rw [closeNearest, named_cons]
    by_cases h : tag.name = name
    · rw [if_pos h, if_pos h, List.tail_cons]
    · rw [if_neg h, if_neg h, named_cons, if_neg h, ih]

/-- Closing a name takes away no element of another. -/
theorem named_closeNearest_of_ne {name closed : Text} (h : closed ≠ name) (stack : List Tag) :
    named name (closeNearest closed stack) = named name stack := by
  induction stack with
  | nil => rfl
  | cons tag rest ih =>
    rw [closeNearest]
    by_cases hclosed : tag.name = closed
    · have hother : tag.name ≠ name := fun heq => h (hclosed.symm.trans heq)
      rw [if_pos hclosed, named_cons, if_neg hother]
    · rw [if_neg hclosed, named_cons, named_cons, ih]

/-- What one tag does to the elements of a name: those of its own name it pushes or pops, those of
another it leaves as they are. -/
theorem named_replay (name : Text) (stack : List Tag) (event : TagEvent) :
    (named name (replay stack event)).reverse =
      if event.tag.name = name then pushOrPop (named name stack).reverse event
      else (named name stack).reverse := by
  rw [replay, pushOrPop]
  cases event.kind with
  | opening =>
    rw [named_cons]
    by_cases h : event.tag.name = name
    · simp only [h, if_true, List.reverse_cons]
    · simp only [h, if_false]
  | closing =>
    by_cases h : event.tag.name = name
    · simp only [h, if_true, named_closeNearest_self, List.dropLast_reverse]
    · simp only [h, if_false, named_closeNearest_of_ne h]
  | selfClosing => simp only [ite_self]

/-- What a run of tags does to the elements of a name is what its tags of that name do. -/
theorem named_foldl_replay (name : Text) (events : List TagEvent) (stack : List Tag) :
    (named name (events.foldl replay stack)).reverse =
      (events.filter (·.tag.name = name)).foldl pushOrPop (named name stack).reverse := by
  induction events generalizing stack with
  | nil => rfl
  | cons event events ih =>
    rw [List.foldl_cons, ih, named_replay]
    by_cases h : event.tag.name = name
    · rw [if_pos h, List.filter_cons_of_pos (by simpa using h), List.foldl_cons]
    · rw [if_neg h, List.filter_cons_of_neg (by simpa using h)]

/-! ### The order of the open elements -/

theorem closeNearest_sublist (name : Text) (stack : List Tag) :
    (closeNearest name stack).Sublist stack := by
  induction stack with
  | nil => exact .slnil
  | cons tag rest ih =>
    rw [closeNearest]
    split
    · exact List.sublist_cons_self tag rest
    · exact ih.cons_cons tag

/-- The elements that tags open, in their order. -/
def opened (events : List TagEvent) : List Tag :=
  (events.filter (·.kind = .opening)).map TagEvent.tag

theorem opened_cons (event : TagEvent) (events : List TagEvent) :
    opened (event :: events) =
      if event.kind = .opening then event.tag :: opened events else opened events := by
  rw [opened, List.filter_cons]
  by_cases h : event.kind = .opening
  · rw [if_pos h, if_pos (decide_eq_true h), List.map_cons, opened]
  · rw [if_neg h, if_neg (by simpa using h), opened]

/-- What a run of tags leaves open was open before, or was opened by it, in this order. -/
theorem foldl_replay_sublist (events : List TagEvent) (stack : List Tag) :
    (events.foldl replay stack).reverse.Sublist (stack.reverse ++ opened events) := by
  induction events generalizing stack with
  | nil => exact List.sublist_append_left stack.reverse (opened [])
  | cons event events ih =>
    refine (ih (replay stack event)).trans ?_
    rw [opened_cons, replay]
    cases event.kind with
    | opening =>
      simp only [if_true, List.reverse_cons, List.append_assoc, List.singleton_append,
        List.Sublist.refl]
    | closing =>
      have hclose : (closeNearest event.tag.name stack).reverse.Sublist stack.reverse :=
        (closeNearest_sublist event.tag.name stack).reverse
      exact hclose.append_right (opened events)
    | selfClosing => exact List.Sublist.refl _

theorem pairwise_opened {events : List TagEvent}
    (h : events.Pairwise (·.tag.position < ·.tag.position)) :
    (opened events).Pairwise (·.position < ·.position) :=
  List.pairwise_map.mpr (h.filter _)

/-! ### The open elements at a position -/

/-- In every document, however its tags are nested, and at every position: the open elements of a
name are the stack that the tags of this name before the position push and pop, whatever other tags
stand between them; and all open elements are, in the order of the document, elements opened before
the position, none of them twice. -/
theorem openTags_nested (code : Text) {rules : List Rule} (hrules : rules ≠ []) (position : Nat) :
    (∀ name, named name ((Exclusion.ofDocument code rules).openTags position) =
      ((tagsBefore code position).filter (·.tag.name = name)).foldl pushOrPop []) ∧
    ((Exclusion.ofDocument code rules).openTags position).Sublist
      (opened (tagsBefore code position)) ∧
    ((Exclusion.ofDocument code rules).openTags position).Pairwise (·.position < ·.position) := by
  rw [openTags_ofDocument code hrules]
  have hsublist : ((tagsBefore code position).foldl replay []).reverse.Sublist
      (opened (tagsBefore code position)) := foldl_replay_sublist (tagsBefore code position) []
  refine ⟨fun name => ?_, hsublist, ?_⟩
  · rw [named_reverse]
    exact named_foldl_replay name (tagsBefore code position) []
  · exact (pairwise_opened ((pairwise_tagEvents code).filter _)).sublist hsublist

/-- A crossed pair, a stray closing tag and two elements left open: only `b` and `p` are open at the
end, and of the two elements `b` the outer one. -/
theorem openTags_nested_crossed :
    named "b".toList ((Exclusion.ofDocument "<b><i><b></i></b></u><p>".toList
        [⟨some "b".toList, none, []⟩]).openTags 24) = [⟨"b".toList, none, [], 0⟩] ∧
      ((Exclusion.ofDocument "<b><i><b></i></b></u><p>".toList
        [⟨some "b".toList, none, []⟩]).openTags 24).length = 2 := by
  refine ⟨?_, by decide +kernel⟩
  rw [(openTags_nested "<b><i><b></i></b></u><p>".toList (by decide) 24).1 "b".toList]
  decide +kernel

end Localize.Markup
