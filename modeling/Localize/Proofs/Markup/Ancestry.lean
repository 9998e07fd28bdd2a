import Localize.Markup.Exclusion
import Localize.Proofs.Markup.Forest

/-!
# Open tags and ancestors

The tags written before a character of a text, replayed on a stack, leave the elements that enclose
the text: whatever was opened before it and is not around it has been closed again, and closing the
nearest element of a name closes the element itself, since all that was opened inside is closed
before. So a place is excluded where an enclosing element matches a rule.
-/

namespace Localize.Markup

/-- A text of a document: where it begins and the elements around it, outermost first. -/
structure TextNode where
  start : Nat
  text : Text
  ancestors : List Tag
  deriving DecidableEq

namespace Forest

variable {α : Type} {write : α → Text}

/-- The texts of a forest that stands within some elements and whose document begins at a
position. -/
def textNodes (write : α → Text) : List Tag → Nat → Forest α → List TextNode
  | _, _, nil => []
  | above, start, text t rest =>
    ⟨start, t, above⟩ :: textNodes write above (start + t.length) rest
  | above, start, element name attributes inside rest =>
    textNodes write (above ++ [.ofAttributes (Text.lower name) (write attributes) start])
        (start + (openingTag name (write attributes)).length) inside ++
      textNodes write above (start + (openingTag name (write attributes) ++ inside.render write ++
        closingTag name).length) rest
  | above, start, single name attributes rest =>
    textNodes write above (start + (openingTag name (write attributes ++ ['/'])).length) rest

variable {f : Forest α} {above : List Tag} {start : Nat}

/-! ### Where texts and tags stand -/

/-- A text stands in the document where its node says. -/
theorem exists_render_eq {node : TextNode} (h : node ∈ f.textNodes write above start) :
    ∃ before behind, f.render write = before ++ (node.text ++ behind) ∧
      start + before.length = node.start := by
  induction f generalizing above start with
  | nil => cases h
  | text t rest ih =>
    rcases List.mem_cons.mp h with rfl | h
    · exact ⟨[], rest.render write, rfl, rfl⟩
    · obtain ⟨before, behind, hrender, hstart⟩ := ih h
      refine ⟨t ++ before, behind, ?_, ?_⟩
      · rw [render, hrender, List.append_assoc]
      · rw [List.length_append]
        omega
  | element name attributes inside rest ihInside ihRest =>
    rcases List.mem_append.mp h with h | h
    · obtain ⟨before, behind, hrender, hstart⟩ := ihInside h
      refine ⟨openingTag name (write attributes) ++ before,
        behind ++ (closingTag name ++ rest.render write), ?_, ?_⟩
      · simp only [render, hrender, List.append_assoc]
      · rw [List.length_append]
        omega
    · obtain ⟨before, behind, hrender, hstart⟩ := ihRest h
      refine ⟨openingTag name (write attributes) ++ inside.render write ++ closingTag name ++ before,
        behind, ?_, ?_⟩
      · simp only [render, hrender, List.append_assoc]
      · rw [List.length_append]
        omega
  | single name attributes rest ih =>
    obtain ⟨before, behind, hrender, hstart⟩ := ih h
    refine ⟨openingTag name (write attributes ++ ['/']) ++ before, behind, ?_, ?_⟩
    · rw [render, hrender, List.append_assoc]
    · rw [List.length_append]
      omega

theorem textNode_within {node : TextNode} (h : node ∈ f.textNodes write above start) :
    start ≤ node.start ∧ node.start + node.text.length ≤ start + (f.render write).length := by
  obtain ⟨before, behind, hrender, hstart⟩ := exists_render_eq h
  rw [hrender, List.length_append, List.length_append]
  omega

theorem event_within {event : TagEvent} (h : event ∈ f.events write start) :
    start ≤ event.tag.position ∧ event.tag.position < start + (f.render write).length := by
  induction f generalizing start with
  | nil => cases h
  | text t rest ih =>
    have hrest := ih h
    rw [render, List.length_append]
    omega
  | element name attributes inside rest ihInside ihRest =>
    have hopening : 0 < (openingTag name (write attributes)).length := Nat.succ_pos _
    have hclosing : 0 < (closingTag name).length := Nat.succ_pos _
    simp only [render, List.length_append]
    rw [events, List.mem_cons, List.mem_append, List.mem_cons] at h
    rcases h with rfl | h | rfl | h
    · simp only [Tag.ofAttributes]
      omega
    · have hinside := ihInside h
      omega
    · simp only [List.length_append]
      omega
    · have hrest := ihRest h
      simp only [List.length_append] at hrest
      omega
  | single name attributes rest ih =>
    have hopening : 0 < (openingTag name (write attributes ++ ['/'])).length := Nat.succ_pos _
    rw [render, List.length_append]
    rcases List.mem_cons.mp h with rfl | h
    · simp only
      omega
    · have hrest := ih h
      omega

/-! ### Replaying -/

/-- A whole forest leaves the stack as it was. -/
theorem foldl_replay_events (write : α → Text) (f : Forest α) (start : Nat) (stack : List Tag) :
    (f.events write start).foldl replay stack = stack := by
  induction f generalizing start stack with
  | nil => rfl
  | text t rest ih => exact ih _ stack
  | element name attributes inside rest ihInside ihRest =>
    rw [events, List.foldl_cons, List.foldl_append, ihInside, List.foldl_cons, ihRest]
    simp [replay, closeNearest, Tag.ofAttributes]
  | single name attributes rest ih =>
    rw [events, List.foldl_cons, ih]
    rfl

/-- The tags before a character of a text leave what is around the text on the stack. -/
theorem foldl_replay_before {node : TextNode} {p : Nat}
    (h : node ∈ f.textNodes write above start) (hp : node.start ≤ p)
    (hp' : p < node.start + node.text.length) :
    ((f.events write start).takeWhile fun e => e.tag.position < p).foldl replay above.reverse =
      node.ancestors.reverse := by
  induction f generalizing above start with
  | nil => cases h
  | text t rest ih =>
    rcases List.mem_cons.mp h with rfl | h
    · have hlater : ∀ e ∈ (rest.events write (start + t.length)).head?,
          decide (e.tag.position < p) = false := by
        intro e he
        have hevent := event_within (List.mem_of_mem_head? he)
        simp only [decide_eq_false_iff_not] at hp' ⊢
        omega
      have hnone := takeWhile_append_left (l := []) hlater
      rw [List.nil_append] at hnone
      rw [events, hnone]
      rfl
    · exact ih h
  | element name attributes inside rest ihInside ihRest =>
    have hopening : 0 < (openingTag name (write attributes)).length := Nat.succ_pos _
    have hclosing : 0 < (closingTag name).length := Nat.succ_pos _
    have hopened : (openingTag name (write attributes) ++ inside.render write).length =
        (openingTag name (write attributes)).length + (inside.render write).length :=
      List.length_append
    have hlength : (openingTag name (write attributes) ++ inside.render write ++
        closingTag name).length = (openingTag name (write attributes)).length +
          (inside.render write).length + (closingTag name).length := by
      rw [List.length_append, hopened]
    rcases List.mem_append.mp h with h | h
    · -- The closing tag stands behind the text, so nothing from it on is replayed.
      have hnode := textNode_within h
      have hinside := ihInside h
      rw [List.reverse_append] at hinside
      rw [events, List.takeWhile_cons_of_pos, takeWhile_append_left, List.foldl_cons]
      · exact hinside
      · intro e he
        cases he
        simp only [decide_eq_false_iff_not]
        omega
      · exact decide_eq_true (show start < p by omega)
    · -- The whole element stands before the text and leaves the stack as it was.
      have hnode := textNode_within h
      have hbefore : ∀ e ∈ inside.events write (start + (openingTag name (write attributes)).length),
          decide (e.tag.position < p) = true := by
        intro e he
        have hevent := event_within he
        rw [decide_eq_true_eq]
        omega
      have hrest := ihRest h
      rw [events, List.takeWhile_cons_of_pos, List.takeWhile_append_of_pos hbefore,
        List.takeWhile_cons_of_pos, List.foldl_cons, List.foldl_append, foldl_replay_events,
        List.foldl_cons]
      · simpa [replay, closeNearest, Tag.ofAttributes] using hrest
      · simp only [decide_eq_true_eq]
        omega
      · exact decide_eq_true (show start < p by omega)
  | single name attributes rest ih =>
    have hopening : 0 < (openingTag name (write attributes ++ ['/'])).length := Nat.succ_pos _
    have hnode := textNode_within (f := rest) h
    rw [events, List.takeWhile_cons_of_pos, List.foldl_cons]
    · exact ih h
    · simp only [decide_eq_true_eq]
      omega

/-- At every character of a text of a document the open tags are the elements around the text,
outermost first, and the place is excluded exactly if one of them matches a rule. -/
theorem openTags_eq_ancestors (hf : f.WellFormed write) {rules : List Rule} (hrules : rules ≠ [])
    {node : TextNode} (hnode : node ∈ f.textNodes write [] 0) {p : Nat} (hp : node.start ≤ p)
    (hp' : p < node.start + node.text.length) :
    (f.render write)[p]? = node.text[p - node.start]? ∧
      (Exclusion.ofDocument (f.render write) rules).openTags p = node.ancestors ∧
      ((Exclusion.ofDocument (f.render write) rules).excludes p = true ↔
        ∃ tag ∈ node.ancestors, ∃ rule ∈ rules, rule.matches tag = true) := by
  have hopen : (Exclusion.ofDocument (f.render write) rules).openTags p = node.ancestors := by
    have hreplay := foldl_replay_before hnode hp hp'
    rw [List.reverse_nil] at hreplay
    rw [Exclusion.ofDocument, if_neg (by simpa using hrules), tagEvents_render hf,
      Exclusion.openTags, hreplay, List.reverse_reverse]
  refine ⟨?_, hopen, ?_⟩
  · obtain ⟨before, behind, hrender, hstart⟩ := exists_render_eq hnode
    rw [Nat.zero_add] at hstart
    rw [hrender, List.getElem?_append_right (by omega), hstart,
      List.getElem?_append_left (by omega)]
  · rw [Exclusion.excludes, hopen, List.any_eq_true]
    simp only [matchesAny, List.any_eq_true]
    rfl

end Forest

/-- An element that closes before a break and a text. -/
def menuPage : Forest Text :=
  .element "Nav".toList " id=\"menu\" class='top wide'".toList
    (.element "nav".toList [] (.text "One > two".toList .nil)
      (.single "br".toList " ".toList (.text "there".toList .nil))) .nil

/-- Within "there" the outer element is open, and neither the inner one of its name nor the break. -/
theorem openTags_eq_ancestors_menuPage :
    (menuPage.render id)[60]? = some 'e' ∧
      ((Exclusion.ofDocument (menuPage.render id) [⟨none, none, ["wide".toList]⟩]).openTags 60) =
        [⟨"nav".toList, some "menu".toList, ["top".toList, "wide".toList], 0⟩] ∧
      (Exclusion.ofDocument (menuPage.render id) [⟨none, none, ["wide".toList]⟩]).excludes 60 =
        true := by
  have hslash : ∀ t : Text, endsWithSlash t = false → ¬ EndsInSlash t := fun t ht hends =>
    Bool.eq_false_iff.mp ht (endsWithSlash_iff.mpr hends)
  have hf : menuPage.WellFormed id :=
    ⟨⟨by decide, by decide, hslash _ (by decide)⟩,
      ⟨⟨by decide, by decide, hslash _ (by decide)⟩, ⟨by decide, trivial⟩,
        ⟨by decide, by decide⟩, by decide, trivial⟩, trivial⟩
  have hnode : ⟨58, "there".toList,
      [⟨"nav".toList, some "menu".toList, ["top".toList, "wide".toList], 0⟩]⟩ ∈
        menuPage.textNodes id [] 0 := by
    decide +kernel
  have hrules : [⟨none, none, ["wide".toList]⟩] ≠ ([] : List Rule) := List.cons_ne_nil _ _
  obtain ⟨hchar, hopen, hexcluded⟩ :=
    Forest.openTags_eq_ancestors hf hrules hnode (p := 60) (by decide) (by decide)
  exact ⟨hchar, hopen, hexcluded.mpr ⟨_, List.mem_cons_self, _, List.mem_cons_self, by decide⟩⟩

end Localize.Markup
