import Localize.Proofs.Markup.Forest
import Localize.Proofs.Markup.Nesting

/-!
# Cutting a document

The tags of a document are read from the left, each behind the end of the one before. A tag without
an end reaches over all that is written behind it, up to the next `>`, even if another tag begins
there. So where a tag of a document is found, nothing before it is without an end, and what stands
before it is cut into the same tags whatever is written in its place.
-/

namespace Localize.Markup

/-- The tags of a document as they are written. -/
def writtenTags (code : Text) : List (Text.Found WrittenTag) :=
  Text.scan (fun _ t => writtenTag? t) code

/-- The tag of a document as it is replayed. -/
def eventOf (tag : Text.Found WrittenTag) : TagEvent := .ofWritten tag.value tag.start

theorem tagEvents_eq_map (code : Text) : tagEvents code = (writtenTags code).map eventOf := rfl

variable {code before behind z r r' : Text} {tag : Text.Found WrittenTag} {pos skip position : Nat}

/-- A tag of a document stands in it where it was found. -/
theorem exists_of_mem_writtenTags (h : tag ∈ writtenTags code) :
    ∃ before behind, code = before ++ (tag.value.write ++ behind) ∧ before.length = tag.start ∧
      tag.length = tag.value.write.length := by
  obtain ⟨hstart, hread⟩ := Text.matcher_of_mem_scan h
  obtain ⟨-, hlength, behind, hbehind⟩ := exists_of_writtenTag? hread
  refine ⟨code.take tag.start, behind, ?_, List.length_take_of_le hstart, hlength⟩
  rw [← hbehind, List.take_append_drop]

theorem start_lt_of_mem_writtenTags (h : tag ∈ writtenTags code) : tag.start < code.length := by
  obtain ⟨before, behind, rfl, hstart, -⟩ := exists_of_mem_writtenTags h
  have hwrite : 0 < tag.value.write.length := Nat.succ_pos _
  simp only [List.length_append]
  omega

/-! ### Tags without an end -/

/-- A `<` within a tag stands in its attributes. -/
theorem WrittenTag.WellFormed.exists_attributes_prefix {w : WrittenTag} (h : w.WellFormed)
    (hz : z ≠ []) (hwrite : w.write = z ++ '<' :: r) :
    ∃ a, a <+: w.attributes ∧ z = '<' :: ((if w.closing then ['/'] else []) ++ (w.name ++ a)) := by
  obtain ⟨c, z, rfl⟩ := List.exists_cons_of_ne_nil hz
  have hname : '<' ∉ (if w.closing then ['/'] else []) ++ w.name := by
    rw [List.mem_append, not_or]
    refine ⟨by split <;> decide, fun hmem => ?_⟩
    exact absurd (h.name.2 '<' hmem) (by decide)
  rw [WrittenTag.write, List.cons_append, List.cons.injEq, ← List.append_assoc] at hwrite
  obtain ⟨rfl, hwrite⟩ := hwrite
  rcases List.append_eq_append_iff.mp hwrite with ⟨a, rfl, hend⟩ | ⟨d, hsplit, hd⟩
  · refine ⟨a, ?_, by rw [List.append_assoc]⟩
    rcases List.append_eq_append_iff.mp hend with ⟨d, -, hd⟩ | ⟨d, hattributes, -⟩
    · have hstart : '<' ∈ ['>'] := hd ▸ by simp
      exact absurd hstart (by decide)
    · exact ⟨d, hattributes.symm⟩
  · cases d with
    | nil =>
      rw [List.append_nil] at hsplit
      exact ⟨[], List.nil_prefix, by rw [List.append_nil, hsplit]⟩
    | cons d rest =>
      obtain ⟨rfl, -⟩ := List.cons.inj hd
      exact absurd (hsplit ▸ by simp) hname

/-- A tag that goes on with a `<` before its end is a tag. -/
theorem WrittenTag.WellFormed.reaching_over {w : WrittenTag} {a b : Text} (h : w.WellFormed)
    (ha : a <+: w.attributes) (hb : '>' ∉ b) :
    WrittenTag.WellFormed ⟨w.closing, w.name, a ++ '<' :: b⟩ := by
  refine ⟨h.name, fun c hc => ?_, ?_⟩
  · cases a with
    | nil =>
      cases hc
      decide
    | cons d a =>
      obtain ⟨more, hmore⟩ := ha
      exact h.head c (by rw [← hmore]; exact hc)
  · simp only [List.mem_append, List.mem_cons, not_or]
    exact ⟨fun hmem => h.noEnd (ha.subset hmem), by decide, hb⟩

/-- What does not reach over a `<` behind it is read alike whatever is written there. -/
theorem writtenTag?_append_start (hz : z ≠ []) (hend : '>' ∈ r)
    (hwithin : ∀ w n, writtenTag? (z ++ '<' :: r) = some (w, n) → n ≤ z.length) (r' : Text) :
    writtenTag? (z ++ '<' :: r') = writtenTag? z := by
  have hwhole : ∀ {w : WrittenTag} {u}, w.WellFormed → z = w.write ++ u →
      ∀ v, writtenTag? (z ++ v) = some (w, w.write.length) := fun hw hwrite v => by
    rw [hwrite, List.append_assoc]
    exact writtenTag?_write hw _
  cases hread : writtenTag? z with
  | some read =>
    obtain ⟨w, n⟩ := read
    obtain ⟨hw, rfl, u, hwrite⟩ := exists_of_writtenTag? hread
    exact hwhole hw hwrite _
  | none =>
    rw [Option.eq_none_iff_forall_not_mem]
    rintro ⟨w, n⟩ hreach
    obtain ⟨hw, -, u, hu⟩ := exists_of_writtenTag? hreach
    have hnot : ∀ u, z ≠ w.write ++ u := fun u hwrite => by
      have hz := hwhole hw hwrite []
      rw [List.append_nil, hread] at hz
      cases hz
    rcases List.append_eq_append_iff.mp hu with ⟨d, hwrite, hd⟩ | ⟨d, hwrite, -⟩
    · cases d with
      | nil => exact hnot [] (by rw [hwrite, List.append_nil, List.append_nil])
      | cons d y =>
        -- Then `z` begins a tag without an end, and with the next `>` behind it it reaches over.
        obtain ⟨rfl, -⟩ := List.cons.inj hd
        obtain ⟨a, ha, rfl⟩ := hw.exists_attributes_prefix hz hwrite
        obtain ⟨b, rest, rfl, hb⟩ := List.eq_append_cons_of_mem hend
        have hover := writtenTag?_write (hw.reaching_over ha hb) rest
        have hlong := hwithin _ _ (by rw [← hover]; simp [WrittenTag.write])
        simp only [WrittenTag.write, List.length_cons, List.length_append] at hlong
        omega
    · exact hnot d hwrite

/-! ### What stands before a tag -/

/-- Where a scan finds a tag behind a text, it finds the tags of the text before it, whatever is
written in place of the tag. -/
theorem scanFrom_append_start {char : Option Char} (hend : '>' ∈ r)
    (h : tag ∈ Text.scanFrom (fun _ t => writtenTag? t) char pos skip (before ++ '<' :: r))
    (hstart : tag.start = pos + before.length) (r' : Text) :
    Text.scanFrom (fun _ t => writtenTag? t) char pos skip (before ++ '<' :: r') =
      Text.scanFrom (fun _ t => writtenTag? t) char pos skip before ++
        Text.matchesFrom writtenTag? (pos + before.length) ('<' :: r') := by
  induction before generalizing char pos skip with
  | nil =>
    have hskip := Text.le_start_of_mem_scanFrom h
    rw [hstart, List.length_nil] at hskip
    obtain rfl : skip = 0 := by omega
    exact Text.scanFrom_before writtenTag? char none pos 0 ('<' :: r')
  | cons c before ih =>
    have hbehind : tag.start = pos + 1 + before.length := by
      rw [hstart, List.length_cons]
      omega
    have hrest : ∀ {skip}, tag ∈ Text.scanFrom (fun _ t => writtenTag? t) (some c) (pos + 1) skip
          (before ++ '<' :: r) →
        Text.scanFrom (fun _ t => writtenTag? t) (some c) (pos + 1) skip (before ++ '<' :: r') =
          Text.scanFrom (fun _ t => writtenTag? t) (some c) (pos + 1) skip before ++
            Text.matchesFrom writtenTag? (pos + (c :: before).length) ('<' :: r') := fun h => by
      rw [ih h hbehind, List.length_cons, Nat.add_assoc, Nat.add_comm 1]
    cases skip with
    | succ skip => exact hrest h
    | zero =>
      -- A match here is not the tag, which stands behind it.
      have hlater : ∀ w n, writtenTag? (c :: before ++ '<' :: r) = some (w, n) →
          tag ∈ Text.scanFrom (fun _ t => writtenTag? t) (some c) (pos + 1) (n - 1)
            (before ++ '<' :: r) := by
        intro w n hread
        rw [List.cons_append] at hread
        simp only [List.cons_append, Text.scanFrom, hread] at h
        refine (List.mem_cons.mp h).resolve_left fun hfirst => ?_
        rw [hfirst] at hbehind
        simp only at hbehind
        omega
      have hwithin : ∀ w n, writtenTag? (c :: before ++ '<' :: r) = some (w, n) →
          n ≤ (c :: before).length := by
        intro w n hread
        have hover := Text.le_start_of_mem_scanFrom (hlater w n hread)
        rw [List.length_cons]
        omega
      have hsame := writtenTag?_append_start (List.cons_ne_nil c before) hend hwithin
      cases hread : writtenTag? (c :: before) with
      | none =>
        have hnone := (hsame r).trans hread
        have hnone' := (hsame r').trans hread
        simp only [List.cons_append] at h hnone hnone' ⊢
        simp only [Text.scanFrom, hread, hnone, hnone'] at h ⊢
        exact hrest h
      | some read =>
        obtain ⟨w, n⟩ := read
        have hsome' := (hsame r').trans hread
        simp only [List.cons_append] at hsome' ⊢
        simp only [Text.scanFrom, hread, hsome', List.cons_append]
        rw [hrest (hlater w n ((hsame r).trans hread))]

/-- What stands before a tag of a document is cut into the same tags whatever is written in place of
the tag. -/
theorem writtenTags_append_start (hend : '>' ∈ r) (h : tag ∈ writtenTags (before ++ '<' :: r))
    (hstart : tag.start = before.length) (r' : Text) :
    writtenTags (before ++ '<' :: r') =
      writtenTags before ++ Text.matchesFrom writtenTag? before.length ('<' :: r') := by
  have hscan := scanFrom_append_start hend h (by rw [hstart, Nat.zero_add]) r'
  rw [Nat.zero_add] at hscan
  exact hscan

/-! ### Tags before a position -/

theorem filter_tagEvents (code : Text) (p : Nat → Bool) :
    ((tagEvents code).filter fun event => p event.tag.position) =
      ((writtenTags code).filter fun tag => p tag.start).map eventOf := by
  rw [tagEvents_eq_map, List.filter_map]
  congr 2
  funext tag
  simp only [Function.comp_apply, eventOf, TagEvent.position_ofWritten]

theorem tagsBefore_eq_map (code : Text) (position : Nat) : tagsBefore code position =
    ((writtenTags code).filter (·.start < position)).map eventOf :=
  filter_tagEvents code fun p => p < position

/-- The tags before a place behind a tag are those before the tag, the tag itself and those between. -/
theorem tagsBefore_behind (h : tag ∈ writtenTags code) (hposition : tag.start < position) :
    tagsBefore code position = tagsBefore code tag.start ++ eventOf tag ::
      (tagEvents code).filter fun event =>
        tag.start < event.tag.position ∧ event.tag.position < position := by
  obtain ⟨front, back, hsplit⟩ := List.append_of_mem h
  have hstarts : (front ++ tag :: back).Pairwise (·.start < ·.start) :=
    hsplit ▸ Text.pairwise_scan (fun _ t => writtenTag? t) code
  have hfront : ∀ f ∈ front, f.start < tag.start := fun f hf =>
    (List.pairwise_append.mp hstarts).2.2 f hf tag List.mem_cons_self
  have hback : ∀ f ∈ back, tag.start < f.start :=
    (List.pairwise_cons.mp (List.pairwise_append.mp hstarts).2.1).1
  have hbefore : front.filter (·.start < position) = front ∧
      front.filter (·.start < tag.start) = front ∧
      front.filter (fun f => tag.start < f.start ∧ f.start < position) = [] := by
    refine ⟨List.filter_eq_self.mpr fun f hf => ?_, List.filter_eq_self.mpr fun f hf => ?_,
      List.filter_eq_nil_iff.mpr fun f hf => ?_⟩
    · exact decide_eq_true ((hfront f hf).trans hposition)
    · exact decide_eq_true (hfront f hf)
    · simpa using fun hlt => absurd hlt (Nat.lt_asymm (hfront f hf))
  have hbehind : back.filter (·.start < tag.start) = [] ∧
      back.filter (fun f => tag.start < f.start ∧ f.start < position) =
        back.filter (·.start < position) := by
    refine ⟨List.filter_eq_nil_iff.mpr fun f hf => ?_, List.filter_congr fun f hf => ?_⟩
    · simpa using Nat.le_of_lt (hback f hf)
    · simp [hback f hf]
  rw [filter_tagEvents code fun p => tag.start < p ∧ p < position, tagsBefore_eq_map,
    tagsBefore_eq_map, hsplit]
  simp only [List.filter_append, List.filter_cons, hbefore, hbehind, hposition, Nat.lt_irrefl,
    decide_true, decide_false, false_and, if_true, Bool.false_eq_true, if_false, List.append_nil,
    List.nil_append, List.map_append, List.map_cons]

/-- Within a tag the tags before are those before it and the tag itself. -/
theorem tagsBefore_within (h : tag ∈ writtenTags code) (hstart : tag.start < position)
    (hstop : position ≤ tag.start + tag.length) :
    tagsBefore code position = tagsBefore code tag.start ++ [eventOf tag] := by
  have hnone : (writtenTags code).filter
      (fun f => tag.start < f.start ∧ f.start < position) = [] := by
    refine List.filter_eq_nil_iff.mpr fun f hf => ?_
    rw [decide_eq_true_eq]
    rintro ⟨hbehind, hbefore⟩
    have hend := Text.end_le_of_mem_scan h hf hbehind
    omega
  rw [tagsBefore_behind h hstart,
    filter_tagEvents code fun p => tag.start < p ∧ p < position, hnone, List.map_nil]

/-- Up to its front a document has the tags that the front has by itself. -/
theorem tagsBefore_of_cut {before behind : Text}
    (h : writtenTags code = writtenTags before ++ Text.matchesFrom writtenTag? before.length behind)
    (hp : position ≤ before.length) : tagsBefore code position = tagsBefore before position := by
  have hbehind : (Text.matchesFrom writtenTag? before.length behind).filter
      (·.start < position) = [] := by
    refine List.filter_eq_nil_iff.mpr fun tag htag => ?_
    have hstart : before.length ≤ tag.start := Text.le_start_of_mem_scanFrom htag
    rw [decide_eq_true_eq]
    omega
  rw [tagsBefore_eq_map, h, List.filter_append, hbehind, List.append_nil, tagsBefore_eq_map]

end Localize.Markup
