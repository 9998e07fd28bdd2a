import Localize.Proofs.Glossary.Exchange
import Mathlib.Data.List.Perm.Subperm

/-!
# The selection of spans

Of spans that overlap one at most can give way to a placeholder. Those selected go from the right to
the left and no two of them overlap. A span that is left out overlaps one that is selected, further
right or at the same place and then as long at least. And no other way to choose spans that do not
overlap gives more of them: the beginnings of the spans selected are places of which every span
covers one, and spans that do not overlap cover different ones.
-/

namespace Localize.Span

/-- A place of a text belongs to the span. -/
def Covers (s : Span) (i : Int) : Prop := s.start ≤ i ∧ i < s.stop

/-- Some place belongs to both spans. -/
def Overlaps (s s' : Span) : Prop := ∃ i, s.Covers i ∧ s'.Covers i

/-- No two of the spans overlap. -/
def NoneOverlap (spans : List Span) : Prop := spans.Pairwise fun s s' => ¬s.Overlaps s'

variable {spans chosen : List Span} {s s' : Span}

theorem start_lt_stop (h : s.text ≠ []) : s.start < s.stop := by
  have hlength := List.length_pos_of_ne_nil h
  rw [stop]
  omega

theorem covers_start (h : s.text ≠ []) : s.Covers s.start :=
  ⟨Int.le_refl _, start_lt_stop h⟩

theorem not_overlaps_of_stop_le (h : s'.stop ≤ s.start) : ¬s.Overlaps s' := by
  rintro ⟨i, ⟨hstart, -⟩, -, hstop⟩
  omega

theorem select_subperm (spans : List Span) : (select spans).Subperm spans :=
  (keepDisjoint_sublist none _).subperm.trans (sortBy_perm precedes spans).subperm

theorem text_ne_nil_of_mem_select (hne : ∀ s ∈ spans, s.text ≠ []) (h : s ∈ select spans) :
    s.text ≠ [] :=
  hne s (mem_of_mem_select h)

theorem pairwise_start_select (hne : ∀ s ∈ spans, s.text ≠ []) :
    (select spans).Pairwise fun s s' => s'.start < s.start := by
  refine (apart_select spans).imp_of_mem fun {s s'} _ hs' hstop => ?_
  exact Int.lt_of_lt_of_le (start_lt_stop (text_ne_nil_of_mem_select hne hs')) hstop

theorem noneOverlap_select (spans : List Span) : NoneOverlap (select spans) :=
  (apart_select spans).imp not_overlaps_of_stop_le

/-- Every span covers the beginning of one that is selected, which begins at or behind its own
beginning. -/
theorem exists_selected (hne : ∀ s ∈ spans, s.text ≠ []) (hs : s ∈ spans) :
    ∃ s' ∈ select spans, s.Covers s'.start ∧ Behind s' s := by
  obtain ⟨s', hs', hstop, hbehind⟩ := exists_mem_select hs (hne s hs)
  exact ⟨s', hs', ⟨hbehind.start_le, hstop⟩, hbehind⟩

theorem NoneOverlap.nodup (h : NoneOverlap chosen) (hne : ∀ s ∈ chosen, s.text ≠ []) :
    chosen.Nodup := by
  refine h.imp_of_mem fun {s s'} hs _ hover heq => hover ?_
  exact ⟨s.start, covers_start (hne s hs), heq ▸ covers_start (hne s hs)⟩

/-- Spans that do not overlap are no more than those selected: each covers the beginning of a selected
one, and no two the same. -/
theorem length_le_length_select (hne : ∀ s ∈ spans, s.text ≠ []) (hchosen : chosen ⊆ spans)
    (h : NoneOverlap chosen) : chosen.length ≤ (select spans).length := by
  have hcovered : ∀ s : Span, ∃ s' : Span,
      s ∈ spans → s' ∈ select spans ∧ s.Covers s'.start := by
    intro s
    by_cases hs : s ∈ spans
    · obtain ⟨s', hs', hcovers, -⟩ := exists_selected hne hs
      exact ⟨s', fun _ => ⟨hs', hcovers⟩⟩
    · exact ⟨s, fun h => absurd h hs⟩
  choose selected hselected using hcovered
  have hnodup : (chosen.map selected).Nodup := by
    refine List.pairwise_map.mpr (h.imp_of_mem fun {s s'} hs hs' hover heq => hover ?_)
    refine ⟨(selected s).start, (hselected s (hchosen hs)).2, ?_⟩
    rw [heq]
    exact (hselected s' (hchosen hs')).2
  have hsubset : chosen.map selected ⊆ select spans := by
    intro s' hs'
    obtain ⟨s, hs, rfl⟩ := List.mem_map.mp hs'
    exact (hselected s (hchosen hs)).1
  calc
    chosen.length = (chosen.map selected).length := (List.length_map selected).symm
    _ ≤ (select spans).length := (List.subperm_of_subset hnodup hsubset).length_le

/-- The selection from spans that are not empty: they are among the given ones, no more often than
there, from the right to the left and without overlaps; every given span, also one that is left out or
repeated, overlaps a selected one at or behind its place, as long at least where both begin together;
and no choice of spans that do not overlap is larger. -/
theorem select_largest (hne : ∀ s ∈ spans, s.text ≠ []) :
    (select spans).Subperm spans ∧
    ((select spans).Pairwise fun s s' => s'.start < s.start) ∧
    NoneOverlap (select spans) ∧
    (∀ s ∈ spans, ∃ s' ∈ select spans, s.Overlaps s' ∧ s.start ≤ s'.start ∧
      (s'.start = s.start → s.text.length ≤ s'.text.length)) ∧
    ∀ chosen : List Span, chosen ⊆ spans → NoneOverlap chosen →
      chosen.length ≤ (select spans).length := by
  refine ⟨select_subperm spans, pairwise_start_select hne, noneOverlap_select spans, ?_,
    fun chosen hchosen h => length_le_length_select hne hchosen h⟩
  intro s hs
  obtain ⟨s', hs', hcovers, hbehind⟩ := exists_selected hne hs
  have hover : s.Overlaps s' :=
    ⟨s'.start, hcovers, covers_start (text_ne_nil_of_mem_select hne hs')⟩
  refine ⟨s', hs', hover, hbehind.start_le, fun heq => ?_⟩
  rcases hbehind with hlt | ⟨-, hlength⟩
  · omega
  · exact hlength

/-- Spans of a text about a big data lake. -/
def lake : List Span :=
  [⟨0, "Big Data".toList⟩, ⟨0, "Big".toList⟩, ⟨4, "Data".toList⟩, ⟨4, "Data".toList⟩,
    ⟨4, "Data Lake".toList⟩]

theorem select_largest_lake :
    (∀ s ∈ lake, s.text ≠ []) ∧
      select lake = [⟨4, "Data Lake".toList⟩, ⟨0, "Big".toList⟩] ∧
      ∀ chosen : List Span, chosen ⊆ lake → NoneOverlap chosen → chosen.length ≤ 2 := by
  have hne : ∀ s ∈ lake, s.text ≠ [] := by decide
  have hselect : select lake = [⟨4, "Data Lake".toList⟩, ⟨0, "Big".toList⟩] := by decide
  refine ⟨hne, hselect, fun chosen hchosen h => ?_⟩
  have hlength := (select_largest hne).2.2.2.2 chosen hchosen h
  rw [hselect] at hlength
  exact hlength

end Localize.Span
