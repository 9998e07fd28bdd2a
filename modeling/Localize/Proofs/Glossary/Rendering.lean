import Localize.Proofs.Glossary.Settling

/-!
# Terms in a sentence and alone

A span of a text that gives way to a placeholder is recorded with the final form of the last entry,
in the order of the terms, that stands there and has one. The matched text alone is settled by the
entry that it is the term of, letter case first. Where letter case counts for the recorded entry
this is the same entry; where it does not, another entry may settle the text, and then the term is
rendered in one way alone and in another inside a sentence.
-/

namespace Localize.Glossary

open Localize.Span Placeholder

variable {g : Glossary} {language t : Text} {e : Entry} {s : Span}

/-- Every term is a text without blanks at its ends. -/
theorem trimmed_after (path : Option Path) (v : Volume) (acts : List (Nat × Act)) :
    ∀ e ∈ (after (Glossary.empty path, v) acts).1.terms.values,
      ∃ term, e.term = .str term ∧ Text.strip term = term := by
  refine forall_values_after (fun e he => absurd he List.not_mem_nil) fun a _ => ⟨?_, ?_⟩
  · intro draft e _ h
    unfold Draft.entry at h
    split at h
    · next term hterm =>
      split at h
      · cases h
      · split at h
        · cases h
        · cases h
          exact ⟨Text.strip term, rfl, Text.strip_strip term⟩
    · cases h
  · exact fun _ _ _ _ _ h => h

/-! ### The entry recorded for a span -/

/-- The occurrences of the term of an entry; none where the term is no text. -/
def Entry.occurrencesIn (e : Entry) (t : Text) : List Occurrence :=
  match e.occurrences t with
  | .ok found => found
  | .error _ => []

/-- The term of the entry is found at the span. -/
def Entry.StandsAt (e : Entry) (t : Text) (s : Span) : Prop :=
  ∃ m ∈ e.occurrencesIn t, m.span = s

/-- The entry is the last, in the order of the terms, of those that have a final form and whose term
is found at the span. -/
def LastAt (g : Glossary) (language t : Text) (s : Span) (e : Entry) : Prop :=
  ∃ before behind, g.terms.values = before ++ e :: behind ∧ e.StandsAt t s ∧
    (e.final? language).isSome ∧
    ∀ e' ∈ behind, (e'.final? language).isSome → ¬e'.StandsAt t s

theorem LastAt.mem (h : g.LastAt language t s e) : e ∈ g.terms.values := by
  obtain ⟨before, behind, hvalues, -⟩ := h
  rw [hvalues]
  exact List.mem_append_right before List.mem_cons_self

theorem Entry.mem_occurrencesIn {m : Occurrence} (h : m ∈ e.occurrencesIn t) :
    m.entry = e ∧ m.span.In t ∧ (e.caseSensitive = true → e.term = .str m.matched) := by
  unfold Entry.occurrencesIn at h
  split at h
  · next found hfound => exact Entry.mem_occurrences hfound h
  · cases h

theorem flatten_of_forall₂ {entries : List Entry} {parts : List (List Occurrence)}
    (h : List.Forall₂ (fun e part => e.occurrences t = .ok part) entries parts) :
    parts.flatten = entries.flatMap (·.occurrencesIn t) := by
  induction h with
  | nil => rfl
  | cons hpart _ ih =>
    rw [List.flatten_cons, List.flatMap_cons, ih, Entry.occurrencesIn, hpart]

theorem find_eq {found : List Occurrence} (h : g.find t = .ok found) :
    found = sortBy (fun m n => m.position < n.position)
      (g.terms.values.flatMap (·.occurrencesIn t)) := by
  obtain ⟨each, heach, h⟩ := bind_ok_iff.mp h
  cases h
  rw [flatten_of_forall₂ (mapM_ok_iff.mp heach)]

/-- The occurrences of one entry at a span, with its final form if it has one. -/
def candidatesAt (language t : Text) (s : Span) (e : Entry) : List (Occurrence × Json) :=
  ((e.occurrencesIn t).filter fun m => s = m.span).filterMap fun m =>
    (m.entry.final? language).map fun final => (m, final)

/-- The candidates at a span come in the order of the terms: they stand at one place, and a stable
sort by place leaves their order alone. -/
theorem filter_candidates {found : List Occurrence} (h : g.find t = .ok found) (s : Span) :
    (g.candidates language t).filter (fun c => s = c.1.span) =
      g.terms.values.flatMap (candidatesAt language t s) := by
  have hcandidates : g.candidates language t = found.filterMap fun m =>
      (m.entry.final? language).map fun final => (m, final) := by
    unfold candidates reservable
    rw [h]
    rfl
  have hfilter : (found.filterMap fun m => (m.entry.final? language).map fun final =>
      (m, final)).filter (fun c => s = c.1.span) = (found.filter fun m => s = m.span).filterMap
        fun m => (m.entry.final? language).map fun final => (m, final) := by
    rw [List.filter_filterMap, List.filterMap_filter]
    refine List.filterMap_congr fun m _ => ?_
    cases m.entry.final? language <;> by_cases hs : s = m.span <;> simp [hs]
  have hstable : (found.filter fun m => s = m.span) =
      (g.terms.values.flatMap (·.occurrencesIn t)).filter fun m => s = m.span := by
    rw [find_eq h]
    refine filter_sortBy fun m _ n _ hm hn => ?_
    have hplace : m.span.start = n.span.start := by
      rw [← of_decide_eq_true hm, ← of_decide_eq_true hn]
    have hposition : m.position = n.position := Int.ofNat.inj hplace
    simp [hposition]
  rw [hcandidates, hfilter, hstable, List.filter_flatMap, List.filterMap_flatMap]
  rfl

theorem mem_candidatesAt_iff {m : Occurrence} {final : Json} :
    (m, final) ∈ candidatesAt language t s e ↔
      m ∈ e.occurrencesIn t ∧ m.span = s ∧ e.final? language = some final := by
  unfold candidatesAt
  rw [List.mem_filterMap]
  constructor
  · rintro ⟨m', hm', hfinal⟩
    obtain ⟨hmem, hspan⟩ := List.mem_filter.mp hm'
    obtain ⟨final', hfinal', heq⟩ := Option.map_eq_some_iff.mp hfinal
    cases heq
    obtain ⟨rfl, -⟩ := Entry.mem_occurrencesIn hmem
    exact ⟨hmem, (of_decide_eq_true hspan).symm, hfinal'⟩
  · rintro ⟨hmem, hspan, hfinal⟩
    obtain ⟨rfl, -⟩ := Entry.mem_occurrencesIn hmem
    exact ⟨m, List.mem_filter.mpr ⟨hmem, by simp [hspan]⟩, by rw [hfinal]; rfl⟩

/-- The last element of several lists together is the last one of the last list that is not
empty. -/
theorem exists_of_getLast?_flatMap {α β : Type} {f : α → List β} {items : List α} {b : β}
    (h : (items.flatMap f).getLast? = some b) : ∃ before a behind,
      items = before ++ a :: behind ∧ b ∈ f a ∧ ∀ a' ∈ behind, f a' = [] := by
  induction items with
  | nil => cases h
  | cons a items ih =>
    rw [List.flatMap_cons] at h
    by_cases hrest : items.flatMap f = []
    · rw [hrest, List.append_nil] at h
      exact ⟨[], a, items, rfl, List.mem_of_getLast? h, List.flatMap_eq_nil_iff.mp hrest⟩
    · rw [List.getLast?_append_of_ne_nil _ hrest] at h
      obtain ⟨before, a', behind, rfl, hb, hbehind⟩ := ih h
      exact ⟨a :: before, a', behind, rfl, hb, hbehind⟩

/-- What is recorded for a span is what the last entry at the span gives. -/
theorem exists_lastAt {r : Reserved} (h : reservation? (g.candidates language t) s = some r) :
    ∃ e, g.LastAt language t s e ∧ e.final? language = some r.final ∧ r.matched = s.text ∧
      (e.caseSensitive = true → e.term = .str r.matched) := by
  unfold reservation? at h
  obtain ⟨⟨m, final⟩, hfind, rfl⟩ := Option.map_eq_some_iff.mp h
  have hmem := List.mem_reverse.mp (List.mem_of_find?_eq_some hfind)
  obtain ⟨found, hfound, -⟩ := mem_candidates_iff.mp hmem
  rw [← List.head?_filter, List.filter_reverse, List.head?_reverse, filter_candidates hfound]
    at hfind
  obtain ⟨before, e, behind, hvalues, hlast, hbehind⟩ := exists_of_getLast?_flatMap hfind
  obtain ⟨hm, hspan, hfinal⟩ := mem_candidatesAt_iff.mp hlast
  obtain ⟨-, -, hcase⟩ := Entry.mem_occurrencesIn hm
  refine ⟨e, ⟨before, behind, hvalues, ⟨m, hm, hspan⟩, by rw [hfinal]; rfl, ?_⟩, hfinal,
    congrArg Span.text hspan, hcase⟩
  rintro e' he' hform ⟨m', hm', hspan'⟩
  obtain ⟨final', hfinal'⟩ := Option.isSome_iff_exists.mp hform
  have hmem' := mem_candidatesAt_iff.mpr ⟨hm', hspan', hfinal'⟩
  rw [hbehind e' he'] at hmem'
  exact absurd hmem' List.not_mem_nil

/-! ### Placeholders -/

/-- Whatever a glossary is put through, it records for a placeholder the final form of the last
entry at the span. If letter case counts for this entry, it settles the matched text alone, too. So
the text has one rendering, unless it is settled alone by another entry with another form; and then
letter case does not count for the entry recorded. -/
theorem rendered_after (path : Option Path) (v : Volume) (acts : List (Nat × Act))
    (language : Text) (strings : List Text) :
    let g := (after (Glossary.empty path, v) acts).1
    ∃ prepared, g.protect language strings = .ok prepared ∧ ∀ p ∈ prepared.reservations,
      ∃ t ∈ strings, ∃ s ∈ g.kept language t, ∃ e, g.LastAt language t s e ∧
        p.2.matched = s.text ∧ e.final? language = some p.2.final ∧
        (e.caseSensitive = true → g.Settles p.2.matched e) ∧
        ((∀ final, Table.find? (g.settle language [p.2.matched]).finals p.2.matched = some final →
            final = p.2.final) ↔
          e.caseSensitive = true ∨ ∀ e', g.Settles p.2.matched e' → e' ≠ e →
            ∀ final, e'.final? language = some final → final = p.2.final) := by
  intro g
  have hkeyed : Keyed g.terms := keyed_after path v acts
  have htrimmed := trimmed_after path v acts
  have htextual : g.Textual := fun e he => (htrimmed e he).imp fun _ h => h.1
  refine ⟨_, htextual.protect_eq language strings, fun p hp => ?_⟩
  obtain ⟨t, ht, s, hs, hr⟩ := exists_reservation_of_mem hp
  obtain ⟨e, hlast, hfinal, hmatched, hcase⟩ := exists_lastAt hr
  have hsettles : e.caseSensitive = true → g.Settles p.2.matched e := by
    intro hstrict
    obtain ⟨term, hterm, htrim⟩ := htrimmed e hlast.mem
    obtain rfl : term = p.2.matched := Json.str.inj (hterm.symm.trans (hcase hstrict))
    exact settles_of_strict hlast.mem hstrict hterm htrim
  refine ⟨t, ht, s, hs, e, hlast, hmatched, hfinal, hsettles, ?_⟩
  constructor
  · intro hsame
    refine .inr fun e' he' _ final hfinal' => ?_
    exact hsame final ((find?_settle_self hkeyed).mpr ⟨e', he', hfinal'⟩)
  · intro hothers final hform
    obtain ⟨e', he', hfinal'⟩ := (find?_settle_self hkeyed).mp hform
    have hown : e' = e → final = p.2.final := by
      rintro rfl
      exact Option.some.inj (hfinal'.symm.trans hfinal)
    rcases hothers with hstrict | hothers
    · exact hown (he'.unique hkeyed (hsettles hstrict))
    · by_cases hsame : e' = e
      · exact hown hsame
      · exact hothers e' he' hsame final hfinal'

/-- A name with a form where letter case counts. -/
def strictName : Draft where
  term := Json.lit "Acme"
  translations := .obj [("es".toList, Json.lit "A1")]

/-- The name in small letters with another form, added behind it, where letter case does not
count. -/
def looseName : Draft where
  term := Json.lit "acme"
  translations := .obj [("es".toList, Json.lit "A2")]
  caseSensitive := .bool false

/-- The name is rendered in one way alone and in another inside a sentence, where the entry recorded
is the one added last, for which letter case does not count. -/
theorem name_rendered_in_two_ways :
    let g := (after (Glossary.empty none, ⟨[], []⟩) [(1, .add strictName), (2, .add looseName)]).1
    ∃ prepared, g.protect "es".toList ["see Acme".toList] = .ok prepared ∧
      prepared.reservations.map (fun p => (p.2.matched, p.2.final)) =
        [("Acme".toList, Json.lit "A2")] ∧
      (∀ p ∈ prepared.reservations, ∃ e ∈ g.terms.values, e.caseSensitive = false ∧
        e.final? "es".toList = some p.2.final) ∧
      Table.find? (g.settle "es".toList ["Acme".toList]).finals "Acme".toList =
        some (Json.lit "A1") := by
  intro g
  obtain ⟨prepared, hprepared, hrendered⟩ := rendered_after none ⟨[], []⟩
    [(1, .add strictName), (2, .add looseName)] "es".toList ["see Acme".toList]
  have hrecorded : (g.protect "es".toList ["see Acme".toList]).toOption.map
      (fun p => p.reservations.map fun q => (q.2.matched, q.2.final)) =
        some [("Acme".toList, Json.lit "A2")] := by decide +kernel
  have halone : Table.find? (g.settle "es".toList ["Acme".toList]).finals "Acme".toList =
      some (Json.lit "A1") := by decide +kernel
  rw [hprepared] at hrecorded
  have hmap : prepared.reservations.map (fun p => (p.2.matched, p.2.final)) =
      [("Acme".toList, Json.lit "A2")] := Option.some.inj hrecorded
  refine ⟨prepared, hprepared, hmap, fun p hp => ?_, halone⟩
  obtain ⟨t, -, s, -, e, hlast, -, hfinal, hsettles, hsame⟩ := hrendered p hp
  have hpair : (p.2.matched, p.2.final) = ("Acme".toList, Json.lit "A2") := by
    have hmem := List.mem_map_of_mem (f := fun p => (p.2.matched, p.2.final)) hp
    rw [hmap] at hmem
    exact List.mem_singleton.mp hmem
  obtain ⟨hmatched, hform⟩ := Prod.mk.inj hpair
  refine ⟨e, hlast.mem, ?_, hfinal⟩
  refine Bool.eq_false_iff.mpr fun hstrict => ?_
  have hforms := hsame.mpr (.inl hstrict) (Json.lit "A1") (by rw [hmatched]; exact halone)
  rw [hform] at hforms
  exact absurd hforms (by decide)

end Localize.Glossary
