import Localize.Glossary.Protection
import Localize.Proofs.Glossary.Exchange
import Localize.Proofs.Outcome

/-!
# Occurrences of terms

Every occurrence that is found is one of a term of the glossary, and it stands in the text at its
place; where letter case counts it reads as the term does. A look for terms fails only where a term
is no text. The spans kept for placeholders are spans of such occurrences, so they stand in the text
and apart from one another, and each has a form recorded for it.
-/

namespace Localize.Glossary

open Localize.Span

/-! ### Matching -/

theorem behindTerm?_eq_some {same : Char → Char → Bool} {term t rest : Text}
    (h : behindTerm? same term t = some rest) : t = t.take term.length ++ rest := by
  induction term generalizing t with
  | nil =>
    cases h
    rfl
  | cons a term ih =>
    cases t with
    | nil => cases h
    | cons b t =>
      unfold behindTerm? at h
      split at h
      · rw [List.length_cons, List.take_succ_cons, List.cons_append, ← ih h]
      · cases h

theorem behindTerm?_exact (term t : Text) :
    behindTerm? (fun a b => a = b) term t = Text.afterStart? term t := by
  induction term generalizing t with
  | nil => rfl
  | cons a term ih =>
    cases t with
    | nil => rfl
    | cons b t => simp only [behindTerm?, Text.afterStart?, decide_eq_true_eq, ih]

/-- What a term's matcher reads. -/
theorem termMatcher_eq_some_iff {same : Char → Char → Bool} {term t : Text} {left : Option Char}
    {value : Text} {length : Nat} :
    termMatcher same term left t = some (value, length) ↔
      Text.isBoundary left t.head? = true ∧ value = t.take term.length ∧ length = term.length ∧
        ∃ rest, behindTerm? same term t = some rest ∧
          Text.isBoundary ((t.take term.length).getLast?.or left) rest.head? = true := by
  unfold termMatcher
  by_cases hleft : Text.isBoundary left t.head? = true
  · cases hbehind : behindTerm? same term t with
    | none => simp [hleft]
    | some rest =>
      by_cases hright :
          Text.isBoundary ((t.take term.length).getLast?.or left) rest.head? = true
      · simp only [hleft, hright, if_true, Option.some.injEq, Prod.mk.injEq, true_and,
          exists_eq_left', and_true]
        exact and_congr eq_comm eq_comm
      · simp [hleft, hright]
  · simp [hleft]

/-- What is found for an entry stands in the text, as the term reads where letter case counts. -/
theorem Entry.mem_occurrences {e : Entry} {t : Text} {found : List Occurrence} {m : Occurrence}
    (h : e.occurrences t = .ok found) (hm : m ∈ found) :
    m.entry = e ∧ m.span.In t ∧ (e.caseSensitive = true → e.term = .str m.matched) := by
  unfold Entry.occurrences at h
  cases hterm : e.term with
  | str term =>
    simp only [hterm] at h
    cases h
    obtain ⟨f, hf, rfl⟩ := List.mem_map.mp hm
    obtain ⟨hstart, hmatch⟩ := Text.matcher_of_mem_scan hf
    obtain ⟨-, hvalue, -, rest, hrest, -⟩ := termMatcher_eq_some_iff.mp hmatch
    have hsplit := behindTerm?_eq_some hrest
    refine ⟨rfl, ⟨t.take f.start, rest, ?_, ?_⟩, ?_⟩
    · calc
        t = t.take f.start ++ t.drop f.start := (List.take_append_drop f.start t).symm
        _ = t.take f.start ++ (f.value ++ rest) := by rw [hvalue, ← hsplit]
        _ = t.take f.start ++ f.value ++ rest := (List.append_assoc _ _ _).symm
    · rw [List.length_take, Nat.min_eq_left hstart]
      rfl
    · intro hc
      simp only [hc, if_true, behindTerm?_exact] at hrest
      rw [hvalue, Text.afterStart?_eq_some_iff.mp hrest, List.take_left]
  | null | bool _ | int _ | float _ | arr _ | obj _ =>
    simp only [hterm] at h
    cases h

theorem Entry.occurrences_ok {e : Entry} {term : Text} (h : e.term = .str term) (t : Text) :
    ∃ found, e.occurrences t = .ok found := by
  unfold Entry.occurrences
  rw [h]
  exact ⟨_, rfl⟩

variable {g : Glossary} {language t : Text}

/-- What is found is what is found for the entries one by one. -/
theorem mem_find_iff {found : List Occurrence} {m : Occurrence} (h : g.find t = .ok found) :
    m ∈ found ↔ ∃ e ∈ g.terms.values, ∃ part, e.occurrences t = .ok part ∧ m ∈ part := by
  obtain ⟨each, heach, h⟩ := bind_ok_iff.mp h
  cases h
  have hall := mapM_ok_iff.mp heach
  rw [(sortBy_perm _ _).mem_iff, List.mem_flatten]
  constructor
  · rintro ⟨part, hpart, hm⟩
    obtain ⟨e, he, hocc⟩ := exists_of_mem_right hall hpart
    exact ⟨e, he, part, hocc, hm⟩
  · rintro ⟨e, he, part, hocc, hm⟩
    obtain ⟨part', hpart', hocc'⟩ := exists_of_mem_left hall he
    have hsame : part = part' := Except.ok.inj (hocc.symm.trans hocc')
    exact ⟨part', hpart', hsame ▸ hm⟩

theorem mem_find {found : List Occurrence} {m : Occurrence} (h : g.find t = .ok found)
    (hm : m ∈ found) : m.entry ∈ g.terms.values ∧ m.span.In t ∧
      (m.entry.caseSensitive = true → m.entry.term = .str m.matched) := by
  obtain ⟨e, he, part, hocc, hm⟩ := (mem_find_iff h).mp hm
  obtain ⟨rfl, hin, hcase⟩ := Entry.mem_occurrences hocc hm
  exact ⟨he, hin, hcase⟩

/-- All terms are texts. -/
def Textual (g : Glossary) : Prop := ∀ e ∈ g.terms.values, ∃ term, e.term = .str term

theorem Textual.find_ok (h : g.Textual) (t : Text) : ∃ found, g.find t = .ok found := by
  have heach : ∀ e ∈ g.terms.values, ∃ found, e.occurrences t = .ok found := by
    intro e he
    obtain ⟨term, hterm⟩ := h e he
    exact Entry.occurrences_ok hterm t
  obtain ⟨each, heach⟩ := exists_mapM_ok heach
  exact ⟨_, bind_ok_iff.mpr ⟨each, heach, rfl⟩⟩

theorem Textual.reservable_ok (h : g.Textual) (language t : Text) :
    ∃ candidates, g.reservable language t = .ok candidates := by
  obtain ⟨found, hfound⟩ := h.find_ok t
  exact ⟨_, bind_ok_iff.mpr ⟨found, hfound, rfl⟩⟩

/-! ### Candidates for placeholders -/

/-- The occurrences in a text that have a final form; none where terms cannot be looked for. -/
def candidates (g : Glossary) (language t : Text) : List (Occurrence × Json) :=
  match g.reservable language t with
  | .ok found => found
  | .error _ => []

/-- The spans of a text that give way to placeholders, from the right to the left. -/
def kept (g : Glossary) (language t : Text) : List Span :=
  Span.select ((g.candidates language t).map fun p => p.1.span)

theorem mem_candidates_iff {m : Occurrence} {final : Json} :
    (m, final) ∈ g.candidates language t ↔
      ∃ found, g.find t = .ok found ∧ m ∈ found ∧ m.entry.final? language = some final := by
  unfold candidates reservable
  cases hfind : g.find t with
  | error fault => exact ⟨fun h => absurd h List.not_mem_nil, fun ⟨_, h, _⟩ => nomatch h⟩
  | ok found =>
    change (m, final) ∈ found.filterMap _ ↔ _
    rw [List.mem_filterMap]
    constructor
    · rintro ⟨m', hm', h⟩
      obtain ⟨final', hfinal, h⟩ := Option.map_eq_some_iff.mp h
      cases h
      exact ⟨found, rfl, hm', hfinal⟩
    · rintro ⟨found', hfound, hm, hfinal⟩
      cases hfound
      exact ⟨m, hm, by rw [hfinal]; rfl⟩

theorem mem_candidates {m : Occurrence} {final : Json}
    (h : (m, final) ∈ g.candidates language t) :
    m.entry ∈ g.terms.values ∧ m.entry.final? language = some final ∧ m.span.In t ∧
      (m.entry.caseSensitive = true → m.entry.term = .str m.matched) := by
  obtain ⟨found, hfound, hm, hfinal⟩ := mem_candidates_iff.mp h
  obtain ⟨hentry, hin, hcase⟩ := mem_find hfound hm
  exact ⟨hentry, hfinal, hin, hcase⟩

theorem in_of_mem_kept {s : Span} (h : s ∈ g.kept language t) : s.In t := by
  obtain ⟨p, hp, rfl⟩ := List.mem_map.mp (mem_of_mem_select h)
  exact (mem_candidates hp).2.2.1

theorem apart_kept (g : Glossary) (language t : Text) : Apart (g.kept language t) :=
  apart_select _

/-- A span kept has a form recorded for it, that of an occurrence at the span. -/
theorem reservation?_of_mem_kept {s : Span} (h : s ∈ g.kept language t) :
    ∃ m final r, (m, final) ∈ g.candidates language t ∧ m.span = s ∧
      reservation? (g.candidates language t) s = some r ∧ r.final = final := by
  obtain ⟨p, hp, hs⟩ := List.mem_map.mp (mem_of_mem_select h)
  unfold reservation?
  cases hfind : (g.candidates language t).reverse.find? fun c => s = c.1.span with
  | none =>
    have hnone := List.find?_eq_none.mp hfind p (List.mem_reverse.mpr hp)
    exact (hnone (by simpa using hs.symm)).elim
  | some q =>
    obtain ⟨m, final⟩ := q
    have hmem := List.mem_reverse.mp (List.mem_of_find?_eq_some hfind)
    have hspan : s = m.span := by simpa using List.find?_some hfind
    exact ⟨m, final, _, hmem, hspan.symm, rfl, rfl⟩

/-! ### Final forms -/

/-- The text recorded for a span: its final form, and the span's own text where none is recorded. -/
def finalOf (g : Glossary) (language t : Text) (s : Span) : Text :=
  ((reservation? (g.candidates language t) s).bind fun r => r.final.text?).getD s.text

/-- The text with the final forms of its terms, all exchanged at once. -/
def exchanged (g : Glossary) (language t : Text) : Text :=
  exchange t ((g.kept language t).map fun s => (g.finalOf language t s, s))

/-- Every final form in a language is a text. -/
def TextualIn (g : Glossary) (language : Text) : Prop :=
  ∀ e ∈ g.terms.values, ∀ final, e.final? language = some final → ∃ f, final = .str f

theorem TextualIn.exists_reservation (h : g.TextualIn language) {s : Span}
    (hs : s ∈ g.kept language t) :
    ∃ r, reservation? (g.candidates language t) s = some r ∧
      r.final = .str (g.finalOf language t s) := by
  obtain ⟨m, final, r, hm, -, hr, hfinal⟩ := reservation?_of_mem_kept hs
  obtain ⟨hentry, hform, -, -⟩ := mem_candidates hm
  obtain ⟨f, rfl⟩ := h m.entry hentry final hform
  refine ⟨r, hr, ?_⟩
  rw [finalOf, hr, Option.bind_some, hfinal]
  rfl

/-- Every term with a form in a language is one to keep as it is, letter case included. -/
def KeptAsWritten (g : Glossary) (language : Text) : Prop :=
  ∀ e ∈ g.terms.values, (e.final? language).isSome = true →
    e.caseSensitive = true ∧ e.doNotTranslate = true

/-- Terms that are kept as written are exchanged for themselves. -/
theorem KeptAsWritten.exchanged_eq (h : g.KeptAsWritten language) (t : Text) :
    g.exchanged language t = t := by
  have hown : (g.kept language t).map (fun s => (g.finalOf language t s, s)) =
      (g.kept language t).map fun s => (s.text, s) := by
    refine List.map_congr_left fun s hs => ?_
    obtain ⟨m, final, r, hm, hspan, hr, hfinal⟩ := reservation?_of_mem_kept hs
    obtain ⟨hentry, hform, -, hcase⟩ := mem_candidates hm
    obtain ⟨hc, hd⟩ := h m.entry hentry (by rw [hform]; rfl)
    have hterm : final = .str m.matched := by
      rw [Entry.final?, if_pos hd, hcase hc] at hform
      exact (Option.some.inj hform).symm
    have htext : m.matched = s.text := congrArg Span.text hspan
    rw [finalOf, hr, Option.bind_some, hfinal, hterm, htext]
    rfl
  rw [exchanged, hown]
  exact exchange_self (fun _ => in_of_mem_kept) (apart_kept g language t)

end Localize.Glossary
