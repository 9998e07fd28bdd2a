import Localize.Proofs.Glossary.Occurrence

/-!
# Terms as whole words

A term stands in a text as whole words where a word boundary lies at both of its ends. The scan for
one term passes over such a place only within an earlier place of the same term, and of the spans
found for all terms only some are kept. Still no place is left untouched: where the span of the
earlier place is dropped for a span that ends before the later place, that one is a shorter term
within the term, and it stands in the later place too.
-/

namespace Localize.Glossary

open Localize.Span

/-- A word boundary lies at both ends of a term between two texts. -/
structure WholeWords (a term b : Text) : Prop where
  left : Text.isBoundary a.getLast? term.head? = true
  right : Text.isBoundary term.getLast? b.head? = true

theorem behindTerm?_append {same : Char → Char → Bool} (hsame : ∀ c, same c c = true)
    (term b : Text) : behindTerm? same term (term ++ b) = some b := by
  induction term with
  | nil => rfl
  | cons c term ih => simp only [List.cons_append, behindTerm?, hsame, if_true, ih]

/-- What a term's matcher reads where the term stands literally. -/
theorem termMatcher_append_iff {same : Char → Char → Bool} (hsame : ∀ c, same c c = true)
    {term b value : Text} {left : Option Char} {length : Nat} (hne : term ≠ []) :
    termMatcher same term left (term ++ b) = some (value, length) ↔
      value = term ∧ length = term.length ∧ Text.isBoundary left term.head? = true ∧
        Text.isBoundary term.getLast? b.head? = true := by
  have hlast : term.getLast?.or left = term.getLast? := by
    rw [List.getLast?_eq_some_getLast hne]
    rfl
  rw [termMatcher_eq_some_iff, behindTerm?_append hsame, List.head?_append_of_ne_nil _ hne,
    List.take_left, hlast]
  constructor
  · rintro ⟨hleft, hvalue, hlength, rest, hrest, hright⟩
    cases hrest
    exact ⟨hvalue, hlength, hleft, hright⟩
  · rintro ⟨hvalue, hlength, hleft, hright⟩
    exact ⟨hleft, hvalue, hlength, b, rfl, hright⟩

/-- What a term's matcher reads where letter case counts. -/
theorem termMatcher_exact_iff {term t value : Text} {left : Option Char} {length : Nat}
    (hne : term ≠ []) :
    termMatcher (fun a b => a = b) term left t = some (value, length) ↔
      value = term ∧ length = term.length ∧ ∃ b, t = term ++ b ∧
        Text.isBoundary left term.head? = true ∧
        Text.isBoundary term.getLast? b.head? = true := by
  have hsame : ∀ c : Char, decide (c = c) = true := fun c => decide_eq_true rfl
  constructor
  · intro h
    obtain ⟨-, -, -, b, hb, -⟩ := termMatcher_eq_some_iff.mp h
    rw [behindTerm?_exact, Text.afterStart?_eq_some_iff] at hb
    subst hb
    obtain ⟨hvalue, hlength, hleft, hright⟩ := (termMatcher_append_iff hsame hne).mp h
    exact ⟨hvalue, hlength, b, rfl, hleft, hright⟩
  · rintro ⟨hvalue, hlength, b, rfl, hleft, hright⟩
    exact (termMatcher_append_iff hsame hne).mpr ⟨hvalue, hlength, hleft, hright⟩

namespace Entry

variable {e : Entry} {t term a b : Text} {found : List Occurrence} {m : Occurrence}

theorem occurrences_exact (hterm : e.term = .str term) (hcase : e.caseSensitive = true) (t : Text) :
    e.occurrences t = .ok ((Text.scan (termMatcher (fun a b => a = b) term) t).map fun f =>
      ⟨e, f.start, f.value⟩) := by
  simp only [occurrences, hterm, hcase, if_true]

/-- What is found for a term whose letter case counts is the term as whole words. -/
theorem whole_of_mem_occurrences (hterm : e.term = .str term) (hcase : e.caseSensitive = true)
    (hne : term ≠ []) (h : e.occurrences t = .ok found) (hm : m ∈ found) :
    ∃ a b, t = a ++ term ++ b ∧ m = ⟨e, a.length, term⟩ ∧ WholeWords a term b := by
  rw [occurrences_exact hterm hcase] at h
  cases h
  obtain ⟨f, hf, rfl⟩ := List.mem_map.mp hm
  obtain ⟨hstart, hmatch⟩ := Text.matcher_of_mem_scan hf
  obtain ⟨hvalue, -, b, hb, hleft, hright⟩ := (termMatcher_exact_iff hne).mp hmatch
  refine ⟨t.take f.start, b, ?_, ?_, hleft, hright⟩
  · rw [List.append_assoc, ← hb, List.take_append_drop]
  · rw [List.length_take, Nat.min_eq_left hstart, hvalue]

/-- How the letters of the term are compared with those of a text. -/
def alike (e : Entry) : Char → Char → Bool :=
  if e.caseSensitive then fun a b => a = b else Text.sameLetter

theorem alike_self (e : Entry) (c : Char) : e.alike c c = true := by
  unfold alike
  split
  · exact decide_eq_true rfl
  · exact decide_eq_true rfl

theorem occurrences_eq (hterm : e.term = .str term) (t : Text) :
    e.occurrences t = .ok ((Text.scan (termMatcher e.alike term) t).map fun f =>
      ⟨e, f.start, f.value⟩) := by
  simp only [occurrences, hterm]
  rfl

/-- Where a term stands as whole words it is found, or it has been found at an earlier place and
reaches over this one. -/
theorem exists_mem_occurrences (hterm : e.term = .str term) (hne : term ≠ [])
    (h : e.occurrences t = .ok found) (ht : t = a ++ term ++ b) (hw : WholeWords a term b) :
    ∃ m ∈ found, m.position ≤ a.length ∧ a.length < m.position + term.length := by
  rw [occurrences_eq hterm] at h
  cases h
  have hle : a.length ≤ t.length := by
    rw [ht, List.append_assoc, List.length_append]
    omega
  have hmatch : termMatcher e.alike term (t.take a.length).getLast? (t.drop a.length) =
      some (term, term.length) := by
    rw [ht, List.append_assoc, List.take_left, List.drop_left]
    exact (termMatcher_append_iff e.alike_self hne).mpr ⟨rfl, rfl, hw.left, hw.right⟩
  obtain ⟨f, hf, hstart, hstop⟩ :=
    Text.exists_mem_scan hle hmatch (List.length_pos_of_ne_nil hne)
  obtain ⟨-, hread⟩ := Text.matcher_of_mem_scan hf
  obtain ⟨-, -, hlength, -⟩ := termMatcher_eq_some_iff.mp hread
  exact ⟨_, List.mem_map_of_mem hf, hstart, hlength ▸ hstop⟩

end Entry

variable {g : Glossary} {language t term a b : Text}

/-- The text is the term of an entry with a form in a language. -/
def Protects (g : Glossary) (language term : Text) : Prop :=
  ∃ e ∈ g.terms.values, e.term = .str term ∧ (e.final? language).isSome = true

/-- A text that begins and ends with a word character. -/
def WordEnds (t : Text) : Prop :=
  t.head?.any Text.isWord = true ∧ t.getLast?.any Text.isWord = true

theorem WordEnds.ne_nil (h : WordEnds t) : t ≠ [] := by
  rintro rfl
  cases h.1

/-- The terms with a form in a language are texts that begin and end with a word character, and
their letter case counts. -/
def WordsIn (g : Glossary) (language : Text) : Prop :=
  ∀ e ∈ g.terms.values, (e.final? language).isSome = true →
    e.caseSensitive = true ∧ ∃ term, e.term = .str term ∧ WordEnds term

namespace WordsIn

theorem wordEnds (hg : g.WordsIn language) (hterm : g.Protects language term) :
    WordEnds term := by
  obtain ⟨e, he, hterm, hfinal⟩ := hterm
  obtain ⟨-, term', hterm', hends⟩ := hg e he hfinal
  have hsame : term = term' := Json.str.inj (hterm.symm.trans hterm')
  rw [hsame]
  exact hends

/-- A span that is kept is a protected term that stands as whole words. -/
theorem whole_of_mem_kept (hg : g.WordsIn language) {s : Span} (hs : s ∈ g.kept language t) :
    g.Protects language s.text ∧
      ∃ a b, t = a ++ s.text ++ b ∧ s.start = a.length ∧ WholeWords a s.text b := by
  obtain ⟨⟨m, final⟩, hm, rfl⟩ := List.mem_map.mp (mem_of_mem_select hs)
  obtain ⟨found, hfound, hmem, hfinal⟩ := mem_candidates_iff.mp hm
  obtain ⟨e, he, part, hocc, hmem⟩ := (mem_find_iff hfound).mp hmem
  obtain ⟨rfl, -, -⟩ := Entry.mem_occurrences hocc hmem
  have hsome : (m.entry.final? language).isSome = true := by rw [hfinal]; rfl
  obtain ⟨hcase, term, hterm, hends⟩ := hg m.entry he hsome
  obtain ⟨a, b, ht, hm', hw⟩ :=
    Entry.whole_of_mem_occurrences hterm hcase hends.ne_nil hocc hmem
  have hspan : m.span = ⟨a.length, term⟩ := by rw [hm']; rfl
  rw [hspan]
  exact ⟨⟨m.entry, he, hterm, hsome⟩, a, b, ht, rfl, hw⟩

/-- Where a protected term stands as whole words, a span that is kept begins in it or in an earlier
place of the term that reaches over this one. -/
theorem exists_kept_begin (hg : g.WordsIn language) (hok : ∃ found, g.find t = .ok found)
    (hterm : g.Protects language term) (ht : t = a ++ term ++ b) (hw : WholeWords a term b) :
    ∃ a' b' s, t = a' ++ term ++ b' ∧ a'.length ≤ a.length ∧
      a.length < a'.length + term.length ∧ s ∈ g.kept language t ∧
      (a'.length : Int) ≤ s.start ∧ s.start < (a'.length + term.length : Nat) := by
  have hne := (hg.wordEnds hterm).ne_nil
  obtain ⟨e, he, hterm, hfinal⟩ := hterm
  obtain ⟨hcase, -⟩ := hg e he hfinal
  obtain ⟨found, hfound⟩ := hok
  obtain ⟨part, hocc⟩ := Entry.occurrences_ok hterm t
  obtain ⟨m, hm, hstart, hstop⟩ := Entry.exists_mem_occurrences hterm hne hocc ht hw
  obtain ⟨a', b', ht', hm', -⟩ := Entry.whole_of_mem_occurrences hterm hcase hne hocc hm
  obtain ⟨final, hfinal⟩ := Option.isSome_iff_exists.mp hfinal
  have hentry : m.entry = e := (Entry.mem_occurrences hocc hm).1
  have hcandidate : (m, final) ∈ g.candidates language t := by
    apply mem_candidates_iff.mpr
    exact ⟨found, hfound, (mem_find_iff hfound).mpr ⟨e, he, part, hocc, hm⟩, hentry ▸ hfinal⟩
  have hspan : m.span = ⟨a'.length, term⟩ := by rw [hm']; rfl
  have hmem : (⟨a'.length, term⟩ : Span) ∈ (g.candidates language t).map fun p => p.1.span := by
    rw [← hspan]
    exact List.mem_map_of_mem hcandidate
  obtain ⟨s, hs, hbefore, hbehind⟩ := exists_mem_select hmem hne
  have hposition : m.position = a'.length := by rw [hm']
  rw [hposition] at hstart hstop
  refine ⟨a', b', s, ht', hstart, hstop, hs, hbehind.start_le, ?_⟩
  rw [stop] at hbefore
  simp only at hbefore
  omega

/-- A span that is kept touches every place where a protected term stands as whole words. -/
theorem exists_kept_over (hg : g.WordsIn language) (hok : ∃ found, g.find t = .ok found)
    (hterm : g.Protects language term) (ht : t = a ++ term ++ b) (hw : WholeWords a term b) :
    ∃ s ∈ g.kept language t, s.start < (a.length + term.length : Nat) ∧ a.length < s.stop := by
  -- on the length of the term: a kept span beside the place is a shorter term within the term
  induction hn : term.length using Nat.strong_induction_on generalizing term a b with
  | _ n ih =>
    obtain ⟨a', b', s, ht', hstart, hstop, hs, hbegin, hbefore⟩ :=
      hg.exists_kept_begin hok hterm ht hw
    rcases Int.lt_or_le a.length s.stop with hover | hbeside
    · exact ⟨s, hs, by omega, hover⟩
    · obtain ⟨hshorter, x, y, hxy, hx, hsw⟩ := hg.whole_of_mem_kept hs
      have hend : s.stop = x.length + s.text.length := by rw [Span.stop, hx]
      obtain ⟨u, v, rfl, hinner, rfl⟩ :
          ∃ u v, x = a' ++ u ∧ term = u ++ s.text ++ v ∧ y = v ++ b' :=
        Text.exists_within (ht'.symm.trans hxy) (by omega) (by omega)
      have hv : v ≠ [] := by
        rintro rfl
        have hlength := congrArg List.length hinner
        simp only [List.length_append, List.length_nil] at hlength hend
        omega
      have hsne := (hg.wordEnds hshorter).ne_nil
      have hlength := congrArg List.length hinner
      have hvpos := List.length_pos_of_ne_nil hv
      simp only [List.length_append] at hlength
      -- the shorter term at the same distance from the later place
      have hlater : t = (a ++ u) ++ s.text ++ (v ++ b) := by
        rw [ht, hinner]
        simp only [List.append_assoc]
      have hwlater : WholeWords (a ++ u) s.text (v ++ b) := by
        constructor
        · cases u with
          | nil =>
            have hhead : term.head? = s.text.head? := by
              rw [hinner, List.nil_append, List.head?_append_of_ne_nil _ hsne]
            rw [List.append_nil, ← hhead]
            exact hw.left
          | cons c u =>
            have hleft := hsw.left
            rw [List.getLast?_append_of_ne_nil _ (List.cons_ne_nil c u)] at hleft ⊢
            exact hleft
        · have hright := hsw.right
          rw [List.head?_append_of_ne_nil _ hv] at hright ⊢
          exact hright
      obtain ⟨s', hs', hleft, hright⟩ :=
        ih s.text.length (by omega) hshorter hlater hwlater rfl
      simp only [List.length_append] at hleft hright
      exact ⟨s', hs', by omega, by omega⟩

end WordsIn

end Localize.Glossary
