import Localize.Proofs.Glossary.Lossless
import Localize.Proofs.Glossary.Selection
import Localize.Proofs.Glossary.WholeWord

/-!
# Terms that stand free

A term stands free in a text where no word character is next to it. A term that begins and ends with a
word character is found wherever it stands free, whether letter case counts or not: the scan passes
over such a place only within an earlier match that reaches into it. The word boundaries that are asked
for lie elsewhere around a term that begins or ends with another character, such as a plus sign. Such a
term is found at no place where it stands free, and a text that is the term alone has no match at all.
-/

namespace Localize.Glossary

/-- No word character is next to the place between two texts. -/
structure Free (a b : Text) : Prop where
  left : a.getLast?.any Text.isWord = false
  right : b.head?.any Text.isWord = false

/-- A match of the entry overlaps a stretch of the text. -/
def FoundOver (g : Glossary) (e : Entry) (t : Text) (s : Span) : Prop :=
  ∃ found, g.find t = .ok found ∧ ∃ m ∈ found, m.entry = e ∧ m.span.Overlaps s

variable {g : Glossary} {e : Entry} {t term a b : Text} {found : List Occurrence} {m : Occurrence}

/-- Where a term stands free, word boundaries lie at its ends exactly if it has word characters
there. -/
theorem Free.wholeWords_iff (h : Free a b) : WholeWords a term b ↔ WordEnds term := by
  have hleft : Text.isBoundary a.getLast? term.head? = term.head?.any Text.isWord := by
    rw [Text.isBoundary, h.left, Bool.false_bne]
  have hright : Text.isBoundary term.getLast? b.head? = term.getLast?.any Text.isWord := by
    rw [Text.isBoundary, h.right, Bool.bne_false]
  constructor
  · intro hwhole
    exact ⟨hleft ▸ hwhole.left, hright ▸ hwhole.right⟩
  · intro hends
    exact ⟨hleft.trans hends.1, hright.trans hends.2⟩

/-! ### Matches of one entry -/

theorem length_of_behindTerm? {same : Char → Char → Bool} {rest : Text}
    (h : behindTerm? same term t = some rest) : term.length ≤ t.length := by
  induction term generalizing t with
  | nil => exact Nat.zero_le _
  | cons c term ih =>
    cases t with
    | nil => cases h
    | cons d t =>
      unfold behindTerm? at h
      split at h
      · exact Nat.succ_le_succ (ih h)
      · cases h

namespace Entry

/-- A match has the length of the term. -/
theorem length_matched (hterm : e.term = .str term) (h : e.occurrences t = .ok found)
    (hm : m ∈ found) : m.matched.length = term.length := by
  rw [occurrences_eq hterm] at h
  cases h
  obtain ⟨f, hf, rfl⟩ := List.mem_map.mp hm
  obtain ⟨-, hmatch⟩ := Text.matcher_of_mem_scan hf
  obtain ⟨-, hvalue, -, rest, hrest, -⟩ := termMatcher_eq_some_iff.mp hmatch
  rw [hvalue, List.length_take, Nat.min_eq_left (length_of_behindTerm? hrest)]

/-- A match at a place where the term stands literally has word boundaries at both ends. -/
theorem wholeWords_of_position (hterm : e.term = .str term) (hne : term ≠ [])
    (h : e.occurrences (a ++ term ++ b) = .ok found) (hm : m ∈ found)
    (hposition : m.position = a.length) : WholeWords a term b := by
  rw [occurrences_eq hterm] at h
  cases h
  obtain ⟨f, hf, rfl⟩ := List.mem_map.mp hm
  obtain ⟨-, hmatch⟩ := Text.matcher_of_mem_scan hf
  have hstart : f.start = a.length := hposition
  rw [hstart, List.append_assoc, List.take_left, List.drop_left] at hmatch
  obtain ⟨-, -, hleft, hright⟩ := (termMatcher_append_iff e.alike_self hne).mp hmatch
  exact ⟨hleft, hright⟩

/-- In a text that is the term alone a match can only be the whole text. -/
theorem position_alone (hterm : e.term = .str term) (h : e.occurrences term = .ok found)
    (hm : m ∈ found) : m.position = 0 := by
  obtain ⟨-, ⟨x, y, htext, hstart⟩, -⟩ := mem_occurrences h hm
  have hlength := congrArg List.length htext
  have hmatched : m.span.text.length = term.length := length_matched hterm h hm
  have hposition : (m.position : Int) = x.length := hstart
  simp only [List.length_append] at hlength
  omega

end Entry

/-! ### Matches in a glossary -/

/-- The matches of an entry are among those of the glossary. -/
theorem Textual.exists_find (hg : g.Textual) (he : e ∈ g.terms.values)
    (hocc : e.occurrences t = .ok found) :
    ∃ all, g.find t = .ok all ∧ ∀ m, m ∈ all ∧ m.entry = e ↔ m ∈ found := by
  obtain ⟨all, hall⟩ := hg.find_ok t
  refine ⟨all, hall, fun m => ⟨?_, fun hm => ⟨?_, (Entry.mem_occurrences hocc hm).1⟩⟩⟩
  · rintro ⟨hm, rfl⟩
    obtain ⟨e', -, part, hocc', hm⟩ := (mem_find_iff hall).mp hm
    obtain rfl := (Entry.mem_occurrences hocc' hm).1
    cases hocc.symm.trans hocc'
    exact hm
  · exact (mem_find_iff hall).mpr ⟨e, he, found, hocc, hm⟩

theorem foundOver_of_wordEnds (hg : g.Textual) (he : e ∈ g.terms.values)
    (hterm : e.term = .str term) (hends : WordEnds term) (hfree : Free a b) :
    g.FoundOver e (a ++ term ++ b) ⟨a.length, term⟩ := by
  obtain ⟨found, hocc⟩ := Entry.occurrences_ok hterm (a ++ term ++ b)
  obtain ⟨all, hall, hmem⟩ := hg.exists_find he hocc
  obtain ⟨m, hm, hstart, hstop⟩ := Entry.exists_mem_occurrences hterm hends.ne_nil hocc rfl
    (hfree.wholeWords_iff.mpr hends)
  obtain ⟨hm', hentry⟩ := (hmem m).mpr hm
  have hlength := Entry.length_matched hterm hocc hm
  have hcovers : m.span.Covers a.length := by
    constructor
    · exact Int.ofNat_le.mpr hstart
    · change (a.length : Int) < m.position + m.matched.length
      omega
  exact ⟨all, hall, m, hm', hentry, a.length, hcovers, Span.covers_start hends.ne_nil⟩

/-- A term that is found over itself in a text that is the term alone begins and ends with a word
character. -/
theorem wordEnds_of_foundOver_alone (hterm : e.term = .str term) (hne : term ≠ [])
    (h : g.FoundOver e term ⟨0, term⟩) : WordEnds term := by
  obtain ⟨all, hall, m, hm, rfl, -⟩ := h
  obtain ⟨e, -, found, hocc, hm⟩ := (mem_find_iff hall).mp hm
  obtain rfl := (Entry.mem_occurrences hocc hm).1
  have hposition := Entry.position_alone hterm hocc hm
  have hocc' : m.entry.occurrences ([] ++ term ++ []) = .ok found := by
    rw [List.nil_append, List.append_nil]
    exact hocc
  have hfree : Free [] [] := ⟨rfl, rfl⟩
  exact hfree.wholeWords_iff.mp (Entry.wholeWords_of_position hterm hne hocc' hm hposition)

/-- The terms that are overlooked nowhere are those that begin and end with a word character: exactly
for these a match overlaps every place where the term stands free. Any other term has no match at such
a place. -/
theorem never_overlooked_iff (hg : g.Textual) (he : e ∈ g.terms.values)
    (hterm : e.term = .str term) (hne : term ≠ []) :
    ((∀ a b, Free a b → g.FoundOver e (a ++ term ++ b) ⟨a.length, term⟩) ↔ WordEnds term) ∧
    (¬WordEnds term → ∀ a b, Free a b → ∃ found, g.find (a ++ term ++ b) = .ok found ∧
      ∀ m ∈ found, m.entry = e → m.position ≠ a.length) := by
  refine ⟨⟨fun h => ?_, fun hends a b hfree => foundOver_of_wordEnds hg he hterm hends hfree⟩, ?_⟩
  · have halone := h [] [] ⟨rfl, rfl⟩
    rw [List.nil_append, List.append_nil] at halone
    exact wordEnds_of_foundOver_alone hterm hne halone
  · intro hends a b hfree
    obtain ⟨found, hocc⟩ := Entry.occurrences_ok hterm (a ++ term ++ b)
    obtain ⟨all, hall, hmem⟩ := hg.exists_find he hocc
    refine ⟨all, hall, fun m hm hentry hposition => hends ?_⟩
    have hm' := (hmem m).mp ⟨hm, hentry⟩
    exact hfree.wholeWords_iff.mp (Entry.wholeWords_of_position hterm hne hocc hm' hposition)

/-- A term that ends with signs. -/
def signs : Glossary := .ofExact [("C++", [], true)]

theorem signs_overlooked :
    (∃ found, signs.find "We use C++ here".toList = .ok found ∧ found.isEmpty = true) ∧
      ∃ e ∈ signs.terms.values, e.term = .str "C++".toList ∧
        ¬∀ a b, Free a b → signs.FoundOver e (a ++ "C++".toList ++ b) ⟨a.length, "C++".toList⟩ := by
  have hends : ¬WordEnds "C++".toList := by
    unfold WordEnds
    decide
  refine ⟨exists_ok_of_any (by decide), signs.terms.values.head (by decide), List.head_mem _, rfl, ?_⟩
  exact fun h => hends ((never_overlooked_iff (textual_ofExact _) (List.head_mem _) rfl
    (by decide)).1.mp h)

end Localize.Glossary
