import Localize.Proofs.Json.Roundtrip
import Localize.Proofs.Outcome

/-!
# The layout of an object of texts

A document with the fields of such an object has a line for each field, indented by two spaces,
between the lines of the braces, and a line break at its end. In a string the quote, the backslash
and the control characters below the space are escaped, and every other character stands for itself;
so no line is broken within a string, and the lines of the document are those of the fields.
-/

namespace Localize.Json

variable {c : Char} {t w : Text} {pairs : List (Text × Text)}

/-- The fields of an object of texts. -/
def textFields (pairs : List (Text × Text)) : Fields := pairs.map fun p => (p.1, .str p.2)

/-- A text in quotes, each character as it stands in a string. -/
def Quotes (t w : Text) : Prop :=
  ∃ parts, List.Forall₂ SpelledAs t parts ∧ w = '\x22' :: parts.flatten ++ ['\x22']

/-- The line of a pair: two spaces, the first text, a colon and a space, the second text. -/
def IsLine (p : Text × Text) (line : Text) : Prop :=
  ∃ first second, Quotes p.1 first ∧ Quotes p.2 second ∧
    line = ' ' :: ' ' :: first ++ ':' :: ' ' :: second

/-- Lines with a comma behind each but the last. -/
def separated : List Text → List Text
  | [] => []
  | [line] => [line]
  | line :: next :: rest => (line ++ [',']) :: separated (next :: rest)

/-- The document of pairs of texts: a line for each pair between a line with the opening and one
with the closing brace, and a line break at the end. Without pairs both braces are on one line. -/
inductive Tabulates : List (Text × Text) → Text → Prop
  | empty : Tabulates [] ['\x7b', '\x7d', '\n']
  | lines {pairs : List (Text × Text)} {lines : List Text} {document : Text} (hne : pairs ≠ [])
      (hlines : List.Forall₂ IsLine pairs lines)
      (hdocument : Text.splitOn '\n' document =
        ['\x7b'] :: separated lines ++ [['\x7d'], []]) : Tabulates pairs document

/-! ### Strings -/

theorem quotes_writeString (t : Text) : Quotes t (writeString t) := by
  refine ⟨t.map writeChar, ?_, by rw [writeString, List.flatMap_def]⟩
  rw [List.forall₂_map_right_iff, List.forall₂_same]
  exact fun c _ => spelledAs_writeChar c

theorem SpelledAs.noBreak (h : SpelledAs c w) : '\n' ∉ w := by
  intro hmem
  cases h with
  | itself h =>
    obtain rfl := List.mem_singleton.mp hmem
    exact h (.inr (.inr (by decide)))
  | letter _ hl =>
    obtain rfl : '\n' = _ := by simpa using hmem
    cases hl
  | @number d₁ d₂ d₃ d₄ _ hd =>
    have hnone : hexValue? '\n' = none := rfl
    have hdigit : '\n' = d₁ ∨ '\n' = d₂ ∨ '\n' = d₃ ∨ '\n' = d₄ := by simpa using hmem
    rcases hdigit with rfl | rfl | rfl | rfl <;> simp [hexValue4?, hnone] at hd

/-- No line is broken within a string. -/
theorem Quotes.noBreak (h : Quotes t w) : '\n' ∉ w := by
  obtain ⟨parts, hparts, rfl⟩ := h
  intro hmem
  have hinside : '\n' ∈ parts.flatten := by simpa using hmem
  obtain ⟨part, hpart, hmem⟩ := List.mem_flatten.mp hinside
  obtain ⟨c, -, hspelled⟩ := exists_of_mem_right hparts hpart
  exact hspelled.noBreak hmem

theorem IsLine.noBreak {p : Text × Text} (h : IsLine p w) : '\n' ∉ w := by
  obtain ⟨first, second, hfirst, hsecond, rfl⟩ := h
  simp [hfirst.noBreak, hsecond.noBreak]

/-! ### Lines -/

/-- The line that is written for a pair. -/
def line (p : Text × Text) : Text :=
  ' ' :: ' ' :: writeString p.1 ++ ':' :: ' ' :: writeString p.2

theorem isLine_line (p : Text × Text) : IsLine p (line p) :=
  ⟨_, _, quotes_writeString p.1, quotes_writeString p.2, rfl⟩

/-- Each pair is written behind a line break. -/
theorem writeFields_textFields (pairs : List (Text × Text)) :
    writeFields 1 (textFields pairs) = (separated (pairs.map line)).flatMap ('\n' :: ·) := by
  induction pairs with
  | nil => rfl
  | cons p pairs ih =>
    cases pairs with
    | nil => simp [textFields, writeFields, write, newLine, separated, line]
    | cons next pairs =>
      have hrest : writeFields 1 (textFields (p :: next :: pairs)) =
          '\n' :: (line p ++ [',']) ++ writeFields 1 (textFields (next :: pairs)) := by
        simp [textFields, writeFields, write, newLine, line]
      rw [hrest, ih]
      simp only [List.map_cons, separated, List.flatMap_cons]

theorem noBreak_of_mem_separated {lines : List Text} (h : ∀ line ∈ lines, '\n' ∉ line) :
    ∀ line ∈ separated lines, '\n' ∉ line := by
  induction lines with
  | nil => exact h
  | cons first lines ih =>
    obtain ⟨hfirst, hothers⟩ := List.forall_mem_cons.mp h
    cases lines with
    | nil => exact h
    | cons next lines =>
      rw [separated, List.forall_mem_cons]
      exact ⟨by simp [hfirst], ih hothers⟩

/-- An object of texts is written line by line. -/
theorem tabulates_document (pairs : List (Text × Text)) :
    Tabulates pairs (Json.obj (textFields pairs)).document := by
  by_cases hne : pairs = []
  · rw [hne]
    exact .empty
  · have hdocument : (Json.obj (textFields pairs)).document =
        Text.join ['\n'] (['\x7b'] :: separated (pairs.map line) ++ [['\x7d'], []]) := by
      rw [List.cons_append, Text.join_cons_eq_append_flatMap, List.flatMap_append]
      obtain ⟨p, pairs, rfl⟩ := List.exists_cons_of_ne_nil hne
      have hfields := writeFields_textFields (p :: pairs)
      simp only [textFields, List.map_cons] at hfields
      simp [document, written, write, textFields, hfields, newLine]
    have hlines : List.Forall₂ IsLine pairs (pairs.map line) := by
      rw [List.forall₂_map_right_iff, List.forall₂_same]
      exact fun p _ => isLine_line p
    refine .lines hne hlines ?_
    rw [hdocument]
    refine Text.splitOn_join (List.cons_ne_nil _ _) ?_
    rw [List.cons_append, List.forall_mem_cons, List.forall_mem_append]
    refine ⟨by decide, noBreak_of_mem_separated ?_, by decide⟩
    intro w hw
    obtain ⟨p, -, hline⟩ := exists_of_mem_right hlines hw
    exact hline.noBreak

end Localize.Json
