import Localize.Proofs.Display.Value
import Localize.Proofs.Markup.Entity
import Localize.Proofs.Markup.Union

/-!
# Extracted strings as labels

A text that is displayed is looked up by its trimmed value, so the translation under an extracted string
is found for a text that shows the string if and only if the string is trimmed. Texts are trimmed when
they are read from a document and decoded after that: a string is trimmed unless the text begins or
ends with the entity of the blank.
-/

namespace Localize

namespace Markup

/-- A trimmed text that is read in a document at a place that no selector excludes. -/
def ReadIn (code : Text) (attributes : Option (List Text)) (selectors : List Json) (u : Text) :
    Prop :=
  (Exclusion.ofDocument (stripComments code) (rulesOf selectors)).Keeps
    (placedTexts (attributes.getD defaultVisibleAttributes) (stripComments code)) u

variable {code u : Text} {attributes : Option (List Text)} {selectors : List Json}

theorem ReadIn.trimmed (h : ReadIn code attributes selectors u) : Text.strip u = u := by
  obtain ⟨p, -, -, rfl, -⟩ := h
  exact Text.strip_strip p.text

end Markup

namespace Display

variable {s t before behind : Text} {ref : Json} {table : Fields}

/-- Every text that shows a string between blanks has a translation under a table. -/
def FoundFor (table : Fields) (s t : Text) : Prop :=
  ∀ (ref : Json) (before behind : Text), Text.allBlank before = true →
    Text.allBlank behind = true → (Piece.text ref (before ++ s ++ behind)).translation? table =
      .ok (some (.str (before ++ t ++ behind)))

theorem label_text (hbefore : Text.allBlank before = true) (hbehind : Text.allBlank behind = true)
    (ref : Json) (s : Text) : (Piece.text ref (before ++ s ++ behind)).label = Text.strip s :=
  Text.strip_between_blanks hbefore hbehind s

/-- The translation under a trimmed string is found for every text that shows it. -/
theorem foundFor_of_strip_eq (hs : Text.strip s = s) (hblank : Text.allBlank s = false)
    (hfind : Table.find? table s = some (.str t)) (ht : t ≠ []) : FoundFor table s t := by
  intro ref before behind hbefore hbehind
  have hne : s ≠ [] := by
    rintro rfl
    cases hblank
  obtain ⟨hhead, hlast⟩ := Text.strip_eq_self_iff.mp hs
  have hleading : Text.leadingBlanks (before ++ s ++ behind) = before :=
    Text.leadingBlanks_append hbefore hne hhead
  have htrailing : Text.trailingBlanks (before ++ s ++ behind) = behind := by
    refine Text.trailingBlanks_append ?_ hbehind
    rwa [List.getLast?_append_of_ne_nil _ hne]
  have hsome : (Json.str t).isSomething = true := by simp [Json.isSomething, ht]
  simp only [Piece.translation?, label_text hbefore hbehind, hs, hfind, hsome, if_true, hleading,
    htrailing]

/-- What is under a string that is not trimmed is not found for any text that shows it. -/
theorem not_found_of_strip_ne (hs : Text.strip s ≠ s) (hbefore : Text.allBlank before = true)
    (hbehind : Text.allBlank behind = true) (ref : Json) (t : Text) :
    (Piece.text ref (before ++ s ++ behind)).translation? [(s, .str t)] = .ok none := by
  have hfind : Table.find? [(s, Json.str t)] (Text.strip s) = none := by
    rw [Table.find?_cons, if_neg hs.symm]
    rfl
  simp only [Piece.translation?, label_text hbefore hbehind, hfind]

/-- Every extracted string is read as a trimmed text and then decoded, and it is trimmed if and only if
no such text begins or ends with the entity of the blank. If it is trimmed, its translation is found
for every text that shows it, and if not, for none. -/
theorem extracted_found_iff {code : Text} {attributes : Option (List Text)} {selectors : List Json}
    (hs : s ∈ Markup.extract code attributes selectors) :
    (∃ u, Markup.ReadIn code attributes selectors u ∧ Markup.decodeEntities u = s) ∧
    (∀ u, Markup.ReadIn code attributes selectors u → Markup.decodeEntities u = s →
      (Text.strip s = s ↔ ¬ Markup.blankEntity <+: u ∧ ¬ Markup.blankEntity <:+ u)) ∧
    (Text.strip s = s → ∀ (table : Fields) (t : Text),
      Table.find? table s = some (.str t) → t ≠ [] → FoundFor table s t) ∧
    (Text.strip s ≠ s → ∀ (ref : Json) (before behind t : Text), Text.allBlank before = true →
      Text.allBlank behind = true →
        (Piece.text ref (before ++ s ++ behind)).translation? [(s, .str t)] = .ok none) := by
  obtain ⟨⟨u, hu, hdecoded⟩, -⟩ := Markup.mem_extract_iff.mp hs
  refine ⟨⟨u, hu, hdecoded⟩, ?_, ?_, ?_⟩
  · rintro u hu rfl
    exact Markup.strip_decodeEntities_iff hu.trimmed
  · intro htrimmed table t hfind ht
    exact foundFor_of_strip_eq htrimmed (Markup.notBlank_of_mem_extract hs) hfind ht
  · intro hnot ref before behind t hbefore hbehind
    exact not_found_of_strip_ne hnot hbefore hbehind ref t

/-- Behind the entity of a blank a string is extracted with the blank, and its translation is not
found for the text that shows it. -/
theorem extracted_found_iff_blankEntity :
    " Hello".toList ∈ Markup.extract "<p>&nbsp;Hello</p>".toList none [] ∧
    Text.strip " Hello".toList ≠ " Hello".toList ∧
    (Piece.text .null " Hello".toList).translation? [(" Hello".toList, .str "Hola".toList)] =
      .ok none := by
  have hs : " Hello".toList ∈ Markup.extract "<p>&nbsp;Hello</p>".toList none [] := by decide
  have hnot : Text.strip " Hello".toList ≠ " Hello".toList := by decide
  obtain ⟨-, -, -, hnone⟩ := extracted_found_iff hs
  exact ⟨hs, hnot, hnone hnot .null [] [] "Hola".toList rfl rfl⟩

end Display

end Localize
