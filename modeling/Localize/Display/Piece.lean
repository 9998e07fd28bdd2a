import Localize.Error
import Localize.Text.Blank

/-!
# Displayed content

A piece of content is a text or an attribute of an element, with the value it had at first. What is
shown for it depends on a table of translations: the translation of that value, or the value itself
where the table has none. Blanks around a text are kept as they are.
-/

namespace Localize.Display

/-- What a piece of content is known by. -/
inductive Key where
  | text (ref : Json)
  | attr (element : Json) (name : Text)
  deriving DecidableEq, Repr

/-- A piece of content with the value it had at first. -/
inductive Piece where
  | text (ref : Json) (source : Text)
  | attr (element : Json) (name source : Text)
  deriving DecidableEq, Repr

namespace Piece

def key : Piece → Key
  | text ref _ => .text ref
  | attr element name _ => .attr element name

def source : Piece → Text
  | text _ source => source
  | attr _ _ source => source

/-- What is looked up for the content. -/
def label : Piece → Text
  | text _ source => Text.strip source
  | attr _ _ source => source

/-- The translation in a table; one that counts as nothing is none. A text needs a text. -/
def translation? (table : Fields) (c : Piece) : Except Fault (Option Json) :=
  match Table.find? table c.label with
  | none => .ok none
  | some value =>
    if value.isSomething then
      match c, value with
      | text _ source, .str t =>
        .ok (some (.str (Text.leadingBlanks source ++ t ++ Text.trailingBlanks source)))
      | text _ _, _ => .error .wrongType
      | attr _ _ _, value => .ok (some value)
    else .ok none

end Piece

/-- A piece of content, or another value given in place of one. -/
inductive Reference where
  | piece (p : Piece)
  | other (value : Json)
  deriving Repr

/-- What is shown, and how much of it is translated. -/
structure Shown where
  values : Table Key Json
  translated : Nat
  fallbacks : Nat
  missing : List Text

namespace Shown

def empty : Shown := ⟨[], 0, 0, []⟩

def add (table : Fields) (s : Shown) (r : Reference) : Except Fault Shown :=
  match r with
  | .other value => .error (.notContent value)
  | .piece c =>
    match c.translation? table with
    | .error fault => .error fault
    | .ok (some value) =>
      .ok { s with values := Table.insert s.values c.key value, translated := s.translated + 1 }
    | .ok none => .ok {
        values := Table.insert s.values c.key (.str c.source)
        translated := s.translated
        fallbacks := s.fallbacks + 1
        missing := if c.label.isEmpty then s.missing else s.missing ++ [c.label] }

def ofTable (table : Fields) (content : List Reference) : Except Fault Shown :=
  content.foldlM (add table) empty

end Shown

end Localize.Display
