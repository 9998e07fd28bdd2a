import Localize.Error
import Localize.Json.Shape
import Localize.Markup.Extraction
import Localize.Volume.Basic

/-!
# Pages

A page is a file whose extension says that it holds markup for a user. Its line breaks are read as
one character whatever they are, and its strings are found by a selection, which a document may
give in any form.
-/

namespace Localize.Source

/-- The extensions of pages. -/
def pageExtensions : List Text := [".tsx", ".jsx", ".html"].map String.toList

def isPage (p : Path) : Bool := pageExtensions.contains (Text.lower p.suffix)

/-- A carriage return, with a line feed behind it or without, is a line break. -/
def unifyLineBreaks : Text → Text
  | [] => []
  | '\r' :: '\n' :: rest => '\n' :: unifyLineBreaks rest
  | c :: rest => (if c = '\r' then '\n' else c) :: unifyLineBreaks rest

def read (v : Volume) (p : Path) : Except Error Text :=
  if isPage p then
    match v.place p with
    | .file (.text t) => .ok (unifyLineBreaks t)
    | _ => .error (.sourceUnreadable p)
  else .error (.notUiFile p)

/-- What is looked for in a page: the visible attributes, null standing for the usual ones, and the
selectors of excluded elements. -/
structure Selection where
  attributes : Json := .null
  excluded : Json := .null

namespace Selection

/-- The name of a visible attribute. -/
def nameOf (value : Json) : Except Fault Text :=
  match value with
  | .str name => .ok name
  | _ => .error .wrongType

/-- The visible attributes; none where the usual ones are meant. -/
def names? (s : Selection) : Except Fault (Option (List Text)) :=
  if s.attributes = .null then .ok none
  else do return some (← (← Json.elementsOrNone (some s.attributes)).mapM nameOf)

def strings (s : Selection) (page : Text) : Except Fault (List Text) := do
  let selectors ← Json.elementsOrNone (some s.excluded)
  return Markup.extract page (← s.names?) selectors

end Selection

end Localize.Source
