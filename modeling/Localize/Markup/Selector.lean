import Localize.Json.Basic
import Localize.Text.Blank
import Localize.Text.Case
import Localize.Text.Search

/-!
# Selectors

A selector names elements by a tag, an id and classes: `div`, `div#header.dark`, `.legal`. The tag
comes first, the id is the first `#name` behind it, and the classes are the `.name` parts of what
remains. A rule without any part is what an unknown form of selector gives.
-/

namespace Localize.Markup

/-- An element by what it has to have. -/
structure Rule where
  tag : Option Text
  id : Option Text
  classes : List Text
  deriving DecidableEq, Repr

/-- Characters of ids and classes. -/
def isIdentChar (c : Char) : Bool := Text.isNameChar c || c = '_'

/-- The name behind a mark at the beginning of a text, with the length of both. -/
def markedName? (mark : Char) : Text → Option (Text × Nat)
  | [] => none
  | c :: rest =>
    let name := rest.takeWhile isIdentChar
    if c = mark && !name.isEmpty then some (name, name.length + 1) else none

/-- The rule of a selector that is not blank. -/
def Rule.ofSelector (selector : Text) : Rule :=
  let selector := Text.strip selector
  let tag := selector.takeWhile Text.isNameChar
  let behind := selector.dropWhile Text.isNameChar
  let id := Text.firstMatch? (fun t => (markedName? '#' t).map (·.1)) behind
  let remaining := match id with
    | some name => Text.replaceFirst ('#' :: name) [] behind
    | none => behind
  { tag := if tag.isEmpty then none else some (Text.lower tag)
    id
    classes := (Text.scan (fun _ t => markedName? '.' t) remaining).map (·.value) }

/-- The rules of a list of selectors; blank ones and values that are no texts give none. -/
def rulesOf (selectors : List Json) : List Rule :=
  selectors.filterMap fun selector =>
    match selector with
    | .str t => if Text.allBlank t then none else some (.ofSelector t)
    | _ => none

end Localize.Markup
