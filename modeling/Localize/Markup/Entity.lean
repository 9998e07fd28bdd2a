import Localize.Text.Blank
import Localize.Text.Search

/-!
# Entities and what counts as a string for the user

Six named entities are decoded one after another, so an entity that a decoded ampersand completes is
decoded too when its turn comes later.
-/

namespace Localize.Markup

/-- Entities and their characters, in the order of decoding. -/
def entities : List (Text × Text) :=
  [("&nbsp;", " "), ("&amp;", "&"), ("&lt;", "<"), ("&gt;", ">"), ("&quot;", "\""),
    ("&#39;", "'")].map fun (entity, character) => (entity.toList, character.toList)

def decodeEntities (t : Text) : Text :=
  entities.foldl (fun t (entity, character) => Text.replaceAll entity character t) t

def isBracketOrComma (c : Char) : Bool :=
  c = '\x7b' || c = '\x7d' || c = '(' || c = ')' || c = '[' || c = ']' || c = ';' || c = ','

/-- Nothing but brackets, commas and semicolons, one line break allowed behind them. -/
def isPunctuation (t : Text) : Bool :=
  match t.dropWhile isBracketOrComma with
  | [] => !t.isEmpty
  | ['\n'] => t.length ≠ 1
  | _ => false

/-- Neither empty nor blank nor punctuation. -/
def isTranslatable (t : Text) : Bool := !t.isEmpty && !Text.allBlank t && !isPunctuation t

end Localize.Markup
