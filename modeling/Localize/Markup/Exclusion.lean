import Localize.Markup.Selector
import Localize.Markup.Tag

/-!
# Excluded places

The tags before a place are replayed on a stack of open elements. A closing tag closes the nearest
open element of its name and is ignored when there is none, so badly nested tags of one name do not
disturb another name. A place is excluded when an open element matches a rule.
-/

namespace Localize.Markup

/-- Whether an element has everything a rule asks for. A rule of a tag alone needs only the tag. -/
def Rule.matches (rule : Rule) (tag : Tag) : Bool :=
  rule.tag.all (· = tag.name) && rule.id.all (tag.id = some ·) &&
    rule.classes.all (tag.classes.contains ·)

def matchesAny (rules : List Rule) (tag : Tag) : Bool := rules.any (·.matches tag)

/-- Closes the nearest open element of a name; the nearest comes first. -/
def closeNearest (name : Text) : List Tag → List Tag
  | [] => []
  | tag :: rest => if tag.name = name then rest else tag :: closeNearest name rest

/-- One tag on the stack of open elements, the nearest first. -/
def replay (stack : List Tag) (event : TagEvent) : List Tag :=
  match event.kind with
  | .opening => event.tag :: stack
  | .closing => closeNearest event.tag.name stack
  | .selfClosing => stack

/-- A document's tags with the rules to apply to it. -/
structure Exclusion where
  rules : List Rule
  events : List TagEvent

namespace Exclusion

/-- Without rules the tags are not looked at. -/
def ofDocument (code : Text) (rules : List Rule) : Exclusion :=
  ⟨rules, if rules.isEmpty then [] else tagEvents code⟩

/-- The elements open strictly before a place, outermost first. -/
def openTags (x : Exclusion) (position : Nat) : List Tag :=
  ((x.events.takeWhile fun e => e.tag.position < position).foldl replay []).reverse

def excludes (x : Exclusion) (position : Nat) : Bool :=
  (x.openTags position).any (matchesAny x.rules)

end Exclusion

end Localize.Markup
