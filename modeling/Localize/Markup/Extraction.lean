import Localize.Markup.Attribute
import Localize.Markup.Comment
import Localize.Markup.Entity
import Localize.Markup.Exclusion
import Localize.Markup.Literal

/-!
# Strings for the user

The strings of a document come from three places: the text between two tags, the literals of the
expressions in braces, and the values of visible attributes. Comments are taken out first, places in
excluded elements are left out, and what remains is trimmed, decoded, and dropped when it is no
string to translate. The result is a sorted set.
-/

namespace Localize.Markup

/-- The attributes a user sees when no others are named. -/
def defaultVisibleAttributes : List Text :=
  ["title".toList, "alt".toList, "placeholder".toList]

def isRunEnd (c : Char) : Bool := c = '<' || c = '>' || c = '\x7b' || c = '\x7d'

/-- The text between the end of a tag and the beginning of the next, with the length of all. -/
def textRun? : Text → Option (Text × Nat)
  | '>' :: rest =>
    let run := rest.takeWhile (!isRunEnd ·)
    match rest.drop run.length with
    | '<' :: _ => if run.isEmpty then none else some (run, run.length + 2)
    | _ => none
  | _ => none

/-- An expression in braces, with the length of both braces and what is between. -/
def expression? : Text → Option (Text × Nat)
  | '\x7b' :: rest =>
    let inside := rest.takeWhile (· ≠ '\x7d')
    if inside.isEmpty || inside.length = rest.length then none
    else some (inside, inside.length + 2)
  | _ => none

/-- The matches of a scan outside excluded elements. -/
def visibleMatches {α : Type} (x : Exclusion) (matcher : Text → Option (α × Nat)) (code : Text) :
    List α :=
  let found := Text.scan (fun _ t => matcher t) code
  (found.filter fun f => !x.excludes f.start).map (·.value)

/-- The trimmed texts that are not empty. -/
def trimmed (texts : List Text) : List Text := (texts.map Text.strip).filter fun t => !t.isEmpty

def textRuns (x : Exclusion) (code : Text) : List Text := trimmed (visibleMatches x textRun? code)

def literalStrings (x : Exclusion) (code : Text) : List Text :=
  trimmed ((visibleMatches x expression? code).flatMap expressionLiterals)

def attributeStrings (x : Exclusion) (names : List Text) (code : Text) : List Text :=
  if names.isEmpty then []
  else
    trimmed ((visibleMatches x (visibleAttribute? (namePatterns names)) code).map (·.value))

/-- The strings of a document, decoded and sorted. -/
def extract (code : Text) (attributes : Option (List Text)) (selectors : List Json) : List Text :=
  let code := stripComments code
  let x := Exclusion.ofDocument code (rulesOf selectors)
  let names := attributes.getD defaultVisibleAttributes
  let strings := textRuns x code ++ literalStrings x code ++ attributeStrings x names code
  Text.sortedSet ((strings.map decodeEntities).filter isTranslatable)

end Localize.Markup
