import Localize.Glossary.Placeholder
import Localize.Pattern.Matching
import Localize.Pattern.Reader

/-!
# Markers

Placeholders and variables that a translation has to carry over as they are. Variables are written
`$`, braces and a text between them, or simple or double braces around a name, or a percent sign
with a letter; or as the patterns given say.
-/

namespace Localize.Batch

/-- The length of a dollar sign with something in braces. -/
def dollarVariable? : Text → Option Nat
  | '$' :: '\x7b' :: rest =>
    let inside := rest.takeWhile (· ≠ '\x7d')
    if inside.isEmpty || (rest.drop inside.length).isEmpty then none else some (inside.length + 3)
  | _ => none

def isVariableChar (c : Char) : Bool := c.isAlphanum || c = '_' || c = '.'

/-- The length of a name in simple or double braces. -/
def bracedVariable? : Text → Option Nat
  | '\x7b' :: rest =>
    let opening := if rest.head? = some '\x7b' then 2 else 1
    let behind := rest.drop (opening - 1)
    let name := behind.takeWhile isVariableChar
    match behind.drop name.length with
    | '\x7d' :: more =>
      if name.isEmpty then none
      else some (opening + name.length + (if more.head? = some '\x7d' then 2 else 1))
    | _ => none
  | _ => none

/-- The length of a percent sign with its letter. -/
def percentVariable? : Text → Option Nat
  | '%' :: c :: _ => if c = 's' || c = 'd' then some 2 else none
  | _ => none

/-- The stretches that a scanner finds from left to right. -/
def stretches (length? : Text → Option Nat) (t : Text) : List Text :=
  (Text.scan (fun _ rest => (length? rest).map fun n => (rest.take n, n)) t).map (·.value)

/-- What a pattern gives for its matches: the whole match, or all its groups where it has some; a
group without a part in the match is empty. A pattern without meaning gives nothing. -/
def matchesOf (written : Text) (t : Text) : List (List Text) :=
  match Pattern.ofText? false written with
  | none => []
  | some (pattern, groups) =>
    (pattern.allMatches t).map fun (first, later) =>
      if groups = 0 then [first.reach later]
      else (List.range groups).map fun n => (Table.find? later.captures (n + 1)).getD []

/-- The order of lists of texts, the first difference deciding. -/
def listBefore : List Text → List Text → Bool
  | _, [] => false
  | [], _ :: _ => true
  | t :: ts, u :: us => if t = u then listBefore ts us else Text.before t u

/-- The variables in a text that patterns describe, each as the list of what its pattern gives. -/
def variablesBy (patterns : List Text) (t : Text) : List (List Text) :=
  sortBy listBefore (patterns.flatMap fun p => matchesOf p t).eraseDups

def variablesOf (t : Text) : List Text :=
  Text.sortedSet (stretches dollarVariable? t ++ stretches bracedVariable? t ++
    stretches percentVariable? t)

/-- The elements of a sorted list that are not in another. -/
def without (ts others : List Text) : List Text := ts.filter fun t => !others.contains t

def lostVariables (sent translated : Text) : List Text :=
  without (variablesOf sent) (variablesOf translated)

def lostPlaceholders (sent translated : Text) : List Text :=
  without (Placeholder.tokensIn sent) (Placeholder.tokensIn translated)

def lostMarkers (preserveFormatting : Bool) (sent translated : Text) : List Text :=
  Text.sortedSet (lostPlaceholders sent translated ++
    (if preserveFormatting then lostVariables sent translated else []))

/-- The source texts whose translations have lost markers, with what they have lost. -/
def losses (preserveFormatting : Bool) (sent : Table Text Text) (translations : Fields) :
    Table Text (List Text) :=
  sent.foldl (fun found (t, source) =>
    match Table.find? translations t with
    | some (.str translated) =>
      match lostMarkers preserveFormatting t translated with
      | [] => found
      | lost => Table.insert found source lost
    | _ => found) []

end Localize.Batch
