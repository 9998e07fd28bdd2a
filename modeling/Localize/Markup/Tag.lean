import Localize.Text.Blank
import Localize.Text.Case
import Localize.Text.Search

/-!
# Tags

A document is cut into its tags without regard to anything else in it: a tag begins with `<`,
perhaps a slash, and a name of letters, digits and hyphens, and reaches to the next `>`. The id and
the classes of an opening tag are read from the text of its attributes; the rest of an attribute's
name before `id` or `class` is not looked at, so `data-id` counts as an id.
-/

namespace Localize.Markup

/-- A tag with the id and classes of its element. -/
structure Tag where
  name : Text
  id : Option Text
  classes : List Text
  position : Nat
  deriving DecidableEq, Repr

inductive TagKind where
  | opening
  | closing
  | selfClosing
  deriving DecidableEq, Repr

/-- A tag of a document; only opening tags carry an id and classes. -/
structure TagEvent where
  kind : TagKind
  tag : Tag
  deriving DecidableEq, Repr

def isQuote (c : Char) : Bool := c = '\x22' || c = '\x27'

/-- A value of one character or more between two quotes, and what follows. -/
def quotedValue? : Text → Option (Text × Text)
  | [] => none
  | c :: rest =>
    if isQuote c then
      let value := rest.takeWhile (!isQuote ·)
      match rest.drop value.length with
      | _ :: behind => if value.isEmpty then none else some (value, behind)
      | [] => none
    else none

/-- What follows an equals sign and the blanks around it. -/
def afterEquals? (t : Text) : Option Text :=
  match Text.stripLeft t with
  | '=' :: rest => some (Text.stripLeft rest)
  | _ => none

/-- What follows a name, letter case ignored. -/
def afterName? : Text → Text → Option Text
  | [], rest => some rest
  | _ :: _, [] => none
  | a :: as, b :: bs => if Text.sameLetter a b then afterName? as bs else none

/-- The first quoted value given to a name. -/
def attributeValue? (name attributes : Text) : Option Text :=
  Text.firstMatch? (fun t => do
    let behind ← afterName? name t
    let behind ← afterEquals? behind
    let (value, _) ← quotedValue? behind
    return value) attributes

/-- The last quoted value that begins before the next closing brace and is followed by one. -/
def lastQuotedInBraces? : Text → Option Text
  | [] => none
  | c :: rest =>
    if c = '\x7d' then none
    else
      match lastQuotedInBraces? rest with
      | some value => some value
      | none =>
        match quotedValue? (c :: rest) with
        | some (value, behind) => if behind.contains '\x7d' then some value else none
        | none => none

/-- The quoted literal of the first `className` given in braces. -/
def classExpression? (attributes : Text) : Option Text :=
  Text.firstMatch? (fun t => do
    let behind ← afterName? "className".toList t
    match ← afterEquals? behind with
    | '\x7b' :: inside => lastQuotedInBraces? inside
    | _ => none) attributes

def Tag.ofAttributes (name attributes : Text) (position : Nat) : Tag :=
  { name
    id := attributeValue? "id".toList attributes
    classes :=
      ((attributeValue? "class".toList attributes).elim [] Text.words) ++
        ((attributeValue? "className".toList attributes).elim [] Text.words) ++
          ((classExpression? attributes).elim [] Text.words)
    position }

/-- A tag as it is written. -/
structure WrittenTag where
  closing : Bool
  name : Text
  attributes : Text
  deriving DecidableEq, Repr

/-- The tag at the beginning of a text, with its length. -/
def writtenTag? : Text → Option (WrittenTag × Nat)
  | '<' :: rest =>
    let (closing, rest) := match rest with
      | '/' :: behind => (true, behind)
      | _ => (false, rest)
    let name := rest.takeWhile Text.isNameChar
    let behind := rest.drop name.length
    let attributes := behind.takeWhile (· ≠ '>')
    if name.isEmpty || attributes.length = behind.length then none
    else
      some (⟨closing, name, attributes⟩,
        (if closing then 3 else 2) + name.length + attributes.length)
  | _ => none

/-- Whether the text of a tag ends with a slash, blanks behind it allowed. -/
def endsWithSlash (attributes : Text) : Bool :=
  (Text.stripRight attributes).getLast? = some '/'

def TagEvent.ofWritten (w : WrittenTag) (position : Nat) : TagEvent :=
  let name := Text.lower w.name
  if w.closing then ⟨.closing, ⟨name, none, [], position⟩⟩
  else if endsWithSlash w.attributes then ⟨.selfClosing, ⟨name, none, [], position⟩⟩
  else ⟨.opening, .ofAttributes name w.attributes position⟩

def tagEvents (code : Text) : List TagEvent :=
  (Text.scan (fun _ t => writtenTag? t) code).map fun found =>
    .ofWritten found.value found.start

end Localize.Markup
