import Localize.Markup.Tag
import Localize.Text.Word

/-!
# Visible attributes

The attributes whose values a user sees are given by name; a star in a name stands for any run of
letters, digits and hyphens. A name is looked for everywhere, letter case ignored, and the names are
tried in the order given; a star takes as much as it can.
-/

namespace Localize.Markup

/-- A part of the name of a visible attribute. -/
inductive NamePart where
  | char (c : Char)
  | anyRun
  deriving DecidableEq, Repr

abbrev NamePattern := List NamePart

def NamePattern.ofText (t : Text) : NamePattern :=
  t.map fun c => if c = '*' then .anyRun else .char c

/-- A letter, a digit or a hyphen, letter case ignored. -/
def isRunChar (c : Char) : Bool := Text.isNameChar (Text.foldChar c)

/-- The longest run first, then ever shorter ones. -/
def afterRun? {α : Type} (next : Text → Option α) : Text → Option α
  | [] => next []
  | c :: rest =>
    if isRunChar c then
      match afterRun? next rest with
      | some value => some value
      | none => next (c :: rest)
    else next (c :: rest)

/-- Matches a name and goes on with what follows. -/
def NamePattern.match? {α : Type} : NamePattern → (Text → Option α) → Text → Option α
  | [], next, t => next t
  | .char _ :: _, _, [] => none
  | .char c :: parts, next, d :: rest =>
    if Text.sameLetter c d then match? parts next rest else none
  | .anyRun :: parts, next, t => afterRun? (match? parts next) t

/-- An attribute with a quoted value. -/
structure WrittenAttribute where
  name : Text
  value : Text
  deriving DecidableEq, Repr

/-- The visible attribute at the beginning of a text, with its length. -/
def visibleAttribute? (names : List NamePattern) (t : Text) : Option (WrittenAttribute × Nat) :=
  names.findSome? fun pattern =>
    pattern.match? (fun behind => do
      let rest ← afterEquals? behind
      let (value, rest) ← quotedValue? rest
      return (⟨t.take (t.length - behind.length), value⟩, t.length - rest.length)) t

/-- The patterns of the names given; without any, the empty name. -/
def namePatterns (names : List Text) : List NamePattern :=
  if names.isEmpty then [[]] else names.map .ofText

def visibleAttributes (names : List Text) (t : Text) : List (Text.Found WrittenAttribute) :=
  Text.scan (fun _ rest => visibleAttribute? (namePatterns names) rest) t

end Localize.Markup
