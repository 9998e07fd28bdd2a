import Localize.Error
import Localize.Text.Blank
import Localize.Text.Search

/-!
# Styles of printed text

A printed text turns styles on and off by their names in square brackets, a slash standing before a
name that is turned off. Brackets with other contents, or behind a backslash, are printed as they
are. Where no styles can be shown the marks are dropped; a style that is not on cannot be turned
off.
-/

namespace Localize.Style

/-- What stands in square brackets and how many backslashes before it. -/
structure Mark where
  backslashes : Nat
  inside : Text
  deriving Repr

/-- Whether a mark can begin with a character. -/
def isMarkStart (c : Char) : Bool := c.isLower || c = '#' || c = '/' || c = '@'

def mark? (t : Text) : Option (Mark × Nat) :=
  let backslashes := (t.takeWhile (· = '\\')).length
  match t.drop backslashes with
  | '[' :: c :: rest =>
    let inside := c :: rest.takeWhile fun d => d ≠ '[' && d ≠ ']'
    match isMarkStart c, rest.drop (inside.length - 1) with
    | true, ']' :: _ => some (⟨backslashes, inside⟩, backslashes + inside.length + 2)
    | _, _ => none
  | _ => none

def named (t : Text) : Text := Text.lower (Text.strip t)

/-- The styles that are on after a name, the one turned on last coming first. -/
def turn (on : List Text) (inside : Text) : Except Fault (List Text) :=
  match inside.takeWhile (· ≠ '=') with
  | '/' :: name =>
    match named name, on with
    | [], [] => .error .styleNotOn
    | [], _ :: rest => .ok rest
    | style, on => if on.contains style then .ok (on.erase style) else .error .styleNotOn
  | name => .ok (named name :: on)

/-- What is printed for a mark, and the styles that are on behind it. -/
def Mark.follow (m : Mark) (on : List Text) : Except Fault (Text × List Text) :=
  let shown := List.replicate (m.backslashes / 2) '\\'
  if m.backslashes % 2 = 1 then .ok (shown ++ '[' :: m.inside ++ [']'], on)
  else do return (shown, ← turn on m.inside)

/-- Text between marks: a backslash before a bracket is dropped. -/
def unescaped (t : Text) : Text := Text.replaceAll ['\\', '['] ['['] t

/-- What is printed of a text from a position on, given the marks that follow. -/
def plainFrom (on : List Text) (position : Nat) (t : Text) :
    List (Text.Found Mark) → Except Fault Text
  | [] => .ok (unescaped t)
  | found :: rest => do
    let ahead := found.start - position
    let (shown, on) ← found.value.follow on
    let behind ← plainFrom on (found.start + found.length) (t.drop (ahead + found.length)) rest
    return unescaped (t.take ahead) ++ shown ++ behind

/-- Characters that a terminal would act upon. -/
def isControl (c : Char) : Bool := [0x07, 0x08, 0x0b, 0x0c, 0x0d].contains c.toNat

/-- What is printed of a text without its styles. -/
def plain (t : Text) : Except Fault Text := do
  return (← plainFrom [] 0 t (Text.scan (fun _ rest => mark? rest) t)).filter (!isControl ·)

end Localize.Style
