import Localize.Json.Basic
import Localize.Number.Shortest
import Localize.Text.Literal

/-!
# Written JSON

Documents are written with two spaces of indentation for every level, one field or item a line, and
a line break at the end. Only quotes, backslashes and the control characters below the space are
escaped; every other character stands for itself.
-/

namespace Localize.Json

/-- The escape letter of the control characters that have one. -/
def escapeLetter? (c : Char) : Option Char :=
  if c = '\n' then some 'n'
  else if c = '\r' then some 'r'
  else if c = '\t' then some 't'
  else if c = '\x08' then some 'b'
  else if c = '\x0c' then some 'f'
  else none

def writeChar (c : Char) : Text :=
  if c = '\x22' || c = '\\' then ['\\', c]
  else
    match escapeLetter? c with
    | some letter => ['\\', letter]
    | none => if c.toNat < 0x20 then '\\' :: 'u' :: Text.hexDigits 4 c.toNat else [c]

def writeString (t : Text) : Text := '\x22' :: t.flatMap writeChar ++ ['\x22']

/-- A number with a point or an exponent, or the name of a special value. -/
def writeFloat : Binary64 → Text
  | .infinite false => "Infinity".toList
  | .infinite true => "-Infinity".toList
  | .notANumber => "NaN".toList
  | x => x.text

/-- A line break and the indentation of a level. -/
def newLine (level : Nat) : Text := '\n' :: List.replicate (2 * level) ' '

mutual

/-- A value at a level of indentation. -/
def write (level : Nat) : Json → Text
  | .null => "null".toList
  | .bool true => "true".toList
  | .bool false => "false".toList
  | .int i => Text.ofInt i
  | .float x => writeFloat x
  | .str t => writeString t
  | .arr [] => ['[', ']']
  | .arr (item :: rest) => '[' :: writeItems (level + 1) (item :: rest) ++ newLine level ++ [']']
  | .obj [] => ['\x7b', '\x7d']
  | .obj (f :: rest) =>
    '\x7b' :: writeFields (level + 1) (f :: rest) ++ newLine level ++ ['\x7d']

def writeItems (level : Nat) : List Json → Text
  | [] => []
  | [item] => newLine level ++ write level item
  | item :: next :: rest =>
    newLine level ++ write level item ++ ',' :: writeItems level (next :: rest)

def writeFields (level : Nat) : List (Text × Json) → Text
  | [] => []
  | [(key, value)] => newLine level ++ writeString key ++ ':' :: ' ' :: write level value
  | (key, value) :: next :: rest =>
    newLine level ++ writeString key ++ ':' :: ' ' :: write level value ++
      ',' :: writeFields level (next :: rest)

end

/-- A value as the text of a document, without the line break at its end. -/
def written (value : Json) : Text := write 0 value

def document (value : Json) : Text := written value ++ ['\n']

end Localize.Json
