import Localize.Json.Basic
import Localize.Number.Shortest

/-!
# Reading JSON

A document is one value between blanks. Besides the numbers of the standard the names `NaN`,
`Infinity` and `-Infinity` are values; a number with a point or an exponent is a double precision
number and any other a whole number of any size. The last of several fields of one name counts. An
escape that names half of a surrogate pair alone reads as the replacement character.

A fault is told with the place where it was met, counted in characters.
-/

namespace Localize.Json

/-- What can be wrong with a document. -/
inductive Flaw where
  | noValue
  | noName
  | noColon
  | noComma
  | openString
  | badEscape
  | badCodePoint
  | controlCharacter
  | extraData
  | byteOrderMark
  deriving DecidableEq, Repr

/-- A flaw and the number of characters before it, with its line and column. -/
structure ReadError where
  flaw : Flaw
  line : Nat
  column : Nat
  position : Nat
  deriving DecidableEq, Repr

namespace ReadError

def locate (flaw : Flaw) (document : Text) (position : Nat) : ReadError :=
  let before := document.take position
  ⟨flaw, before.count '\n' + 1, (before.reverse.takeWhile (· ≠ '\n')).length + 1, position⟩

def wording : Flaw → String
  | .noValue => "Expecting value"
  | .noName => "Expecting property name enclosed in double quotes"
  | .noColon => "Expecting ':' delimiter"
  | .noComma => "Expecting ',' delimiter"
  | .openString => "Unterminated string starting at"
  | .badEscape => "Invalid \\escape"
  | .badCodePoint => "Invalid \\uXXXX escape"
  | .controlCharacter => "Invalid control character at"
  | .extraData => "Extra data"
  | .byteOrderMark => "Unexpected UTF-8 BOM (decode using utf-8-sig)"

def message (e : ReadError) : Text :=
  (wording e.flaw).toList ++ ": line ".toList ++ Text.ofNat e.line ++ " column ".toList ++
    Text.ofNat e.column ++ " (char ".toList ++ Text.ofNat e.position ++ [')']

end ReadError

/-- What was read and the rest, or a flaw with the number of characters from it to the end. -/
abbrev Reading (α : Type) := Except (Flaw × Nat) (α × Text)

/-- The blanks of JSON. -/
def isGap (c : Char) : Bool := c = ' ' || c = '\n' || c = '\t' || c = '\r'

def skipGaps (t : Text) : Text := t.dropWhile isGap

def hexValue? (c : Char) : Option Nat :=
  if '0' ≤ c && c ≤ '9' then some (c.toNat - 48)
  else if 'a' ≤ c && c ≤ 'f' then some (c.toNat - 87)
  else if 'A' ≤ c && c ≤ 'F' then some (c.toNat - 55)
  else none

def hexValue4? (a b c d : Char) : Option Nat := do
  return ((← hexValue? a) * 16 + (← hexValue? b)) * 256 + (← hexValue? c) * 16 + (← hexValue? d)

def isHighHalf (n : Nat) : Bool := 0xd800 ≤ n && n < 0xdc00

def isLowHalf (n : Nat) : Bool := 0xdc00 ≤ n && n < 0xe000

/-- The character with a number, a half of a surrogate pair giving the replacement character. -/
def charOf (n : Nat) : Char :=
  if 0xd800 ≤ n && n < 0xe000 then Char.ofNat 0xfffd else Char.ofNat n

def joinHalves (high low : Nat) : Char :=
  Char.ofNat (0x10000 + (high - 0xd800) * 0x400 + (low - 0xdc00))

def simpleEscape? (c : Char) : Option Char :=
  if c = '\x22' || c = '\\' || c = '/' then some c
  else if c = 'b' then some '\x08'
  else if c = 'f' then some '\x0c'
  else if c = 'n' then some '\n'
  else if c = 'r' then some '\r'
  else if c = 't' then some '\t'
  else none

/-- The characters that a row of character numbers stands for: a high half and the low half behind
it are one character. -/
def joinUnits : List Nat → Text
  | [] => []
  | [n] => [charOf n]
  | n :: m :: rest =>
    if isHighHalf n && isLowHalf m then joinHalves n m :: joinUnits rest
    else charOf n :: joinUnits (m :: rest)

/-- A character number put before what was read. -/
def consRead (n : Nat) : Reading (List Nat) → Reading (List Nat)
  | .ok (t, rest) => .ok (n :: t, rest)
  | .error e => .error e

/-- The character numbers of a string up to its closing quote. -/
def readUnits : Text → Reading (List Nat)
  | [] => .error (.openString, 0)
  | c :: rest =>
    if c = '\x22' then .ok ([], rest)
    else if c = '\\' then
      match rest with
      | [] => .error (.openString, 0)
      | e :: digits =>
        if e = 'u' then
          match digits with
          | h1 :: h2 :: h3 :: h4 :: after =>
            match hexValue4? h1 h2 h3 h4 with
            | some n => consRead n (readUnits after)
            | none => .error (.badCodePoint, digits.length + 1)
          | _ => .error (.badCodePoint, digits.length + 1)
        else
          match simpleEscape? e with
          | some d => consRead d.toNat (readUnits digits)
          | none => .error (.badEscape, digits.length + 2)
    else if c.toNat < 0x20 then .error (.controlCharacter, rest.length + 1)
    else consRead c.toNat (readUnits rest)

/-- The characters of a string up to its closing quote. A string that is not closed is a flaw at its
opening quote. -/
def readChars (t : Text) : Reading Text :=
  match readUnits t with
  | .ok (units, rest) => .ok (joinUnits units, rest)
  | .error (.openString, _) => .error (.openString, t.length + 1)
  | .error e => .error e

def digitsValue (digits : Text) : Nat :=
  digits.foldl (fun n c => n * 10 + (c.toNat - 48)) 0

/-- The digits behind a point, if a point and a digit follow. -/
def readFraction? : Text → Option (Text × Text)
  | '.' :: d :: rest =>
    if d.isDigit then some (d :: rest.takeWhile Char.isDigit, rest.dropWhile Char.isDigit) else none
  | _ => none

/-- The exponent, if a letter, perhaps a sign, and a digit follow. -/
def readExponent? : Text → Option (Int × Text)
  | [] => none
  | e :: rest =>
    if e = 'e' || e = 'E' then
      let (negative, digits) := match rest with
        | '-' :: more => (true, more)
        | '+' :: more => (false, more)
        | more => (false, more)
      let size := digitsValue (digits.takeWhile Char.isDigit)
      if (digits.takeWhile Char.isDigit).isEmpty then none
      else some (if negative then -(size : Int) else size, digits.dropWhile Char.isDigit)
    else none

/-- A number behind its sign: whole digits without a zero before others, then what makes it a double
precision number. -/
def readNumber? (negative : Bool) (t : Text) : Option (Json × Text) :=
  let whole := match t with
    | '0' :: _ => ['0']
    | _ => t.takeWhile Char.isDigit
  let rest := t.drop whole.length
  if whole.isEmpty then none
  else
    match readFraction? rest, readExponent? ((readFraction? rest).elim rest (·.2)) with
    | none, none =>
      let n : Int := digitsValue whole
      some (.int (if negative then -n else n), rest)
    | fraction, exponent =>
      let places := fraction.elim [] (·.1)
      let behind := fraction.elim rest (·.2)
      let power := exponent.elim 0 (·.1)
      let decimal : Decimal := ⟨digitsValue (whole ++ places), power - places.length⟩
      some (.float (decimal.toBinary64 negative), exponent.elim behind (·.2))

def namedValues : List (Text × Json) :=
  [("null".toList, .null), ("true".toList, .bool true), ("false".toList, .bool false),
    ("NaN".toList, .float .notANumber), ("Infinity".toList, .float (.infinite false)),
    ("-Infinity".toList, .float (.infinite true))]

/-- A value that is neither a string nor a list nor an object. -/
def readScalar (t : Text) : Reading Json :=
  match namedValues.find? fun (name, _) => name.isPrefixOf t with
  | some (name, value) => .ok (value, t.drop name.length)
  | none =>
    let number := match t with
      | '-' :: rest => readNumber? true rest
      | _ => readNumber? false t
    match number with
    | some read => .ok read
    | none => .error (.noValue, t.length)

mutual

/-- One value at the beginning of a text; the fuel bounds the number of steps. -/
def readValue : Nat → Text → Reading Json
  | 0, t => .error (.noValue, t.length)
  | fuel + 1, t =>
    match t with
    | [] => .error (.noValue, 0)
    | c :: rest =>
      if c = '\x22' then
        match readChars rest with
        | .ok (s, rest) => .ok (.str s, rest)
        | .error e => .error e
      else if c = '[' then
        match skipGaps rest with
        | ']' :: rest => .ok (.arr [], rest)
        | inside =>
          match readItems fuel inside with
          | .ok (items, rest) => .ok (.arr items, rest)
          | .error e => .error e
      else if c = '\x7b' then
        match skipGaps rest with
        | '\x7d' :: rest => .ok (.obj [], rest)
        | inside =>
          match readFields fuel inside with
          | .ok (fields, rest) => .ok (.obj (Table.ofPairs fields), rest)
          | .error e => .error e
      else readScalar t

/-- One item or more up to the closing bracket. -/
def readItems : Nat → Text → Reading (List Json)
  | 0, t => .error (.noValue, t.length)
  | fuel + 1, t =>
    match readValue fuel t with
    | .error e => .error e
    | .ok (item, rest) =>
      match skipGaps rest with
      | ']' :: rest => .ok ([item], rest)
      | ',' :: rest =>
        match readItems fuel (skipGaps rest) with
        | .ok (items, rest) => .ok (item :: items, rest)
        | .error e => .error e
      | other => .error (.noComma, other.length)

/-- One field or more up to the closing brace. -/
def readFields : Nat → Text → Reading (List (Text × Json))
  | 0, t => .error (.noName, t.length)
  | fuel + 1, t =>
    match t with
    | '\x22' :: inside =>
      match readChars inside with
      | .error e => .error e
      | .ok (name, rest) =>
        match skipGaps rest with
        | ':' :: rest =>
          match readValue fuel (skipGaps rest) with
          | .error e => .error e
          | .ok (value, rest) =>
            match skipGaps rest with
            | '\x7d' :: rest => .ok ([(name, value)], rest)
            | ',' :: rest =>
              match readFields fuel (skipGaps rest) with
              | .ok (fields, rest) => .ok ((name, value) :: fields, rest)
              | .error e => .error e
            | other => .error (.noComma, other.length)
        | other => .error (.noColon, other.length)
    | other => .error (.noName, other.length)

end

def read (t : Text) : Except ReadError Json :=
  if t.head? = some (Char.ofNat 0xfeff) then .error (.locate .byteOrderMark t 0)
  else
    match readValue (2 * t.length + 2) (skipGaps t) with
    | .error (flaw, left) => .error (.locate flaw t (t.length - left))
    | .ok (value, rest) =>
      match skipGaps rest with
      | [] => .ok value
      | extra => .error (.locate .extraData t (t.length - extra.length))

/-- The value of a document, if it has no flaw. -/
def read? (t : Text) : Option Json := (read t).toOption

end Localize.Json
