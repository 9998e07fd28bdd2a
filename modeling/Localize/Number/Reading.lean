import Localize.Error
import Localize.Json.Number
import Localize.Text.Blank
import Localize.Text.Case

/-!
# Numbers in texts

A number may stand between blanks and have a sign; its digits may belong to any script, and single
underscores may stand between digits. A double precision number may have a fraction and an exponent,
or be one of the names of the special values in any letter case.
-/

namespace Localize.Text

/-- The digits at the beginning of a text, single underscores between them dropped, and the rest. -/
def readDigitsFrom (afterDigit : Bool) : Text → List Nat × Text
  | [] => ([], [])
  | c :: rest =>
    match digitValue? c with
    | some d =>
      let (ds, left) := readDigitsFrom true rest
      (d :: ds, left)
    | none =>
      if c = '_' && afterDigit && rest.head?.any isDigit then readDigitsFrom false rest
      else ([], c :: rest)

def readDigits (t : Text) : List Nat × Text := readDigitsFrom false t

def digitsNumber (ds : List Nat) : Nat := ds.foldl (fun n d => n * 10 + d) 0

def readSign : Text → Bool × Text
  | '-' :: rest => (true, rest)
  | '+' :: rest => (false, rest)
  | t => (false, t)

/-- A whole number that fills the text. -/
def whole? (t : Text) : Option Int :=
  let (negative, body) := readSign (strip t)
  match readDigits body with
  | (d :: ds, []) =>
    let n : Int := digitsNumber (d :: ds)
    some (if negative then -n else n)
  | _ => none

/-- The exponent that fills a text; zero for the empty text. -/
def exponent? : Text → Option Int
  | [] => some 0
  | e :: rest =>
    if e = 'e' || e = 'E' then
      let (negative, body) := readSign rest
      match readDigits body with
      | (d :: ds, []) =>
        let n : Int := digitsNumber (d :: ds)
        some (if negative then -n else n)
      | _ => none
    else none

/-- A double precision number that fills the text. -/
def real? (t : Text) : Option Binary64 :=
  let (negative, body) := readSign (strip t)
  let name := lower body
  if name = "inf".toList || name = "infinity".toList then some (.infinite negative)
  else if name = "nan".toList then some .notANumber
  else
    let (whole, rest) := readDigits body
    let (places, rest) := match rest with
      | '.' :: more => readDigits more
      | _ => ([], rest)
    if whole.isEmpty && places.isEmpty then none
    else do
      let power ← exponent? rest
      let decimal : Decimal := ⟨digitsNumber (whole ++ places), power - places.length⟩
      return decimal.toBinary64 negative

end Localize.Text

namespace Localize.Json

/-- A value as a whole number: numbers lose what is behind the point, texts are read. -/
def toWhole : Json → Except Fault Int
  | .int i => .ok i
  | .bool b => .ok (if b then 1 else 0)
  | .float x =>
    match x.truncate? with
    | some i => .ok i
    | none => .error (if x = .notANumber then .badValue else .tooLarge)
  | .str t =>
    match Text.whole? t with
    | some i => .ok i
    | none => .error .badValue
  | _ => .error .wrongType

/-- A value as a double precision number. -/
def toReal : Json → Except Fault Binary64
  | .str t =>
    match Text.real? t with
    | some x => .ok x
    | none => .error .badValue
  | value =>
    match value.quantity? with
    | none => .error .wrongType
    | some q =>
      match q.toReal? with
      | some x => .ok x
      | none => .error .tooLarge

end Localize.Json
