import Localize.Number.Binary64
import Localize.Text.Basic

/-!
# Shortest decimal texts

A double precision number is written with the fewest decimal digits that read back as the same
number, and of those the digits nearest to it. `Decimal` holds the digits and the power of ten;
`Notation` says how they are laid out.
-/

namespace Localize

/-- A decimal number `digits * 10 ^ exponent`. -/
structure Decimal where
  digits : Nat
  exponent : Int
  deriving DecidableEq, Repr

namespace Decimal

def fraction (d : Decimal) : Nat × Nat :=
  match d.exponent with
  | .ofNat e => (d.digits * Nat.pow 10 e, 1)
  | .negSucc e => (d.digits, Nat.pow 10 (e + 1))

/-- The number nearest to a decimal. A decimal far outside the range is decided by its size
alone. -/
def toBinary64 (negative : Bool) (d : Decimal) : Binary64 :=
  let place : Int := (Nat.toDigits 10 d.digits).length + d.exponent
  if d.digits = 0 || place < -330 then .finite negative 0 0
  else if 330 < place then .infinite negative
  else Binary64.roundFraction negative d.fraction.1 d.fraction.2

end Decimal

namespace Binary64

/-- How many zeros stand between the point and the first digit of a fraction below one. -/
def leadingZeros (num den : Nat) : Nat → Nat
  | 0 => 0
  | fuel + 1 => if den ≤ num * 10 then 0 else leadingZeros (num * 10) den fuel + 1

/-- The place of the point: the fraction lies between the powers of ten before it and at it. -/
def pointPlace (num den : Nat) : Int :=
  if den ≤ num then (Nat.toDigits 10 (num / den)).length
  else -(leadingZeros num den 400 : Int)

/-- The distance of a decimal from a fraction, both over one denominator. -/
def distance (d : Decimal) (num den : Nat) : Nat :=
  let (n, e) := d.fraction
  (n * den - num * e) + (num * e - n * den)

/-- Tries grids of more and more digits; on each the two neighbours of the number. -/
def searchGrid (x : Binary64) (num den : Nat) (place : Int) : (tries count : Nat) → Decimal
  | 0, count =>
    let exponent := place - count
    let (n, e) := shiftTen num den exponent
    ⟨roundQuotient n e, exponent⟩
  | tries + 1, count =>
    let exponent := place - count
    let (n, e) := shiftTen num den exponent
    let low : Decimal := ⟨n / e, exponent⟩
    let high : Decimal := ⟨n / e + 1, exponent⟩
    let lowReads := low.toBinary64 false = x
    let highReads := high.toBinary64 false = x
    if lowReads && highReads then
      (if closer low high then low else high)
    else if lowReads then low
    else if highReads then high
    else searchGrid x num den place tries (count + 1)
where
  shiftTen (num den : Nat) : Int → Nat × Nat
    | .ofNat e => (num, den * Nat.pow 10 e)
    | .negSucc e => (num * Nat.pow 10 (e + 1), den)
  closer (low high : Decimal) : Bool :=
    low.digits % 2 = 0 && distance low num den = distance high num den ||
      distance low num den < distance high num den

/-- The fewest digits that read back as a positive finite number. -/
def shortest (significand : Nat) (exponent : Int) : Decimal :=
  let (num, den) := magnitude significand exponent
  searchGrid (.finite false significand exponent) num den (pointPlace num den) 17 1

/-- Digits without the zeros at their end. -/
def trimZeros (digits : Text) : Text := (digits.reverse.dropWhile (· = '0')).reverse

/-- Lays digits out around the point: in place from ten-thousandths to below ten to the sixteenth,
else with one digit before the point and an exponent of at least two digits. -/
def layOut (digits : Text) (place : Int) : Text :=
  if -4 < place && place ≤ 16 then
    if place ≤ 0 then ['0', '.'] ++ List.replicate (-place).toNat '0' ++ digits
    else if digits.length ≤ place.toNat then
      digits ++ List.replicate (place.toNat - digits.length) '0' ++ ['.', '0']
    else digits.take place.toNat ++ '.' :: digits.drop place.toNat
  else
    let power := place - 1
    let size := Text.ofNat power.natAbs
    let head := match digits with
      | [] => []
      | [d] => [d]
      | d :: rest => d :: '.' :: rest
    head ++ ['e', if power < 0 then '-' else '+'] ++ (if size.length < 2 then '0' :: size else size)

def finiteText (negative : Bool) (significand : Nat) (exponent : Int) : Text :=
  (if negative then ['-'] else []) ++
    if significand = 0 then ['0', '.', '0']
    else
      let d := shortest significand exponent
      let digits := Text.ofNat d.digits
      layOut (trimZeros digits) (digits.length + d.exponent)

/-- The text of a number, the special values in small letters. -/
def text : Binary64 → Text
  | .finite negative significand exponent => finiteText negative significand exponent
  | .infinite negative => (if negative then ['-'] else []) ++ "inf".toList
  | .notANumber => "nan".toList

/-- The text with two places behind the point. -/
def textWithHundredths (x : Binary64) : Text :=
  match x.hundredths? with
  | none => x.text
  | some n =>
    let places := Text.ofNat (n % 100)
    (if x.isNegative then ['-'] else []) ++ Text.ofNat (n / 100) ++
      '.' :: (if places.length < 2 then '0' :: places else places)

end Binary64

end Localize
