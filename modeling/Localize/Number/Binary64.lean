/-!
# Double precision numbers

Numbers of 53 significant bits with exact arithmetic underneath: an operation computes a fraction
and rounds it once, to the nearest number and on a tie to the even significand. A finite number
holds its significand and its power of two; `roundFraction` gives each number one such pair, so
equal numbers are equal values, the two zeros apart.
-/

namespace Localize

/-- A double precision number; a finite one is `significand * 2 ^ exponent` with a sign. -/
inductive Binary64 where
  | finite (negative : Bool) (significand : Nat) (exponent : Int)
  | infinite (negative : Bool)
  | notANumber
  deriving DecidableEq, Repr

namespace Binary64

/-- The quotient rounded to the nearest natural number, a tie to the even one. -/
def roundQuotient (num den : Nat) : Nat :=
  let q := num / den
  let r := num % den
  if 2 * r < den then q
  else if den < 2 * r then q + 1
  else if q % 2 = 0 then q else q + 1

/-- Numerator and denominator after division by a power of two. -/
def shiftDown (num den : Nat) (exponent : Int) : Nat × Nat :=
  match exponent with
  | .ofNat e => (num, den * Nat.pow 2 e)
  | .negSucc e => (num * Nat.pow 2 (e + 1), den)

/-- The number nearest to a fraction. -/
def roundFraction (negative : Bool) (num den : Nat) : Binary64 :=
  if num = 0 then .finite negative 0 0
  else
    let estimate : Int := (Nat.log2 num : Int) - (Nat.log2 den : Int) - 52
    let scaled := shiftDown num den estimate
    let small := scaled.1 < Nat.pow 2 52 * scaled.2
    let exponent := max (-1074) (if small then estimate - 1 else estimate)
    let exact := shiftDown num den exponent
    let rounded := roundQuotient exact.1 exact.2
    if rounded = 0 then .finite negative 0 0
    else if rounded = Nat.pow 2 53 then
      if exponent + 1 > 971 then .infinite negative
      else .finite negative (Nat.pow 2 52) (exponent + 1)
    else if exponent > 971 then .infinite negative
    else .finite negative rounded exponent

/-- The number nearest to a signed fraction. -/
def ofFraction (num : Int) (den : Nat) : Binary64 := roundFraction (num < 0) num.natAbs den

def ofInt (i : Int) : Binary64 := ofFraction i 1

/-- The size of a finite number as a fraction. -/
def magnitude (significand : Nat) : Int → Nat × Nat
  | .ofNat e => (significand * Nat.pow 2 e, 1)
  | .negSucc e => (significand, Nat.pow 2 (e + 1))

def fraction? : Binary64 → Option (Int × Nat)
  | .finite negative significand exponent =>
    let (num, den) := magnitude significand exponent
    some (if negative then -(num : Int) else num, den)
  | _ => none

def isNegative : Binary64 → Bool
  | .finite negative _ _ => negative
  | .infinite negative => negative
  | .notANumber => false

def isZero : Binary64 → Bool
  | .finite _ significand _ => significand = 0
  | _ => false

def add (a b : Binary64) : Binary64 :=
  match a.fraction?, b.fraction? with
  | some (n, d), some (m, e) =>
    let sum := n * e + m * d
    if sum = 0 then .finite (a.isNegative && b.isNegative) 0 0 else ofFraction sum (d * e)
  | _, _ =>
    match a, b with
    | .notANumber, _ | _, .notANumber => .notANumber
    | .infinite s, .infinite t => if s = t then a else .notANumber
    | .infinite _, _ => a
    | _, _ => b

def mul (a b : Binary64) : Binary64 :=
  let negative := a.isNegative != b.isNegative
  match a.fraction?, b.fraction? with
  | some (n, d), some (m, e) => roundFraction negative (n * m).natAbs (d * e)
  | _, _ =>
    match a, b with
    | .notANumber, _ | _, .notANumber => .notANumber
    | _, _ => if a.isZero || b.isZero then .notANumber else .infinite negative

/-- Division by a number that is not zero. -/
def div (a b : Binary64) : Binary64 :=
  let negative := a.isNegative != b.isNegative
  match a.fraction?, b.fraction? with
  | some (n, d), some (m, e) => roundFraction negative (n.natAbs * e) (d * m.natAbs)
  | some _, none => if b = .notANumber then .notANumber else .finite negative 0 0
  | none, some _ => if a = .notANumber then .notANumber else .infinite negative
  | none, none => .notANumber

/-- The whole part, digits behind the point dropped. -/
def truncate? (x : Binary64) : Option Int :=
  x.fraction?.map fun (num, den) => Int.tdiv num den

/-- The nearest whole number of a multiple, a tie to the even one. -/
def roundedMultiple? (x : Binary64) (factor : Nat) : Option Int :=
  x.fraction?.map fun (num, den) =>
    let rounded : Int := roundQuotient (num.natAbs * factor) den
    if num < 0 then -rounded else rounded

/-- The nearest whole number of hundredths of the size of a finite number. -/
def hundredths? : Binary64 → Option Nat
  | .finite _ significand exponent =>
    let (num, den) := magnitude significand exponent
    some (roundQuotient (num * 100) den)
  | _ => none

end Binary64

end Localize
