import Localize.Json.Basic

/-!
# Counting with values of documents

Counters and limits that come from a document may be whole or double precision numbers, and a truth
value counts as zero or one. Whole numbers stay whole until they meet a double precision number.
-/

namespace Localize

/-- A number of a document. -/
inductive Quantity where
  | whole (i : Int)
  | real (x : Binary64)
  deriving DecidableEq, Repr

namespace Quantity

def toJson : Quantity → Json
  | whole i => .int i
  | real x => .float x

/-- Numerator and denominator of a finite quantity. -/
def fraction? : Quantity → Option (Int × Nat)
  | whole i => some (i, 1)
  | real x => x.fraction?

/-- As a double precision number; a whole number may be too large for one. -/
def toReal? : Quantity → Option Binary64
  | whole i =>
    match Binary64.ofInt i with
    | .finite negative significand exponent => some (.finite negative significand exponent)
    | _ => none
  | real x => some x

def add? : Quantity → Quantity → Option Quantity
  | whole i, whole j => some (whole (i + j))
  | a, b => do return real ((← a.toReal?).add (← b.toReal?))

/-- Division by a quantity that is not zero. -/
def divide? : Quantity → Quantity → Option Binary64
  | whole i, whole j =>
    match Binary64.ofFraction (if j < 0 then -i else i) j.natAbs with
    | .finite negative significand exponent => some (.finite negative significand exponent)
    | _ => none
  | a, b => do return (← a.toReal?).div (← b.toReal?)

/-- Whether a quantity is less than another; nothing is less or greater than what is no number. -/
def less (a b : Quantity) : Bool :=
  match a.fraction?, b.fraction? with
  | some (n, d), some (m, e) => n * e < m * d
  | some _, none => b = real (.infinite false)
  | none, some _ => a = real (.infinite true)
  | none, none => a = real (.infinite true) && b = real (.infinite false)

/-- Whether a quantity is a multiple of a whole number that is not zero. -/
def isMultipleOf (a : Quantity) (step : Int) : Bool :=
  match a.fraction? with
  | some (n, d) => n % (d * step) = 0
  | none => false

end Quantity

namespace Json

/-- The number that a value counts as. -/
def quantity? : Json → Option Quantity
  | .int i => some (.whole i)
  | .float x => some (.real x)
  | .bool b => some (.whole (if b then 1 else 0))
  | _ => none

/-- The order of numbers and the order of texts; values of other types have none. -/
def less? (a b : Json) : Option Bool :=
  match a.quantity?, b.quantity? with
  | some x, some y => some (x.less y)
  | _, _ =>
    match a, b with
    | .str s, .str t => some (Text.before s t)
    | _, _ => none

end Json

end Localize
