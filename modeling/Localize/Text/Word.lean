import Localize.Text.Basic
import Localize.Text.WordTable

/-!
# Word characters and decimal digits

A word character is a letter, a number or the underscore, in any script. A word boundary lies
between a word character and anything else, the ends of the text included. Decimal digits of every
script have a value from 0 to 9.
-/

namespace Localize.Text

def inRanges (ranges : List (Nat × Nat)) (n : Nat) : Bool :=
  ranges.any fun r => r.1 ≤ n && n ≤ r.2

/-- A letter, a digit or the hyphen of the first 128 characters. -/
def isNameChar (c : Char) : Bool := c.isAlphanum || c = '-'

/-- A letter, a number or the underscore. -/
def isWord (c : Char) : Bool :=
  if c.toNat < 128 then c.isAlphanum || c = '_' else inRanges wordRanges c.toNat

/-- The value of a decimal digit of any script. -/
def digitValue? (c : Char) : Option Nat :=
  if c.toNat < 128 then
    if c.isDigit then some (c.toNat - '0'.toNat) else none
  else
    (digitZeros.find? fun z => z ≤ c.toNat && c.toNat < z + 10).map (c.toNat - ·)

def isDigit (c : Char) : Bool := (digitValue? c).isSome

/-- Whether the place between two neighbours, or an end of the text, is a word boundary. -/
def isBoundary (left right : Option Char) : Bool :=
  left.any isWord != right.any isWord

end Localize.Text
