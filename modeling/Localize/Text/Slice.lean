import Localize.Text.Basic

/-!
# Slices

A cut position below zero counts from the end, and a position outside the list is moved to the
nearer end, so every slice exists.
-/

namespace Localize.Text

/-- The place in a list of the given length that a cut position means. -/
def cutPlace (length : Nat) (cut : Int) : Nat :=
  if cut < 0 then (cut + length).toNat else min cut.toNat length

/-- The part before a cut position. -/
def takeTo {α : Type} (cut : Int) (items : List α) : List α :=
  items.take (cutPlace items.length cut)

/-- The part from a cut position on. -/
def dropTo {α : Type} (cut : Int) (items : List α) : List α :=
  items.drop (cutPlace items.length cut)

end Localize.Text
