import Localize.Text.Blank
import Localize.Text.Case

/-!
# Search patterns

The patterns with which a user names strings: regular expressions with groups, back references,
look-around and counted repetition. `width?` is the length of everything a pattern matches when that
is one length, as looking behind needs.
-/

namespace Localize

namespace Pattern

/-- A class of characters with a name of its own. -/
inductive Category where
  | digit
  | blank
  | word
  deriving DecidableEq, Repr

def Category.holds (kind : Category) (c : Char) : Bool :=
  match kind with
  | .digit => Text.isDigit c
  | .blank => Text.isBlank c
  | .word => Text.isWord c

inductive SetItem where
  | range (first last : Nat)
  | category (kind : Category) (negated : Bool)
  deriving DecidableEq, Repr

/-- How a repetition chooses its count: as many as possible, as few as possible, or as many as
possible without ever giving one back. -/
inductive Greed where
  | most
  | least
  | keeping
  deriving DecidableEq, Repr

end Pattern

open Pattern in
inductive Pattern where
  | nothing
  | char (c : Char) (ignoreCase : Bool)
  | anyChar (acrossLines : Bool)
  | oneOf (negated : Bool) (items : List SetItem) (ignoreCase : Bool)
  | lineStart
  | textStart
  | lineEnd
  | lastLineEnd
  | textEnd
  | boundary (negated : Bool)
  | capture (index : Nat) (p : Pattern)
  | enclosed (p : Pattern)
  | again (index : Nat) (ignoreCase : Bool)
  | seq (p q : Pattern)
  | alt (p q : Pattern)
  | many (least : Nat) (most : Option Nat) (greed : Greed) (p : Pattern)
  | ahead (negated : Bool) (p : Pattern)
  | behind (negated : Bool) (width : Nat) (p : Pattern)
  | whole (p : Pattern)
  | ifCaptured (index : Nat) (p q : Pattern)
  deriving Repr

namespace Pattern

/-- Items one after another. -/
def ofList : List Pattern → Pattern
  | [] => .nothing
  | [p] => p
  | p :: rest => .seq p (ofList rest)

/-- A pattern for a place rather than for characters. -/
def isPlace : Pattern → Bool
  | .lineStart | .textStart | .lineEnd | .lastLineEnd | .textEnd | .boundary _ => true
  | _ => false

def isMany : Pattern → Bool
  | .many _ _ _ _ => true
  | _ => false

/-- The one length of all matches. -/
def width? : Pattern → Option Nat
  | .nothing | .lineStart | .textStart | .lineEnd | .lastLineEnd | .textEnd | .boundary _
  | .ahead _ _ | .behind _ _ _ => some 0
  | .char _ _ | .anyChar _ | .oneOf _ _ _ => some 1
  | .capture _ p | .enclosed p | .whole p => width? p
  | .again _ _ => none
  | .seq p q => do return (← width? p) + (← width? q)
  | .alt p q | .ifCaptured _ p q => do
    let n ← width? p
    let m ← width? q
    if n = m then some n else none
  | .many least most _ p => do
    let n ← width? p
    if n = 0 || most = some least then some (n * least) else none

end Pattern

end Localize
