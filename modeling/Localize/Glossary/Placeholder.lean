import Localize.Json.Basic
import Localize.Order
import Localize.Text.Search
import Localize.Text.Slice
import Localize.Text.Word

/-!
# Placeholders

A stretch of a text that is to stay as it is gives way to a numbered token while the text is
translated. Of overlapping stretches those further right come first, at the same place the longest;
they are replaced from the right, so that the places of the others stay valid.
-/

namespace Localize

/-- A stretch of a text: where it begins and what it holds. -/
structure Span where
  start : Int
  text : Text
  deriving DecidableEq, Repr

namespace Span

def stop (s : Span) : Int := s.start + s.text.length

/-- Further right, or longer at the same place. -/
def precedes (s t : Span) : Bool :=
  t.start < s.start || (s.start = t.start && t.text.length < s.text.length)

/-- Drops the spans that reach over the beginning of the last one kept. -/
def keepDisjoint : Option Int → List Span → List Span
  | _, [] => []
  | boundary, s :: rest =>
    if boundary.any fun b => b < s.stop then keepDisjoint boundary rest
    else s :: keepDisjoint (some s.start) rest

/-- The spans to replace, from the right to the left. -/
def select (spans : List Span) : List Span := keepDisjoint none (sortBy precedes spans)

end Span

namespace Placeholder

def opening : Text := "__GLOSSARY_".toList

def closing : Text := "__".toList

def token (n : Nat) : Text := opening ++ Text.ofNat n ++ closing

/-- Puts a token in place of a span. -/
def splice (t : Text) (s : Span) (token : Text) : Text :=
  Text.takeTo s.start t ++ token ++ Text.dropTo s.stop t

/-- A text with tokens, the spans they stand for, and the next number. -/
structure Protected where
  text : Text
  replaced : List (Text × Span)
  next : Nat

/-- Puts tokens in place of spans, counting up from a number. -/
def spliceAll (t : Text) (next : Nat) : List Span → Protected
  | [] => ⟨t, [], next⟩
  | s :: rest =>
    let result := spliceAll (splice t s (token next)) (next + 1) rest
    { result with replaced := (token next, s) :: result.replaced }

/-- Puts tokens in place of the spans selected. -/
def protect (t : Text) (spans : List Span) (next : Nat) : Protected :=
  spliceAll t next (Span.select spans)

def tokenLength? (t : Text) : Option Nat := do
  let behind ← Text.afterStart? opening t
  let digits := behind.takeWhile Text.isDigit
  let rest := behind.drop digits.length
  if digits.isEmpty || !Text.startsWith closing rest then none
  else some (opening.length + digits.length + closing.length)

def tokensIn (t : Text) : List Text :=
  Text.sortedSet <|
    (Text.scan (fun _ rest => (tokenLength? rest).map fun n => (rest.take n, n)) t).map (·.value)

/-- Puts the final texts in place of their tokens, one token after another. -/
def restore (t : Text) (finals : List (Text × Text)) : Text :=
  finals.foldl (fun t p => Text.replaceAll p.1 p.2 t) t

end Placeholder

end Localize
