import Localize.Pattern.Basic
import Localize.Table

/-!
# Matching

A match is searched by trying the choices of a pattern in their order and going back to the last
choice when what follows fails. `Pattern.run` takes what follows as a function, so it recurses on
the pattern alone; a repetition is bounded by the length of the rest, because after its least count
it goes on only while it consumes characters.
-/

namespace Localize.Pattern

/-- A place in a text: the characters before it, nearest first, those after it, and what the groups
have captured. -/
structure Spot where
  before : Text
  rest : Text
  captures : Table Nat Text

/-- What follows a pattern. -/
abbrev Follow := Spot → Option Spot

namespace Spot

def ofText (t : Text) : Spot := ⟨[], t, []⟩

/-- One character on. -/
def next? (s : Spot) : Option (Char × Spot) :=
  match s.rest with
  | [] => none
  | c :: rest => some (c, { s with before := c :: s.before, rest })

/-- Back by a number of characters. -/
def back? : Nat → Spot → Option Spot
  | 0, s => some s
  | n + 1, s =>
    match s.before with
    | [] => none
    | c :: before => back? n { s with before, rest := c :: s.rest }

/-- The characters from one place to a later one. -/
def reach (s later : Spot) : Text := s.rest.take (s.rest.length - later.rest.length)

end Spot

def SetItem.holds (item : SetItem) (ignoreCase : Bool) (c : Char) : Bool :=
  match item with
  | .range first last =>
    if ignoreCase then
      (Text.letterVariants c).any fun d => first ≤ d.toNat && d.toNat ≤ last
    else first ≤ c.toNat && c.toNat ≤ last
  | .category kind negated => kind.holds c != negated

/-- A run of given characters. -/
def readText? (ignoreCase : Bool) : Text → Spot → Option Spot
  | [], s => some s
  | c :: cs, s =>
    match s.next? with
    | none => none
    | some (d, s) =>
      if c = d || (ignoreCase && Text.sameLetter c d) then readText? ignoreCase cs s else none

/-- Repeats a matcher; `count` times it has matched, the last time without consuming anything when
`stuck`. -/
def runMany (body : Follow → Follow) (least : Nat) (most : Option Nat) (lazy : Bool)
    (follow : Follow) :
    (fuel count : Nat) → (stuck : Bool) → Follow
  | 0, _, _, s => follow s
  | fuel + 1, count, stuck, s =>
    let onward (_ : Unit) : Option Spot :=
      body (fun s' =>
        runMany body least most lazy follow fuel (count + 1) (s'.rest.length = s.rest.length) s') s
    if count < least then onward ()
    else if stuck || most.any (· ≤ count) then follow s
    else if lazy then (follow s).or (onward ())
    else (onward ()).or (follow s)

/-- Matches a pattern at a place and goes on with what follows. -/
def run : Pattern → Follow → Follow
  | .nothing, follow, s => follow s
  | .char c ignoreCase, follow, s => (readText? ignoreCase [c] s).bind follow
  | .anyChar acrossLines, follow, s =>
    match s.next? with
    | some (c, s) => if acrossLines || c ≠ '\n' then follow s else none
    | none => none
  | .oneOf negated items ignoreCase, follow, s =>
    match s.next? with
    | some (c, s) => if items.any (·.holds ignoreCase c) != negated then follow s else none
    | none => none
  | .lineStart, follow, s => if s.before.head?.all (· = '\n') then follow s else none
  | .textStart, follow, s => if s.before.isEmpty then follow s else none
  | .lineEnd, follow, s => if s.rest.head?.all (· = '\n') then follow s else none
  | .lastLineEnd, follow, s => if s.rest.isEmpty || s.rest = ['\n'] then follow s else none
  | .textEnd, follow, s => if s.rest.isEmpty then follow s else none
  | .boundary negated, follow, s =>
    if Text.isBoundary s.before.head? s.rest.head? != negated then follow s else none
  | .capture index p, follow, s =>
    run p (fun s' => follow { s' with captures := Table.insert s'.captures index (s.reach s') }) s
  | .enclosed p, follow, s => run p follow s
  | .again index ignoreCase, follow, s =>
    match Table.find? s.captures index with
    | some t => (readText? ignoreCase t s).bind follow
    | none => none
  | .seq p q, follow, s => run p (run q follow) s
  | .alt p q, follow, s => (run p follow s).or (run q follow s)
  | .many least most greed p, follow, s =>
    let fuel := least + s.rest.length + 1
    match greed with
    | .most => runMany (run p) least most false follow fuel 0 false s
    | .least => runMany (run p) least most true follow fuel 0 false s
    | .keeping => (runMany (run p) least most false some fuel 0 false s).bind follow
  | .ahead negated p, follow, s =>
    match run p some s with
    | some s' => if negated then none else follow { s with captures := s'.captures }
    | none => if negated then follow s else none
  | .behind negated width p, follow, s =>
    match (s.back? width).bind (run p some) with
    | some s' => if negated then none else follow { s with captures := s'.captures }
    | none => if negated then follow s else none
  | .whole p, follow, s => (run p some s).bind follow
  | .ifCaptured index p q, follow, s =>
    if Table.has s.captures index then run p follow s else run q follow s

/-- A match at a place, told by what was matched and by the captures. -/
def matchAt? (p : Pattern) (s : Spot) (accept : Spot → Bool) : Option Spot :=
  run p (fun s' => if accept s' then some s' else none) { s with captures := [] }

/-- The places from one on where a match begins, at most `fuel` characters on, with its end. -/
def firstFrom? (p : Pattern) (accept : Spot → Spot → Bool) : Nat → Spot → Option (Spot × Spot)
  | 0, s => (matchAt? p s (accept s)).map (s, ·)
  | fuel + 1, s =>
    match matchAt? p s (accept s) with
    | some s' => some (s, s')
    | none =>
      match s.next? with
      | some (_, s) => firstFrom? p accept fuel s
      | none => none

def occursIn (p : Pattern) (t : Text) : Bool :=
  (firstFrom? p (fun _ _ => true) t.length (.ofText t)).isSome

/-- All matches from a place on, each beginning where the one before ended or later; a match at the
place where one of no length has just been found has to consume something. -/
def matchesFrom (p : Pattern) : (fuel : Nat) → (stuck : Bool) → Spot → List (Spot × Spot)
  | 0, _, _ => []
  | fuel + 1, stuck, s =>
    let moves (first later : Spot) : Bool :=
      !stuck || first.rest.length ≠ s.rest.length || later.rest.length ≠ first.rest.length
    match firstFrom? p moves s.rest.length s with
    | none => []
    | some (first, later) =>
      (first, later) :: matchesFrom p fuel (later.rest.length = first.rest.length) later

/-- All matches in a text from left to right, none overlapping another. -/
def allMatches (p : Pattern) (t : Text) : List (Spot × Spot) :=
  matchesFrom p (2 * t.length + 2) false (.ofText t)

end Localize.Pattern
