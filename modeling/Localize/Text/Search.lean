import Localize.Text.Basic

/-!
# Searching

Occurrences of one text in another, and left-to-right scans. A scan asks a matcher at every place
for a match that begins there, tells it the character before the place, and goes on behind the end
of a match it found; so the matches of a scan never overlap.
-/

namespace Localize.Text

/-- The rest behind a given beginning, if the text begins so. -/
def afterStart? : Text → Text → Option Text
  | [], rest => some rest
  | _ :: _, [] => none
  | a :: as, b :: bs => if a = b then afterStart? as bs else none

def startsWith (start t : Text) : Bool := (afterStart? start t).isSome

/-- The text before the first occurrence and the text behind it. -/
def cutAt? (part : Text) : Text → Option (Text × Text)
  | [] => if part.isEmpty then some ([], []) else none
  | c :: rest =>
    match afterStart? part (c :: rest) with
    | some behind => some ([], behind)
    | none => (cutAt? part rest).map fun (before, behind) => (c :: before, behind)

def occursIn (part t : Text) : Bool := (cutAt? part t).isSome

/-- A match of a scan: where it begins, how long it is, and what was read from it. -/
structure Found (α : Type) where
  start : Nat
  length : Nat
  value : α
  deriving Repr, DecidableEq

/-- Reads a value at the beginning of a text, given the character before it, with the length
read. -/
abbrev Matcher (α : Type) := Option Char → Text → Option (α × Nat)

/-- The matches from position `pos` on, the next `skip` characters belonging to an earlier match. -/
def scanFrom {α : Type} (matcher : Matcher α) : Option Char → Nat → Nat → Text → List (Found α)
  | before, pos, 0, [] =>
    match matcher before [] with
    | some (value, length) => [⟨pos, length, value⟩]
    | none => []
  | _, _, _ + 1, [] => []
  | _, pos, skip + 1, c :: rest => scanFrom matcher (some c) (pos + 1) skip rest
  | before, pos, 0, c :: rest =>
    match matcher before (c :: rest) with
    | some (value, length) =>
      ⟨pos, length, value⟩ :: scanFrom matcher (some c) (pos + 1) (length - 1) rest
    | none => scanFrom matcher (some c) (pos + 1) 0 rest

def scan {α : Type} (matcher : Matcher α) (t : Text) : List (Found α) :=
  scanFrom matcher none 0 0 t

/-- The value of the first match in a text. -/
def firstMatch? {α : Type} (matcher : Text → Option α) : Text → Option α
  | [] => matcher []
  | c :: rest =>
    match matcher (c :: rest) with
    | some value => some value
    | none => firstMatch? matcher rest

/-- Leaves out from the left every stretch of the length found where it begins, a length of zero
being no stretch; the next `skip` characters belong to a stretch already found. -/
def eraseFrom (lengthAt : Text → Nat) : Nat → Text → Text
  | _, [] => []
  | skip + 1, _ :: rest => eraseFrom lengthAt skip rest
  | 0, c :: rest =>
    match lengthAt (c :: rest) with
    | 0 => c :: eraseFrom lengthAt 0 rest
    | length + 1 => eraseFrom lengthAt length rest

/-- The parts between such stretches. -/
def splitFrom (lengthAt : Text → Nat) : Nat → Text → List Text
  | _, [] => [[]]
  | skip + 1, _ :: rest => splitFrom lengthAt skip rest
  | 0, c :: rest =>
    match lengthAt (c :: rest) with
    | 0 =>
      match splitFrom lengthAt 0 rest with
      | [] => [[c]]
      | part :: parts => (c :: part) :: parts
    | length + 1 => [] :: splitFrom lengthAt length rest

/-- Replaces from the left every occurrence of a text that is not empty, the next `skip` characters
belonging to an occurrence already replaced. -/
def replaceFrom (part new : Text) : Nat → Text → Text
  | _, [] => []
  | skip + 1, _ :: rest => replaceFrom part new skip rest
  | 0, c :: rest =>
    if startsWith part (c :: rest) then new ++ replaceFrom part new (part.length - 1) rest
    else c :: replaceFrom part new 0 rest

/-- Replaces every occurrence; the empty text occurs before every character and at the end. -/
def replaceAll (part new t : Text) : Text :=
  if part.isEmpty then new ++ t.flatMap fun c => c :: new else replaceFrom part new 0 t

def replaceFirst (part new t : Text) : Text :=
  match cutAt? part t with
  | some (before, behind) => before ++ new ++ behind
  | none => t

end Localize.Text
