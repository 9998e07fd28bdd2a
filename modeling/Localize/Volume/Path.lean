import Localize.Text.Basic

/-!
# Paths

A path is the list of names between its slashes. Empty names and single dots are dropped when a path
is read; a double dot is kept and means the folder above only when the path is followed.
-/

namespace Localize

/-- A path, from the working folder unless it is rooted. -/
structure Path where
  rooted : Bool
  parts : List Text
  deriving DecidableEq, Repr

namespace Path

def ofText (t : Text) : Path :=
  ⟨t.head? = some '/', (Text.splitOn '/' t).filter fun part => part ≠ [] && part ≠ ['.']⟩

def text (p : Path) : Text :=
  let inside := Text.join ['/'] p.parts
  if p.rooted then '/' :: inside else if p.parts.isEmpty then ['.'] else inside

/-- A path below another; a rooted one stands for itself. -/
def below (p q : Path) : Path := if q.rooted then q else ⟨p.rooted, p.parts ++ q.parts⟩

def child (p : Path) (name : Text) : Path := p.below (ofText name)

def parent (p : Path) : Path := ⟨p.rooted, p.parts.dropLast⟩

def name (p : Path) : Text := p.parts.getLast?.getD []

/-- The characters behind the last dot of a name, if something stands on both sides of the dot. -/
def extension? (name : Text) : Option Text :=
  let behind := (name.reverse.takeWhile (· ≠ '.')).reverse
  if behind.isEmpty || name.length ≤ behind.length + 1 then none else some behind

/-- The extension with its dot; empty when there is none. -/
def suffix (p : Path) : Text :=
  match extension? p.name with
  | some e => '.' :: e
  | none => []

/-- The name without its extension. -/
def stem (p : Path) : Text := p.name.take (p.name.length - p.suffix.length)

/-- The names to follow from the working folder, double dots resolved; none when the path leads out
of it. -/
def names? (p : Path) : Option (List Text) :=
  if p.rooted then none else go [] p.parts
where
  go : List Text → List Text → Option (List Text)
    | above, [] => some above.reverse
    | above, part :: rest =>
      if part = ['.', '.'] then
        match above with
        | [] => none
        | _ :: higher => go higher rest
      else go (part :: above) rest

end Path

end Localize
