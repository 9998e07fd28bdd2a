import Localize.Volume.Path
import Localize.Volume.Tree

/-!
# Volumes

The working folder with everything below it, and what the medium will do to the next writes. A file
is replaced in three steps: a new file with a temporary name is made in the target's folder, it is
written, and it takes the place of the target. A write that fails leaves the target as it was and no
temporary file.
-/

namespace Localize

/-- The step of a write that the medium refuses. -/
inductive Refusal where
  | makingTemporary
  | writingData
  | takingPlace
  deriving DecidableEq, Repr

/-- A folder tree, and for each coming write the step that will be refused, if any. -/
structure Volume where
  entries : Entries
  refusals : List (Option Refusal)

/-- Why a file could not be replaced. -/
inductive WriteFault where
  | notPrepared
  | notWritten
  deriving DecidableEq, Repr

namespace Volume

/-- A volume that refuses nothing. -/
def ofEntries (entries : Entries) : Volume := ⟨entries, []⟩

def place (v : Volume) (p : Path) : Place :=
  match p.names? with
  | some names => v.entries.place names
  | none => .missing

def has (v : Volume) (p : Path) : Bool :=
  match v.place p with
  | .file _ | .folder _ => true
  | .missing | .throughFile => false

def isFile (v : Volume) (p : Path) : Bool :=
  match v.place p with
  | .file _ => true
  | _ => false

def isFolder (v : Volume) (p : Path) : Bool :=
  match v.place p with
  | .folder _ => true
  | _ => false

/-- Makes a folder and those above it, if no file is in the way. -/
def makeFolder? (v : Volume) (p : Path) : Option Volume := do
  let names ← p.names?
  let entries ← v.entries.makeFolders? names
  return { v with entries }

/-- The temporary name for a target: hidden, with a number that is not taken. -/
def temporaryName (folder : Entries) (stem : Text) : Text :=
  go folder.length 0
where
  candidate (n : Nat) : Text :=
    '.' :: stem ++ '_' :: Text.ofNat n ++ ".json.tmp".toList
  go : Nat → Nat → Text
    | 0, n => candidate n
    | fuel + 1, n => if Table.has folder (candidate n) then go fuel (n + 1) else candidate n

/-- Replaces a file by a text in a folder made where needed. -/
def replaceFile (v : Volume) (p : Path) (document : Text) : Except WriteFault Unit × Volume :=
  let refusal := v.refusals.headD none
  let v := { v with refusals := v.refusals.tail }
  match p.names?, p.parent.names? with
  | some target, some above =>
    match v.entries.makeFolders? above with
    | none => (.error .notPrepared, v)
    | some entries =>
      if refusal = some .makingTemporary then (.error .notPrepared, { v with entries })
      else
        let folder := match entries.place above with
          | .folder inner => inner
          | _ => []
        let temporary := above ++ [temporaryName folder p.stem]
        let written := entries.putFile temporary (.text document)
        let cleared := written.remove temporary
        let blocked := match entries.place target with
          | .folder _ => true
          | _ => false
        if refusal = some .writingData || refusal = some .takingPlace || blocked then
          (.error .notWritten, { v with entries := cleared })
        else (.ok (), { v with entries := cleared.putFile target (.text document) })
  | _, _ => (.error .notPrepared, v)

end Volume

end Localize
