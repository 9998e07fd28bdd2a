import Localize.Volume.Basic

/-!
# Listings of a volume

Everything on a volume by its path, in the order of the paths. The path of a folder ends in a slash
and has no content.
-/

namespace Localize

mutual

/-- A file or folder of the given path, with everything in it. -/
def Tree.listing (path : Text) : Tree → List (Text × Option Content)
  | .file content => [(path, some content)]
  | .folder entries => (path ++ ['/'], none) :: entriesListing (path ++ ['/']) entries

/-- Everything in a folder. -/
def entriesListing (above : Text) : List (Text × Tree) → List (Text × Option Content)
  | [] => []
  | (name, tree) :: rest => tree.listing (above ++ name) ++ entriesListing above rest

end

namespace Volume

def listing (v : Volume) : List (Text × Option Content) :=
  sortByName (entriesListing [] v.entries)

/-- What is new or changed on a volume that was once another. -/
def changesSince (v before : Volume) : List (Text × Option Content) :=
  let old := before.listing
  v.listing.filter fun p => !old.contains p

/-- The paths that are gone from a volume that was once another. -/
def removalsSince (v before : Volume) : List Text :=
  let present := v.listing.map (·.1)
  (before.listing.map (·.1)).filter fun path => !present.contains path

def content? (v : Volume) (p : Path) : Option Content :=
  match v.place p with
  | .file content => some content
  | _ => none

/-- Puts a file or, without content, an empty folder, and makes the folders above it. -/
def put (v : Volume) (p : Path) (content : Option Content) : Volume :=
  match p.names?, content with
  | some names, some content =>
    match v.entries.makeFolders? names.dropLast with
    | some entries => { v with entries := entries.putFile names content }
    | none => v
  | some names, none => { v with entries := (v.entries.makeFolders? names).getD v.entries }
  | none, _ => v

def remove (v : Volume) (p : Path) : Volume :=
  match p.names? with
  | some names => { v with entries := v.entries.remove names }
  | none => v

end Volume

end Localize
