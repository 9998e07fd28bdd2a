import Localize.Source.Page

/-!
# Folders of pages

The pages below a folder, in the order of their paths name by name. Folders of dependencies and
folders whose name begins with a dot are passed over, the folder asked for itself excepted.
-/

namespace Localize.Source

/-- Whether a folder below is passed over. -/
def isPassedOver (name : Text) : Bool :=
  name = "node_modules".toList || name.head? = some '.'

/-- Lists by name, joined in the order of the names. -/
def inOrder {α : Type} (lists : List (Text × List α)) : List α := (sortByName lists).flatMap (·.2)

mutual

/-- The pages of an entry with its path. -/
def pagesOf (path : Path) : Tree → List Path
  | .file _ => if isPage path then [path] else []
  | .folder entries => if isPassedOver path.name then [] else inOrder (pagesByName path entries)

/-- The pages of every entry of a folder, by the name of the entry. -/
def pagesByName (above : Path) : List (Text × Tree) → List (Text × List Path)
  | [] => []
  | (name, tree) :: rest => (name, pagesOf (above.child name) tree) :: pagesByName above rest

end

/-- The pages below a folder. -/
def pages (v : Volume) (folder : Path) : Except Error (List Path) :=
  match v.place folder with
  | .folder entries => .ok (inOrder (pagesByName folder entries))
  | _ => .error (.folderUnreadable folder)

end Localize.Source
