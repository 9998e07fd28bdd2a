import Localize.Source.Folder

/-!
# Strings of a source

A source is a page or a folder of pages. The strings of a folder are those of all its pages that can
be read; the strings of a single page are an error when it cannot be read.
-/

namespace Localize

/-- Where pages are: a text that has still to be looked at, or a path. -/
inductive Source where
  | text (given : Text)
  | path (p : Path)

namespace Source

def pageStrings (v : Volume) (s : Selection) (p : Path) : Except Failure (List Text) :=
  match read v p with
  | .error e => .error e
  | .ok page =>
    match s.strings page with
    | .ok strings => .ok strings
    | .error fault => .error fault

/-- The strings of the pages that can be read, page by page. -/
def readableStrings (v : Volume) (s : Selection) : List Path → Except Fault (List Text)
  | [] => .ok []
  | p :: rest =>
    match read v p with
    | .error _ => readableStrings v s rest
    | .ok page => do return (← s.strings page) ++ (← readableStrings v s rest)

def folderStrings (v : Volume) (s : Selection) (folder : Path) : Except Failure (List Text) :=
  match pages v folder with
  | .error e => .error e
  | .ok paths =>
    match readableStrings v s paths with
    | .ok strings => .ok (Text.sortedSet strings)
    | .error fault => .error fault

/-- A text as a path; a blank one is none. -/
def pathOf (argument : String) (given : Text) : Except Failure Path :=
  if Text.allBlank given then .error (Error.emptyArgument argument) else .ok (.ofText given)

/-- The strings of the page at a place given as a text. -/
def stringsOfPage (v : Volume) (s : Selection) (given : Text) : Except Failure (List Text) := do
  pageStrings v s (← pathOf "file_path" given)

/-- The strings of the folder at a place given as a text. -/
def stringsOfFolder (v : Volume) (s : Selection) (given : Text) : Except Failure (List Text) := do
  folderStrings v s (← pathOf "dir_path" given)

/-- The source as it was given. -/
def shown : Source → Text
  | text given => given
  | path p => p.text

/-- The path of a source; only the empty text has none. -/
def path? : Source → Option Path
  | text given => if given.isEmpty then none else some (.ofText given)
  | path p => some p

def strings (v : Volume) (s : Selection) (source : Source) : Except Failure (List Text) :=
  match source.path? with
  | none => .error (Error.emptyArgument "source_path")
  | some p =>
    if v.isFolder p then folderStrings v s p
    else if v.isFile p then pageStrings v s p
    else .error (Error.noSource source.shown)

end Source

end Localize
