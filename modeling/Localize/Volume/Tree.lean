import Localize.Order
import Localize.Table
import Localize.Text.Basic

/-!
# Folder trees

A file holds a text, or bytes that are not the encoding of any text. A folder holds named files and
folders. Every operation follows a list of names from the top folder; `Place` says what it finds.
-/

namespace Localize

inductive Content where
  | text (t : Text)
  | bytes (b : List UInt8)
  deriving DecidableEq, Repr

inductive Tree where
  | file (content : Content)
  | folder (entries : List (Text × Tree))
  deriving Repr

abbrev Entries := Table Text Tree

/-- What the end of a list of names is. -/
inductive Place where
  | missing
  | throughFile
  | file (content : Content)
  | folder (entries : Entries)

namespace Entries

def place : Entries → List Text → Place
  | entries, [] => .folder entries
  | entries, name :: rest =>
    match Table.find? entries name with
    | none => .missing
    | some (.file content) => if rest.isEmpty then .file content else .throughFile
    | some (.folder inner) => place inner rest

/-- Makes the folders on the way that are not there; a file on the way prevents it. -/
def makeFolders? : Entries → List Text → Option Entries
  | entries, [] => some entries
  | entries, name :: rest =>
    match Table.find? entries name with
    | none => (makeFolders? [] rest).map fun inner => Table.insert entries name (.folder inner)
    | some (.folder inner) =>
      (makeFolders? inner rest).map fun inner => Table.insert entries name (.folder inner)
    | some (.file _) => none

/-- Puts a file into a folder that is there. -/
def putFile : Entries → List Text → Content → Entries
  | entries, [], _ => entries
  | entries, [name], content => Table.insert entries name (.file content)
  | entries, name :: next :: rest, content =>
    match Table.find? entries name with
    | some (.folder inner) =>
      Table.insert entries name (.folder (putFile inner (next :: rest) content))
    | _ => entries

def remove : Entries → List Text → Entries
  | entries, [] => entries
  | entries, [name] => Table.erase entries name
  | entries, name :: next :: rest =>
    match Table.find? entries name with
    | some (.folder inner) => Table.insert entries name (.folder (remove inner (next :: rest)))
    | _ => entries

end Entries

/-- Entries in the order of their names. -/
def sortByName {α : Type} (entries : List (Text × α)) : List (Text × α) :=
  sortBy (fun e f => Text.before e.1 f.1) entries

end Localize
