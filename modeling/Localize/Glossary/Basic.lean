import Localize.Calendar
import Localize.Glossary.Entry
import Localize.Volume.Document

/-!
# The glossary

Terms in the order in which they were added. A glossary with a path is written to its file after
every change; one without lives in memory only.
-/

namespace Localize

open Glossary

/-- Terms by key, and the file they are kept in. -/
structure Glossary where
  path : Option Path
  terms : Table Json Entry
  header : Fields

namespace Glossary

def formatVersion : Json := Json.lit "1.0.0"

def empty (path : Option Path) : Glossary :=
  ⟨path, [], Json.record [("version", formatVersion), ("created", .null), ("lastModified", .null)]⟩

def setHeader (g : Glossary) (name : String) (value : Json) : Glossary :=
  { g with header := Table.insert g.header name.toList value }

/-! ### The file -/

def document (g : Glossary) (now : Nat) : Json :=
  .obj (Json.record [
    ("metadata", .obj (Table.insert g.header "lastModified".toList (.nat now))),
    ("terms", .arr (g.terms.values.map Entry.toJson))])

def save (g : Glossary) (now : Nat) (v : Volume) : Except Failure Unit × Volume :=
  match g.path with
  | none => (.ok (), v)
  | some path =>
    match v.writeJson path (g.document now) with
    | (.ok (), v) => (.ok (), v)
    | (.error e, v) => (.error e, v)

def saved {α : Type} (g : Glossary) (now : Nat) (v : Volume) (result : α) :
    Except Failure α × Glossary × Volume :=
  match g.save now v with
  | (.ok (), v) => (.ok result, g, v)
  | (.error failure, v) => (.error failure, g, v)

/-- What is reported of an item of the file that has no reading. -/
def itemFailure (path : Path) : Fault → Failure
  | .noField name => Error.malformedItem .glossary path (some name)
  | .wrongType | .noMember => Error.malformedItem .glossary path none
  | fault => fault

def addItems (g : Glossary) (path : Path) (now : Nat) : List Json → Except Failure Unit × Glossary
  | [] => (.ok (), g)
  | item :: rest =>
    match (do let e ← Entry.ofValue now item; return (← e.key, e)) with
    | .error fault => (.error (itemFailure path fault), g)
    | .ok (key, e) => addItems { g with terms := Table.insert g.terms key e } path now rest

def addDocument (g : Glossary) (path : Path) (now : Nat) (fields : Fields) :
    Except Failure Unit × Glossary :=
  match Json.overlay g.header (Table.find? fields "metadata".toList) with
  | .error fault => (.error fault, g)
  | .ok header =>
    let g := { g with header }
    match Json.elementsOrNone (Table.find? fields "terms".toList) with
    | .error fault => (.error (itemFailure path fault), g)
    | .ok items => g.addItems path now items

/-- Reads the file; a glossary that has none writes its first. -/
def load (g : Glossary) (now : Nat) (v : Volume) : Except Failure Unit × Glossary × Volume :=
  match g.path with
  | none => (.ok (), g, v)
  | some path =>
    match v.readJson path with
    | .error failure => (.error failure, g, v)
    | .ok none => (g.setHeader "created" (.nat now)).saved now v ()
    | .ok (some (.obj fields)) =>
      let (result, g) := g.addDocument path now fields
      (result, g, v)
    | .ok (some _) => (.error (Error.storeNotObject .glossary path), g, v)

/-- Makes the folder of the file and reads the file. -/
def start (g : Glossary) (now : Nat) (v : Volume) : Except Failure Unit × Glossary × Volume :=
  match g.path with
  | none => (.ok (), g, v)
  | some path =>
    match v.makeFolder? path.parent with
    | none => (.error (Error.folderNotMade .glossary path.parent), g, v)
    | some v => g.load now v

/-! ### Terms -/

def get? (g : Glossary) (caseSensitive : Bool) (term : Json) : Except Fault (Option Entry) := do
  return Table.find? g.terms (← keyOf caseSensitive term)

/-- Adds a term in place of the one under the same key. -/
def add (g : Glossary) (now : Nat) (v : Volume) (draft : Draft) :
    Except Failure Entry × Glossary × Volume :=
  match draft.entry now with
  | .error failure => (.error failure, g, v)
  | .ok e =>
    match e.key with
    | .error fault => (.error fault, g, v)
    | .ok key =>
      let g := { g with terms := Table.insert g.terms key e }
      (g.setHeader "lastModified" (.nat now)).saved now v e

/-- Changes a term, if it is there. -/
def update (g : Glossary) (now : Nat) (v : Volume) (caseSensitive : Bool) (term : Json)
    (revision : Revision) : Except Failure Bool × Glossary × Volume :=
  match keyOf caseSensitive term with
  | .error fault => (.error fault, g, v)
  | .ok key =>
    match Table.find? g.terms key with
    | none => (.ok false, g, v)
    | some e =>
      let g := { g with terms := Table.insert g.terms key (revision.apply now e) }
      (g.setHeader "lastModified" (.nat now)).saved now v true

def delete (g : Glossary) (now : Nat) (v : Volume) (caseSensitive : Bool) (term : Json) :
    Except Failure Bool × Glossary × Volume :=
  match keyOf caseSensitive term with
  | .error fault => (.error fault, g, v)
  | .ok key =>
    if Table.has g.terms key then
      let g := { g with terms := Table.erase g.terms key }
      (g.setHeader "lastModified" (.nat now)).saved now v true
    else (.ok false, g, v)

def clear (g : Glossary) (now : Nat) (v : Volume) : Except Failure Unit × Glossary × Volume :=
  ({ g with terms := [] }.setHeader "lastModified" (.nat now)).saved now v ()

/-- Adds terms that are not to be translated, leaving out what is blank. -/
def addUntranslated (g : Glossary) (now : Nat) (v : Volume) :
    List Json → Except Failure Unit × Glossary × Volume
  | [] => (.ok (), g, v)
  | .str term :: rest =>
    if Text.allBlank term then addUntranslated g now v rest
    else
      match g.add now v { term := .str term, doNotTranslate := .bool true } with
      | (.error failure, g, v) => (.error failure, g, v)
      | (.ok _, g, v) => addUntranslated g now v rest
  | _ :: rest => addUntranslated g now v rest

def ofCategory (g : Glossary) (category : Json) : List Entry :=
  g.terms.values.filter fun e => e.category = category

def countCategory (counts : Fields) (e : Entry) : Except Fault Fields :=
  if e.category.canName then
    let name := e.category.fieldName
    let before := match Table.find? counts name with
      | some (.int n) => n
      | _ => 0
    .ok (Table.insert counts name (.int (before + 1)))
  else .error .wrongType

/-- How many terms there are: in all, by category, untranslated and with translations. -/
def stats (g : Glossary) : Except Fault Json := do
  let terms := g.terms.values
  let categories ← terms.foldlM countCategory []
  return .obj (Json.record [("total", .nat terms.length), ("by_category", .obj categories),
    ("do_not_translate", .nat (terms.countP (·.doNotTranslate))),
    ("with_translations", .nat (terms.countP fun e => !e.translations.isEmpty))])

/-! ### Exchange -/

def exportDocument (g : Glossary) (now : Nat) : Json :=
  .obj (Json.record [
    ("version", (Table.find? g.header "version".toList).getD formatVersion),
    ("exportedAt", .str (Calendar.timestamp now)), ("totalTerms", .nat g.terms.length),
    ("terms", .arr (g.terms.values.map Entry.toJson))])

/-- Writes the document for other programs; gives the number of terms. -/
def exportTo (g : Glossary) (now : Nat) (v : Volume) (target : Text) :
    Except Failure Nat × Volume :=
  match v.writeJson (.ofText target) (g.exportDocument now) with
  | (.ok (), v) => (.ok g.terms.length, v)
  | (.error e, v) => (.error e, v)

/-- What an item of a foreign document asks to add; nothing for an item without a term. -/
def Draft.ofItem? (item : Json) : Option Draft :=
  let get (name : String) (missing : Json) : Json := (item.field? name.toList).getD missing
  if (get "term" .null).isSomething then some {
    term := get "term" .null
    translations := get "translations" .null
    category := get "category" .null
    description := get "description" (.str [])
    caseSensitive := get "caseSensitive" (.bool true)
    doNotTranslate := get "doNotTranslate" (.bool false)
    context := get "context" (.str []) }
  else none

def importItems (g : Glossary) (now : Nat) (v : Volume) (count : Nat) :
    List Json → Except Failure Nat × Glossary × Volume
  | [] => (.ok count, g, v)
  | item :: rest =>
    match Draft.ofItem? item with
    | none => importItems g now v count rest
    | some draft =>
      match g.add now v draft with
      | (.error failure, g, v) => (.error failure, g, v)
      | (.ok _, g, v) => importItems g now v (count + 1) rest

/-- Reads a document of another glossary; gives the number of terms added. -/
def importFrom (g : Glossary) (now : Nat) (v : Volume) (origin : Text) :
    Except Failure Nat × Glossary × Volume :=
  match v.readJson (.ofText origin) with
  | .error failure => (.error failure, g, v)
  | .ok none => (.error (Error.importMissing .glossary origin), g, v)
  | .ok (some document) =>
    match Json.elementsOrNone (document.field? "terms".toList) with
    | .error fault => (.error fault, g, v)
    | .ok items => g.importItems now v 0 items

end Glossary

end Localize
