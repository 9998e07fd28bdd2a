import Localize.Memory.Entry
import Localize.Memory.Sha256
import Localize.Volume.Document

/-!
# The translation memory

A table of entries by key, with counters, written to a file from time to time. Keys hold a digest of
the source text, so two texts may share one; an entry answers only for its own source text. The
digest is a parameter of the memory: nothing depends on which one is used.
-/

namespace Localize

open Memory

/-- Hits, misses and additions, and whatever else the file counts. -/
structure Counters where
  hits : Json
  misses : Json
  additions : Json
  others : Fields
  deriving DecidableEq, Repr

namespace Counters

def zero : Counters := ⟨.nat 0, .nat 0, .nat 0, []⟩

def fields (c : Counters) : Fields :=
  Json.record [("hits", c.hits), ("misses", c.misses), ("additions", c.additions)] ++ c.others

/-- One counter or another value by its name. -/
def set (c : Counters) (name : Text) (value : Json) : Counters :=
  if name = "hits".toList then { c with hits := value }
  else if name = "misses".toList then { c with misses := value }
  else if name = "additions".toList then { c with additions := value }
  else { c with others := Table.insert c.others name value }

/-- The counters of a file over the present ones. -/
def overlay (c : Counters) (value : Option Json) : Except Fault Counters :=
  match value with
  | none => .ok c
  | some (.obj counts) => .ok (counts.foldl (fun c f => c.set f.1 f.2) c)
  | some v => if v.isSomething then .error .wrongType else .ok c

/-- One more than a counter. -/
def next (counter : Json) : Except Fault Json :=
  match counter.quantity? with
  | none => .error .wrongType
  | some q =>
    match q.add? (.whole 1) with
    | some sum => .ok sum.toJson
    | none => .error .tooLarge

end Counters

/-- A translation memory and the folder of its file. -/
structure Memory where
  folder : Path
  digest : Text → Text
  autosaveEvery : Int
  cache : Table Json Entry
  header : Fields
  counters : Counters

namespace Memory

/-- The first half of the digest's digits is enough. -/
def shortDigest (t : Text) : Text := (Sha256.hexDigest t).take 16

def formatVersion : Json := Json.lit "1.0.0"

def empty (folder : Path) (digest : Text → Text) (autosaveEvery : Int) : Memory where
  folder := folder
  digest := digest
  autosaveEvery := autosaveEvery
  cache := []
  header := Json.record [("version", formatVersion), ("created", .null), ("lastModified", .null),
    ("totalEntries", .nat 0)]
  counters := .zero

def file (m : Memory) : Path := m.folder.child "memory.json".toList

def size (m : Memory) : Nat := m.cache.length

def key (m : Memory) (d : Direction) (source : Text) : Json := .str (keyOf m.digest d source)

/-- The entry of a source text, if its key is not held by another one. -/
def entry? (m : Memory) (d : Direction) (source : Text) : Option Entry :=
  match Table.find? m.cache (m.key d source) with
  | some e => if e.sourceText = .str (Text.strip source) then some e else none
  | none => none

def setEntry (m : Memory) (d : Direction) (source : Text) (e : Entry) : Memory :=
  { m with cache := Table.insert m.cache (m.key d source) e }

def setHeader (m : Memory) (name : String) (value : Json) : Memory :=
  { m with header := Table.insert m.header name.toList value }

/-! ### The file -/

def document (m : Memory) (now : Nat) : Json :=
  let header := Table.insert (Table.insert m.header "lastModified".toList (.nat now))
    "totalEntries".toList (.nat m.size)
  .obj (Json.record [("metadata", .obj header), ("stats", .obj m.counters.fields),
    ("entries", .arr (m.cache.map fun p => p.2.toJson p.1))])

def save (m : Memory) (now : Nat) (v : Volume) : Except Failure Unit × Volume :=
  match v.writeJson m.file (m.document now) with
  | (.ok (), v) => (.ok (), v)
  | (.error e, v) => (.error e, v)

/-- What is reported of an item of the file that has no reading. -/
def itemFailure (m : Memory) : Fault → Failure
  | .noField name => Error.malformedItem .memory m.file (some name)
  | .wrongType | .noMember => Error.malformedItem .memory m.file none
  | fault => fault

def addItems (m : Memory) (now : Nat) : List Json → Except Failure Unit × Memory
  | [] => (.ok (), m)
  | item :: rest =>
    match (do let e ← Entry.ofValue now item; return (← e.keyIn m.digest item, e)) with
    | .error fault => (.error (m.itemFailure fault), m)
    | .ok (key, e) => addItems { m with cache := Table.insert m.cache key e } now rest

def addDocument (m : Memory) (now : Nat) (fields : Fields) : Except Failure Unit × Memory :=
  match Json.overlay m.header (Table.find? fields "metadata".toList) with
  | .error fault => (.error fault, m)
  | .ok header =>
    let m := { m with header }
    match m.counters.overlay (Table.find? fields "stats".toList) with
    | .error fault => (.error fault, m)
    | .ok counters =>
      let m := { m with counters }
      match Json.elementsOrNone (Table.find? fields "entries".toList) with
      | .error fault => (.error (m.itemFailure fault), m)
      | .ok items => m.addItems now items

/-- Reads the file; a memory that has none writes its first. -/
def load (m : Memory) (now : Nat) (v : Volume) : Except Failure Unit × Memory × Volume :=
  match v.readJson m.file with
  | .error failure => (.error failure, m, v)
  | .ok none =>
    let m := m.setHeader "created" (.nat now)
    let (result, v) := m.save now v
    (result, m, v)
  | .ok (some (.obj fields)) =>
    let (result, m) := m.addDocument now fields
    (result, m, v)
  | .ok (some _) => (.error (Error.storeNotObject .memory m.file), m, v)

/-- Makes the folder and reads the file. -/
def start (m : Memory) (now : Nat) (v : Volume) : Except Failure Unit × Memory × Volume :=
  match v.makeFolder? m.folder with
  | none => (.error (Error.folderNotMade .memory m.folder), m, v)
  | some v => m.load now v

end Memory

end Localize
