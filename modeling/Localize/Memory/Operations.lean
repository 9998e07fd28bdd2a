import Localize.Calendar
import Localize.Memory.Basic
import Localize.Order
import Localize.Text.Slice

/-!
# Working with the translation memory

Every operation gives its result, or what ended it, together with the memory and the volume as they
are afterwards. A look-up counts as a hit or a miss; additions are counted too, and every so many of
them the file is written.
-/

namespace Localize.Memory

/-- Counts a hit on an entry: the time, the entry's count, the memory's count. -/
def touch (m : Memory) (now : Nat) (d : Direction) (source : Text) (e : Entry) :
    Except Fault Unit × Memory :=
  let e := { e with lastUsed := .nat now }
  match Counters.next e.useCount with
  | .error fault => (.error fault, m.setEntry d source e)
  | .ok useCount =>
    let m := m.setEntry d source { e with useCount }
    match Counters.next m.counters.hits with
    | .error fault => (.error fault, m)
    | .ok hits => (.ok (), { m with counters := { m.counters with hits } })

/-- The translation of a text, if there is one. -/
def lookup (m : Memory) (now : Nat) (d : Direction) (source : Text) :
    Except Fault (Option Json) × Memory :=
  match m.entry? d source with
  | some e =>
    match m.touch now d source e with
    | (.ok (), m) => (.ok (some e.translation), m)
    | (.error fault, m) => (.error fault, m)
  | none =>
    match Counters.next m.counters.misses with
    | .error fault => (.error fault, m)
    | .ok misses => (.ok none, { m with counters := { m.counters with misses } })

/-- The translations that are there by their texts as given, and the texts that have none. -/
structure Lookups where
  found : Table Text Json
  missing : List Text

/-- Looks texts up in turn. -/
def lookupAll (m : Memory) (now : Nat) (d : Direction) :
    List Text → Except Fault Lookups × Memory
  | texts => go m ⟨[], []⟩ texts
where
  go (m : Memory) (acc : Lookups) : List Text → Except Fault Lookups × Memory
    | [] => (.ok acc, m)
    | t :: rest =>
      match m.lookup now d t with
      | (.error fault, m) => (.error fault, m)
      | (.ok none, m) => go m { acc with missing := acc.missing ++ [t] } rest
      | (.ok (some .null), m) => go m { acc with missing := acc.missing ++ [t] } rest
      | (.ok (some translation), m) =>
        go m { acc with found := Table.insert acc.found t translation } rest

/-- The notes kept with a translation: which model made it, in which context and tone. -/
def keptNotes (notes : Fields) : Fields :=
  let get (name : String) : Json := (Table.find? notes name.toList).getD .null
  Json.record [("model", get "model"), ("context", (get "context").orElse .null),
    ("tone", get "tone")]

/-- Puts an entry into the table and counts it. -/
def put (m : Memory) (now : Nat) (d : Direction) (source : Text) (e : Entry) :
    Except Fault Unit × Memory :=
  let m := m.setEntry d source e
  match Counters.next m.counters.additions with
  | .error fault => (.error fault, m)
  | .ok additions =>
    let m := { m with counters := { m.counters with additions } }
    (.ok (), (m.setHeader "lastModified" (.nat now)).setHeader "totalEntries" (.nat m.size))

/-- Whether the file is to be written after this addition. -/
def dueForSave (m : Memory) : Bool :=
  m.autosaveEvery ≠ 0 &&
    match m.counters.additions.quantity? with
    | some additions => additions.isMultipleOf m.autosaveEvery
    | none => false

/-- Stores a translation in place of the one under the same key. -/
def store (m : Memory) (now : Nat) (v : Volume) (d : Direction) (source translation : Json)
    (notes : Fields) (verified : Bool) : Except Failure Entry × Memory × Volume :=
  match source with
  | .str source =>
    if Text.allBlank source then (.error Error.emptySourceText, m, v)
    else
      match translation with
      | .str translation =>
        let e := Entry.ofTranslation now d source translation verified (keptNotes notes)
        match m.put now d source e with
        | (.error fault, m) => (.error fault, m, v)
        | (.ok (), m) =>
          if m.dueForSave then
            match m.save now v with
            | (.ok (), v) => (.ok e, m, v)
            | (.error failure, v) => (.error failure, m, v)
          else (.ok e, m, v)
      | _ => (.error Fault.noMember, m, v)
  | _ => (.error Error.emptySourceText, m, v)

def storeAll (m : Memory) (now : Nat) (v : Volume) (d : Direction) (notes : Fields) :
    List (Text × Json) → Except Failure Unit × Memory × Volume
  | [] => (.ok (), m, v)
  | (source, translation) :: rest =>
    match m.store now v d (.str source) translation notes false with
    | (.error failure, m, v) => (.error failure, m, v)
    | (.ok _, m, v) => storeAll m now v d notes rest

def saved {α : Type} (m : Memory) (now : Nat) (v : Volume) (result : α) :
    Except Failure α × Memory × Volume :=
  match m.save now v with
  | (.ok (), v) => (.ok result, m, v)
  | (.error failure, v) => (.error failure, m, v)

/-- Changes the entry of a text, if there is one, and saves. -/
def change (m : Memory) (now : Nat) (v : Volume) (d : Direction) (source : Text)
    (f : Entry → Entry) : Except Failure Bool × Memory × Volume :=
  match m.entry? d source with
  | none => (.ok false, m, v)
  | some e => (m.setEntry d source (f e)).saved now v true

def verify (m : Memory) (now : Nat) (v : Volume) (d : Direction) (source : Text) :
    Except Failure Bool × Memory × Volume :=
  m.change now v d source fun e =>
    { e with verified := true, notes := Table.insert e.notes "verifiedAt".toList (.nat now) }

def update (m : Memory) (now : Nat) (v : Volume) (d : Direction) (source translation : Text) :
    Except Failure Bool × Memory × Volume :=
  m.change now v d source fun e =>
    { e with
      translation := .str (Text.strip translation)
      notes := Table.insert e.notes "updatedAt".toList (.nat now) }

/-- Removes the entry of a text, if there is one. -/
def delete (m : Memory) (now : Nat) (v : Volume) (d : Direction) (source : Text) :
    Except Failure Bool × Memory × Volume :=
  match m.entry? d source with
  | none => (.ok false, m, v)
  | some _ =>
    let m := { m with cache := Table.erase m.cache (m.key d source) }
    (m.setHeader "totalEntries" (.nat m.size)).saved now v true

def clear (m : Memory) (now : Nat) (v : Volume) : Except Failure Unit × Memory × Volume :=
  let m := { m with cache := [], counters := .zero }
  ((m.setHeader "totalEntries" (.nat 0)).setHeader "lastModified" (.nat now)).saved now v ()

/-! ### Listings -/

/-- The share of hits among all look-ups in per cent. -/
def hitRate (m : Memory) : Except Fault Text :=
  match m.counters.hits.quantity?, m.counters.misses.quantity? with
  | some hits, some misses =>
    match hits.add? misses with
    | none => .error .tooLarge
    | some total =>
      let rate := if (Quantity.whole 0).less total then hits.divide? total else some (.ofInt 0)
      match rate with
      | none => .error .tooLarge
      | some rate => .ok ((rate.mul (.ofInt 100)).textWithHundredths ++ ['%'])
  | _, _ => .error .wrongType

/-- How many entries there are and how look-ups went. -/
def stats (m : Memory) : Except Fault Json := do
  let rate ← m.hitRate
  return .obj (Json.record [("total_entries", .nat m.size), ("hits", m.counters.hits),
    ("misses", m.counters.misses), ("hit_rate", .str rate), ("additions", m.counters.additions),
    ("estimated_savings", m.counters.hits)])

def entriesOf (m : Memory) (d : Direction) : List Entry :=
  m.cache.values.filter fun e => e.direction = d

/-- Whether the use counts of all entries can be compared with one another. -/
def comparable (entries : List Entry) : Bool :=
  entries.all fun e => entries.all fun f => (e.useCount.less? f.useCount).isSome

/-- The entries used most, the first ones up to a cut. -/
def mostUsed (m : Memory) (limit : Int) : Except Fault (List Entry) :=
  let entries := m.cache.values
  if entries.length ≤ 1 || comparable entries then
    .ok (Text.takeTo limit (sortBy (fun e f => f.useCount.less? e.useCount = some true) entries))
  else .error .wrongType

/-! ### Exchange -/

/-- The document for other programs. -/
def exportDocument (m : Memory) (now : Nat) : Json :=
  let item (e : Entry) : Json :=
    .obj (Json.record [("source", e.sourceText), ("translation", e.translation),
      ("sourceLang", e.direction.source), ("targetLang", e.direction.target),
      ("useCount", e.useCount), ("verified", .bool e.verified)])
  .obj (Json.record [("version", (Table.find? m.header "version".toList).getD formatVersion),
    ("exportedAt", .str (Calendar.timestamp now)), ("totalEntries", .nat m.size),
    ("entries", .arr (m.cache.values.map item))])

/-- Writes the document for other programs; gives the number of entries. -/
def exportTo (m : Memory) (now : Nat) (v : Volume) (target : Text) :
    Except Failure Nat × Volume :=
  match v.writeJson (.ofText target) (m.exportDocument now) with
  | (.ok (), v) => (.ok m.size, v)
  | (.error e, v) => (.error e, v)

/-- What an item of a foreign document asks to store; nothing for an item without texts. -/
def importable? (item : Json) : Except Fault (Option (Direction × Json × Json × Bool)) :=
  match item with
  | .obj fields =>
    let source := (Table.find? fields "source".toList).getD .null
    match Table.find? fields "translation".toList with
    | some (.str translation) =>
      if !source.isSomething || Text.allBlank translation then .ok none
      else do
        let sourceLang ← Entry.required fields "sourceLang"
        let targetLang ← Entry.required fields "targetLang"
        let verified := (Table.find? fields "verified".toList).getD (.bool false)
        return some (⟨sourceLang, targetLang⟩, source, .str translation, verified.isSomething)
    | _ => .ok none
  | _ => .error .noMember

/-- Stores the items of a foreign document in turn and counts them. -/
def importItems (m : Memory) (now : Nat) (v : Volume) (count : Nat) :
    List Json → Except Failure Nat × Memory × Volume
  | [] => (.ok count, m, v)
  | item :: rest =>
    match importable? item with
    | .error fault => (.error fault, m, v)
    | .ok none => importItems m now v count rest
    | .ok (some (d, source, translation, verified)) =>
      match m.store now v d source translation [] verified with
      | (.error failure, m, v) => (.error failure, m, v)
      | (.ok _, m, v) => importItems m now v (count + 1) rest

/-- Reads a document of another memory; gives the number of entries stored. -/
def importFrom (m : Memory) (now : Nat) (v : Volume) (origin : Text) :
    Except Failure Nat × Memory × Volume :=
  match v.readJson (.ofText origin) with
  | .error failure => (.error failure, m, v)
  | .ok none => (.error (Error.importMissing .memory origin), m, v)
  | .ok (some document) =>
    match Json.elementsOrNone (document.field? "entries".toList) with
    | .error fault => (.error fault, m, v)
    | .ok items =>
      match m.importItems now v 0 items with
      | (.error failure, m, v) => (.error failure, m, v)
      | (.ok count, m, v) => m.saved now v count

end Localize.Memory
