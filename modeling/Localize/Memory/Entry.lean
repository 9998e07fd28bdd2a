import Localize.Json.Number
import Localize.Json.Shape
import Localize.Text.Blank

/-!
# Entries of the translation memory

An entry holds a source text and its translation with the two languages, when it was made and last
used and how often. Entries read from a file keep whatever values the file has; `Entry.ofValue` says
which files have no reading.
-/

namespace Localize.Memory

/-- The languages a text goes from and to. -/
structure Direction where
  source : Json
  target : Json
  deriving DecidableEq, Repr

def Direction.ofCodes (source target : Text) : Direction := ⟨.str source, .str target⟩

/-- The two codes with an arrow between them. -/
def Direction.text (d : Direction) : Text :=
  d.source.display ++ " -> ".toList ++ d.target.display

structure Entry where
  sourceText : Json
  translation : Json
  direction : Direction
  createdAt : Json
  lastUsed : Json
  useCount : Json
  verified : Bool
  notes : Fields
  deriving DecidableEq, Repr

/-- The name under which a text is stored: both languages and the digest of the trimmed text. -/
def keyOf (digest : Text → Text) (d : Direction) (source : Text) : Text :=
  d.source.display ++ ':' :: d.target.display ++ ':' :: digest (Text.strip source)

namespace Entry

/-- A new entry with both texts trimmed. -/
def ofTranslation (now : Nat) (d : Direction) (source translation : Text) (verified : Bool)
    (notes : Fields) : Entry where
  sourceText := .str (Text.strip source)
  translation := .str (Text.strip translation)
  direction := d
  createdAt := .nat now
  lastUsed := .nat now
  useCount := .nat 1
  verified := verified
  notes := notes

def toJson (key : Json) (e : Entry) : Json :=
  .obj (Json.record [("key", key), ("sourceText", e.sourceText), ("translation", e.translation),
    ("sourceLang", e.direction.source), ("targetLang", e.direction.target),
    ("createdAt", e.createdAt), ("lastUsed", e.lastUsed), ("useCount", e.useCount),
    ("verified", .bool e.verified), ("metadata", .obj e.notes)])

/-- A field that has to be there. -/
def required (fields : Fields) (name : String) : Except Fault Json :=
  match Table.find? fields name.toList with
  | some value => .ok value
  | none => .error (.noField name.toList)

/-- A time that is given, or now. -/
def timeOr (now : Nat) (value : Option Json) : Json := (value.getD .null).orElse (.nat now)

/-- Reads an entry of a file. The mark of a verified entry may stand among the notes. -/
def ofValue (now : Nat) : Json → Except Fault Entry
  | .obj fields => do
    let notes ← Json.fieldsOrNone (Table.find? fields "metadata".toList)
    let marked := (Table.find? notes "verified".toList).getD (.bool false)
    let verified := (Table.find? fields "verified".toList).getD marked
    let sourceText ← required fields "sourceText"
    let translation ← required fields "translation"
    let source ← required fields "sourceLang"
    let target ← required fields "targetLang"
    return {
      sourceText, translation, direction := ⟨source, target⟩
      createdAt := timeOr now (Table.find? fields "createdAt".toList)
      lastUsed := timeOr now (Table.find? fields "lastUsed".toList)
      useCount := (Table.find? fields "useCount".toList).getD (.nat 1)
      verified := verified.isSomething
      notes := Table.erase notes "verified".toList }
  | _ => .error .noMember

/-- The name of an entry of a file: the one given with it, or that of its texts. -/
def keyIn (digest : Text → Text) (item : Json) (e : Entry) : Except Fault Json :=
  let given := (item.field? "key".toList).getD .null
  if given.isSomething then if given.canName then .ok given else .error .wrongType
  else
    match e.sourceText with
    | .str source => .ok (.str (keyOf digest e.direction source))
    | _ => .error .noMember

end Entry

end Localize.Memory
