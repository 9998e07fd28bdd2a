import Localize.Error
import Localize.Json.Printer

/-!
# Values used as lists and objects

Fields of a document may hold values of another type than expected. A text or an object can be gone
through like a list, item by item, and a list of pairs can be used like an object; everything else
is a fault where a list or an object is needed.
-/

namespace Localize.Json

/-- What a value gives item by item: the characters of a text, the names of an object's fields. -/
def elements? : Json → Option (List Json)
  | .arr items => some items
  | .str t => some (t.map fun c => .str [c])
  | .obj fields => some (fields.map fun f => .str f.1)
  | _ => none

/-- The items of a value that may be missing or count as nothing. -/
def elementsOrNone (value : Option Json) : Except Fault (List Json) :=
  match value with
  | none => .ok []
  | some v =>
    if v.isSomething then
      match v.elements? with
      | some items => .ok items
      | none => .error .wrongType
    else .ok []

/-- Whether a value can name something: lists and objects cannot. -/
def canName : Json → Bool
  | .arr _ | .obj _ => false
  | _ => true

/-- The name of a field as it is written in a document. -/
def fieldName : Json → Text
  | .str t => t
  | value => value.written

/-- A value of two items as a field. -/
def asField (value : Json) : Except Fault (Text × Json) :=
  match value.elements? with
  | none => .error .wrongType
  | some [key, content] => if key.canName then .ok (key.fieldName, content) else .error .wrongType
  | some _ => .error .badValue

/-- An object, or a list of pairs, as fields. -/
def asFields : Json → Except Fault Fields
  | .obj fields => .ok fields
  | value =>
    match value.elements? with
    | none => .error .wrongType
    | some items => (items.mapM asField).map Table.ofPairs

/-- The fields of a value that may be missing or count as nothing. -/
def fieldsOrNone (value : Option Json) : Except Fault Fields :=
  match value with
  | none => .ok []
  | some v => if v.isSomething then v.asFields else .ok []

/-- Fields laid over others, where the value may be missing or count as nothing. Only an object will
do. -/
def overlay (fields : Fields) (value : Option Json) : Except Fault Fields :=
  match value with
  | none => .ok fields
  | some (.obj newer) => .ok (Table.merge fields newer)
  | some v => if v.isSomething then .error .wrongType else .ok fields

end Localize.Json
