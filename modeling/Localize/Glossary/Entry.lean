import Localize.Json.Shape
import Localize.Text.Blank
import Localize.Text.Case

/-!
# Glossary entries

A term with the texts that stand for it in other languages. A term that is not translated stands for
itself. Terms whose letter case does not matter are known under their small letters.
-/

namespace Localize.Glossary

/-- A term and what is fixed about its translation. -/
structure Entry where
  term : Json
  translations : Fields
  category : Json
  description : Json
  caseSensitive : Bool
  doNotTranslate : Bool
  context : Json
  createdAt : Json
  updatedAt : Json
  deriving DecidableEq, Repr

def keyOf (caseSensitive : Bool) (term : Json) : Except Fault Json :=
  if caseSensitive then if term.canName then .ok term else .error .wrongType
  else
    match term with
    | .str t => .ok (.str (Text.lower t))
    | _ => .error .noMember

def defaultCategory : Json := Json.lit "general"

namespace Entry

def key (e : Entry) : Except Fault Json := keyOf e.caseSensitive e.term

/-- The fixed form of the term in a language, if there is one. -/
def final? (e : Entry) (language : Text) : Option Json :=
  if e.doNotTranslate then some e.term
  else
    match Table.find? e.translations language with
    | some translation => if translation.isSomething then some translation else none
    | none => none

def toJson (e : Entry) : Json :=
  .obj (Json.record [("term", e.term), ("translations", .obj e.translations),
    ("category", e.category), ("description", e.description),
    ("caseSensitive", .bool e.caseSensitive), ("doNotTranslate", .bool e.doNotTranslate),
    ("context", e.context), ("createdAt", e.createdAt), ("updatedAt", e.updatedAt)])

def ofValue (now : Nat) : Json → Except Fault Entry
  | .obj fields => do
    let get (name : String) : Json := (Table.find? fields name.toList).getD .null
    let some term := Table.find? fields "term".toList | .error (.noField "term".toList)
    let translations ← Json.fieldsOrNone (Table.find? fields "translations".toList)
    return {
      term, translations
      category := (get "category").orElse defaultCategory
      description := (get "description").orElse (.str [])
      caseSensitive := get "caseSensitive" ≠ .bool false
      doNotTranslate := (get "doNotTranslate").isSomething
      context := (get "context").orElse (.str [])
      createdAt := (get "createdAt").orElse (.nat now)
      updatedAt := (get "updatedAt").orElse (.nat now) }
  | _ => .error .wrongType

end Entry

/-- What is given for a new term. -/
structure Draft where
  term : Json
  translations : Json := .null
  category : Json := .null
  description : Json := .str []
  caseSensitive : Json := .bool true
  doNotTranslate : Json := .bool false
  context : Json := .str []

/-- The entry of a draft, its term trimmed. -/
def Draft.entry (now : Nat) (d : Draft) : Except Failure Entry :=
  match d.term with
  | .str term =>
    if Text.allBlank term then .error Error.emptyTerm
    else
      match Json.fieldsOrNone (some d.translations) with
      | .error fault => .error fault
      | .ok translations => .ok {
          term := .str (Text.strip term)
          translations
          category := d.category.orElse defaultCategory
          description := d.description.orElse (.str [])
          caseSensitive := d.caseSensitive ≠ .bool false
          doNotTranslate := d.doNotTranslate.isSomething
          context := d.context.orElse (.str [])
          createdAt := .nat now
          updatedAt := .nat now }
  | _ => .error Error.emptyTerm

/-- What is given to change a term. -/
structure Revision where
  translations : Fields := []
  category : Json := .null
  description : Json := .null
  doNotTranslate : Option Bool := none
  context : Json := .null

/-- Lays what is given over an entry. -/
def Revision.apply (r : Revision) (now : Nat) (e : Entry) : Entry :=
  { e with
    translations := Table.merge e.translations r.translations
    category := r.category.orElse e.category
    description := r.description.orElse e.description
    doNotTranslate := r.doNotTranslate.getD e.doNotTranslate
    context := r.context.orElse e.context
    updatedAt := .nat now }

end Localize.Glossary
