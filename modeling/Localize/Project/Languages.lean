import Localize.Batch.Request

/-!
# Lists given in one text

Languages, attributes and selectors can be given as one text with commas or as a list. Blanks around
an item are dropped, and so are items of blanks alone.
-/

namespace Localize.Project

/-- The items of a text between its commas. -/
def itemsOf (t : Text) : List Text :=
  ((Text.splitOn ',' t).map Text.strip).filter fun item => !item.isEmpty

/-- The items of a text or the texts of a list; nothing else has items. -/
def itemsOfValue : Json → List Text
  | .str t => itemsOf t
  | .arr values => (values.filterMap Json.text?).flatMap fun t =>
    if Text.allBlank t then [] else [Text.strip t]
  | _ => []

/-- Whether something has to be translated from the language of the source. -/
def needsTranslator (languages : List Text) (sourceLanguage : Json) : Bool :=
  languages.any fun code => .str code ≠ sourceLanguage

/-- The languages asked for, each once. -/
def languagesOf (value : Json) : Except Failure (List Text) :=
  let given : Option (List Text) := match value with
    | .str t => some (Text.splitOn ',' t)
    | value => value.elements?.map fun items => items.filterMap Json.text?
  match given with
  | none => .error Fault.wrongType
  | some codes =>
    match Batch.unique (codes.map fun code => .str (Text.strip code)) with
    | [] => .error Error.noTargetLanguage
    | languages => .ok languages

/-- The languages that are neither supported nor the language of the source. -/
def unsupported (languages : List Text) (sourceLanguage : Json) : List Text :=
  languages.filter fun code => .str code ≠ sourceLanguage && !Language.isSupported code

end Localize.Project
