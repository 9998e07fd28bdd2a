import Localize.Error
import Localize.Json.Shape
import Localize.Provider.Prompt
import Localize.Settings.Basic
import Localize.Text.Blank

/-!
# Requests

A request names the strings, the language, the key and how the work is to be done. It is checked
before anything else happens: first the language, then the strings, the key and the chunk size.
-/

namespace Localize.Batch

/-- The texts seen so far and a value, if it is a text that is not blank and new. -/
def addNew (seen : List Text) (value : Json) : List Text :=
  match value with
  | .str t => if Text.allBlank t || seen.contains t then seen else seen ++ [t]
  | _ => seen

/-- The texts that are not blank, each once, in the order in which they first come. -/
def unique (strings : List Json) : List Text := strings.foldl addNew []

/-- Consecutive chunks of the given size, the last one perhaps smaller; no size is below one. -/
def chunksOf {α : Type} (size : Nat) : List α → List (List α)
  | [] => []
  | x :: rest => (x :: rest.take (size - 1)) :: chunksOf size (rest.drop (size - 1))
termination_by items => items.length
decreasing_by
  simp only [List.length_cons, List.length_drop]
  omega

/-- Chunks of a size that has to be at least one. -/
def chunks {α : Type} (size : Int) (items : List α) : Except Fault (List (List α)) :=
  if size < 1 then .error .emptyChunks else .ok (chunksOf size.toNat items)

structure Options where
  model : Json := .str Settings.defaultModel
  wording : Provider.Wording := {}
  chunkSize : Json := .nat 50
  sourceLanguage : Json := Json.lit "en"
  /-- Seconds between two chunks. -/
  pause : Json := Settings.half

structure Request where
  strings : Json
  language : Json
  key : Json
  options : Options

structure Checked where
  strings : List Json
  language : Text
  chunkSize : Nat

/-- The code of a supported language. -/
def checkLanguage (language : Json) : Except Failure Text :=
  match language with
  | .str code =>
    if Language.isSupported code then .ok code
    else .error (Error.unsupportedLanguage code language)
  | _ =>
    if language.canName then .error (Error.unsupportedLanguage language.display language)
    else .error Fault.wrongType

/-- The items of a list, or the names of an object, that is not empty. -/
def checkStrings (strings : Json) : Except Error (List Json) :=
  match strings with
  | .arr (first :: rest) => .ok (first :: rest)
  | .obj (first :: rest) => .ok ((first :: rest).map fun f => .str f.1)
  | _ => .error .noStrings

/-- A whole number of at least one. -/
def checkChunkSize (size : Json) : Except Error Nat :=
  match size with
  | .int i => if i < 1 then .error (.badChunkSize size) else .ok i.toNat
  | .bool true => .ok 1
  | _ => .error (.badChunkSize size)

def Request.check (r : Request) : Except Failure Checked :=
  match checkLanguage r.language with
  | .error failure => .error failure
  | .ok language =>
    match checkStrings r.strings with
    | .error e => .error e
    | .ok strings =>
      if r.key.isSomething then
        match checkChunkSize r.options.chunkSize with
        | .error e => .error e
        | .ok chunkSize => .ok ⟨strings, language, chunkSize⟩
      else .error Error.noKey

end Localize.Batch
