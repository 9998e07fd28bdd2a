import Localize.Batch.Translation
import Localize.Project.Extraction
import Localize.Project.Languages
import Localize.Skip

/-!
# Translating a project

The strings of a source are extracted once. For every language asked for, one after another, they
are translated and a locale file is written; the language of the source gets the strings themselves.
Strings that a skip pattern matches stand for themselves in every language. What is asked for is
checked before anything is read, and the memory is saved at the end.
-/

namespace Localize.Project

structure Plan where
  source : Source
  languages : Json
  key : Json
  output : Path
  selection : Source.Selection
  skipPatterns : Json
  options : Batch.Options

/-- The strings of a run, and how the skip patterns divide them. -/
structure Material where
  strings : List Text
  translatable : List Text
  skipped : List Text

structure Run where
  succeeded : Bool
  files : List Path
  extracted : Nat
  skipped : Nat
  languages : List Text
  results : Table Text Batch.Result
  tokens : Batch.TokenCount
  message : Text

structure Ending (σ : Type) where
  result : Except Failure Run
  waits : List Nat
  workspace : Batch.Workspace σ

/-- The skip patterns of a value that a document gives. -/
def skipPatternsOf (value : Json) : Except Fault (List Text) := do
  (← Json.elementsOrNone (some value)).mapM fun
    | .str t => .ok t
    | _ => .error .wrongType

namespace Run

def withoutStrings (languages : List Text) : Run :=
  ⟨false, [], 0, 0, languages, [], .zero, "No strings extracted".toList⟩

def start (languages : List Text) (m : Material) : Run :=
  ⟨true, [], m.strings.length, m.skipped.length, languages, [], .zero, []⟩

def addResult (run : Run) (language : Text) (r : Batch.Result) : Run :=
  { run with
    results := Table.insert run.results language r
    tokens := run.tokens.add r.tokens }

/-- Where the translations of a language come from, and the tokens they took. -/
structure Share where
  fromMemory : Nat
  fromGlossary : Nat
  fromService : Nat
  failedStrings : Nat
  tokens : Int

def shares (run : Run) : List (Text × Share) :=
  run.results.map fun (language, r) =>
    (language, ⟨r.fromMemory, r.fromGlossary, r.fromService, r.failedStrings, r.tokens.total⟩)

end Run

namespace Plan

/-- The languages of a plan, if it can be carried out. -/
def check (p : Plan) : Except Failure (List Text) :=
  match languagesOf p.languages with
  | .error failure => .error failure
  | .ok languages =>
    match unsupported languages p.options.sourceLanguage with
    | [] =>
      if p.key.isSomething || !needsTranslator languages p.options.sourceLanguage then .ok languages
      else .error Error.noKey
    | codes =>
      .error (Error.unsupportedLanguage (Text.join ", ".toList codes) (.arr (codes.map .str)))

/-- Divides the strings by the skip patterns. -/
def material (p : Plan) (strings : List Text) : Except Fault Material := do
  let (translatable, skipped) := Skip.split (← skipPatternsOf p.skipPatterns) strings
  return ⟨strings, translatable, skipped⟩

def request (p : Plan) (m : Material) (language : Text) : Batch.Request :=
  ⟨.arr (m.translatable.map .str), .str language, p.key, p.options⟩

variable {σ : Type}

/-- The translations of one language, with the result unless all strings stand for themselves. -/
def inLanguage (p : Plan) (t : Batch.Translator σ) (g : Option Glossary) (now : Nat) (m : Material)
    (language : Text) (w : Batch.Workspace σ) :
    Except Failure (Fields × Option Batch.Result) × List Nat × Batch.Workspace σ :=
  if .str language = p.options.sourceLanguage || m.translatable.isEmpty then
    (.ok (addIdentities [] m.strings, none), [], w)
  else
    let e := Batch.translate t g now (p.request m language) w
    match e.result with
    | .error failure => (.error failure, e.trace.waits, e.workspace)
    | .ok r => (.ok (addIdentities r.translations m.skipped, some r), e.trace.waits, e.workspace)

/-- Translates into the languages in turn and writes their files. -/
def inLanguages (p : Plan) (t : Batch.Translator σ) (g : Option Glossary) (now : Nat) (m : Material)
    (run : Run) (waits : List Nat) (w : Batch.Workspace σ) : List Text → Ending σ
  | [] => ⟨.ok run, waits, w⟩
  | language :: rest =>
    match p.inLanguage t g now m language w with
    | (.error failure, more, w) => ⟨.error failure, waits ++ more, w⟩
    | (.ok (translations, result), more, w) =>
      let run := (result.map (run.addResult language)).getD run
      match Locale.write w.volume p.output language translations with
      | (.error e, volume) => ⟨.error e, waits ++ more, { w with volume }⟩
      | (.ok file, volume) =>
        inLanguages p t g now m { run with files := run.files ++ [file] } (waits ++ more)
          { w with volume } rest

/-- Saves the memory at the end of a run, if there is one. -/
def close (now : Nat) (e : Ending σ) : Ending σ :=
  match e.result, e.workspace.memory with
  | .ok _, some memory =>
    match memory.save now e.workspace.volume with
    | (.ok (), volume) => { e with workspace := { e.workspace with volume } }
    | (.error failure, volume) =>
      { e with result := .error failure, workspace := { e.workspace with volume } }
  | _, _ => e

def carryOut (p : Plan) (t : Batch.Translator σ) (g : Option Glossary) (now : Nat)
    (w : Batch.Workspace σ) : Ending σ :=
  match p.check with
  | .error failure => ⟨.error failure, [], w⟩
  | .ok languages =>
    match p.source.strings w.volume p.selection with
    | .error failure => ⟨.error failure, [], w⟩
    | .ok [] => ⟨.ok (.withoutStrings languages), [], w⟩
    | .ok strings =>
      match p.material strings with
      | .error fault => ⟨.error fault, [], w⟩
      | .ok m => close now (p.inLanguages t g now m (.start languages m) [] w languages)

end Plan

end Localize.Project
