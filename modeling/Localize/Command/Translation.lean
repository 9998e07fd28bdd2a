import Localize.Batch.Remote
import Localize.Command.Session
import Localize.Project.Translation

/-!
# Translating from the command line

What is not given on the command line is taken from the settings. A provider is needed only if some
language is not the language of the source. Terms given for one run are joined with those of the
glossary and are not kept.
-/

namespace Localize.Command

variable {ε : Type}

/-- What is asked for; null and empty lists leave the choice to the settings. -/
structure Job where
  source : Path
  languages : List Text
  output : Path
  key : Json := .null
  model : Json := .null
  context : Json := .null
  tone : Json := .null
  attributes : List Text := []
  excluded : List Text := []
  skipped : List Text := []
  terms : List Json := []
  chunkSize : Json := .null
  preservesFormatting : Bool := true
  usesMemory : Bool := true
  sourceLanguage : Json := .null

/-! ### Terms for one run -/

/-- The terms of a document: the texts of a list, the terms of a glossary, or the names of an
object. -/
def termsOf : Json → List Json
  | .arr items => items.filter (·.text?.isSome)
  | .obj fields =>
    match Table.find? fields "terms".toList with
    | some (.arr items) =>
      (items.map fun item => (item.field? "term".toList).getD .null).filter Json.isSomething
    | _ => fields.map fun f => .str f.1
  | _ => []

/-- The terms in a file; a warning where it cannot be read. -/
def termsInFile (p : Path) : Action ε (List Json) := do
  let document : Option Json := match (← get).volume.place p with
    | .file (.text t) => (Json.read t).toOption
    | _ => none
  match document with
  | some value => return termsOf value
  | none =>
    say "[yellow]Warning:[/yellow] Could not load glossary file".toList
    return []

def termList (terms : List Json) : Except Fault Text := do
  return Text.join ", ".toList (← terms.mapM fun
    | .str t => .ok t
    | _ => .error .wrongType)

/-- The glossary of a run: the one of the settings and the terms given. -/
def glossaryFor (settings : Settings) (given : List Json) : Action ε Glossary := do
  let glossary ← openGlossary settings
  if given.any (!·.canName) then throw (.fault .wrongType)
  let terms := given.eraseDups
  if terms.isEmpty then return glossary
  let own ← onVolume fun now v =>
    match (Glossary.empty none).addUntranslated now v terms with
    | (.ok (), own, v) => (.ok own, v)
    | (.error failure, _, v) => (.error failure, v)
  sayWith "Glossary terms (will not be translated): " (← orFault (termList terms))
  return { own with terms := Table.merge glossary.terms own.terms }

/-! ### The run -/

/-- A value that counts as something, or the one of the settings. -/
def orSetting (settings : Settings) (group name : String) (value : Json) : Except Fault Json :=
  if value.isSomething then .ok value else fieldOf settings group name

def planOf (settings : Settings) (job : Job) (sourceLanguage key model : Json) :
    Except Fault Project.Plan := do
  let texts (items : List Text) : Json := .arr (items.map .str)
  let attributes ← orSetting settings "parser" "visible_attributes" (texts job.attributes)
  let excluded ← orSetting settings "parser" "exclude_tags" (texts job.excluded)
  let skipPatterns ← orSetting settings "parser" "skip_patterns" (texts job.skipped)
  let context ←
    if job.context = .null then fieldOf settings "translation" "context" else .ok job.context
  let tone ← orSetting settings "translation" "tone" job.tone
  let chunkSize ← orSetting settings "translation" "chunk_size" job.chunkSize
  let preserveFormatting ←
    if job.preservesFormatting then fieldOf settings "translation" "preserve_formatting"
    else .ok (.bool false)
  let pause ← fieldOf settings "translation" "chunk_delay"
  return {
    source := .path job.source
    languages := texts job.languages
    key
    output := job.output
    selection := ⟨attributes, excluded⟩
    skipPatterns
    options := {
      model
      wording := { preserveFormatting, tone, context }
      chunkSize
      sourceLanguage
      pause } }

def report (run : Project.Run) : Action ε Unit := do
  if !run.succeeded then
    sayWith "[yellow]Warning:[/yellow] " run.message
    throw (.exit 0)
  let number (n : Nat) : Text := Text.ofNat n
  say ("Extracted [green]".toList ++ number run.extracted ++ "[/green] strings (".toList ++
    number run.skipped ++ " skipped by pattern)".toList)
  if !run.results.isEmpty then
    sayGrid "Translation Summary" ["Language", "Memory", "Glossary", "API", "Failed", "Tokens"]
      (run.shares.map fun (language, share) =>
        [language, number share.fromMemory, number share.fromGlossary, number share.fromService,
          number share.failedStrings, Text.ofInt share.tokens])
  sayWith "Total tokens used: " (Text.ofInt run.tokens.total)
  for file in run.files do
    say ("  - [cyan]".toList ++ file.text ++ "[/cyan]".toList)

def translate (post : Provider.Endpoint ε) (settings : Settings) (job : Job) : Action ε Unit := do
  let sourceLanguage ←
    orFault (orSetting settings "translation" "source_language" job.sourceLanguage)
  let env := (← get).env
  let key := (← orFault (settings.key? env job.key .null)).getD .null
  let service ←
    if Project.needsTranslator job.languages sourceLanguage then
      some <$> orFail (Service.ofSettings settings env key job.model .null false)
    else pure none
  let glossary ← glossaryFor settings job.terms
  let memory ← if job.usesMemory then some <$> openMemory settings else pure none
  let model := match service with
    | some s => s.model
    | none => job.model.orElse (.str Settings.defaultModel)
  checkStyles (Text.join ", ".toList job.languages)
  let plan ← orFault (planOf settings job sourceLanguage key model)
  let s ← get
  let e := plan.carryOut (Batch.Remote.standing post)
    (if glossary.terms.isEmpty then none else some glossary) s.now
    ⟨memory, s.volume, ⟨service, s.endpoint⟩⟩
  set { s with
    volume := e.workspace.volume
    endpoint := e.workspace.translator.endpoint
    waits := s.waits ++ e.waits }
  report (← orFail e.result)

end Localize.Command
