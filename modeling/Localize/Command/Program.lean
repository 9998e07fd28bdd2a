import Localize.Command.Stores
import Localize.Command.Translation

/-!
# The program

All commands by their names. A command ends with code zero, with one after an error, and with two
where its words make no sense; then nothing has been done.
-/

namespace Localize.Command

variable {ε : Type}

def version : Text := "1.0.0".toList

/-! ### Commands of a project -/

def createSettings (words : List Text) : Action ε Unit := do
  let g ← readWords (usage 0 [switch "--force" (some 'f')]) words
  let s ← get
  let path := Settings.path s.env
  let shown := "[cyan]".toList ++ path.text ++ "[/cyan]".toList
  if s.volume.has path && !g.has "--force" then
    say ("Config already exists: ".toList ++ shown ++ " (use --force to overwrite)".toList)
  else
    let _ ← onVolume fun _ v =>
      match Settings.create v s.env none with
      | (.ok path, v) => (.ok path, v)
      | (.error e, v) => (.error e, v)
    sayWith "Created " shown
    for step in ["Next steps:",
        "  1. Set your API key in the config file or the OPENAI_API_KEY environment variable",
        "  2. Add glossary terms that should not be translated: polygot glossary add <term> --dnt",
        "  3. Set project.source, project.output and project.languages, then run: polygot run"] do
      say step.toList

/-- The items of an option given as one text. -/
def itemsOf (g : Given) (name : String) : List Text :=
  Project.itemsOf ((g.value? name).getD [])

def extract (words : List Text) : Action ε Unit := do
  let g ← readWords (usage 3 [setting "--attributes" (some 'a'), setting "--exclude" (some 'e')])
    words
  let config ← settings none
  let texts (items : List Text) : Json := .arr (items.map .str)
  let attributes ← orFault
    (orSetting config "parser" "visible_attributes" (texts (itemsOf g "--attributes")))
  let excluded ← orFault (orSetting config "parser" "exclude_tags" (texts (itemsOf g "--exclude")))
  match g.arguments with
  | [source, language, output] =>
    let e ← onVolume fun _ v =>
      Project.extract v ⟨attributes, excluded⟩ (.path (.ofText source)) language (.ofText output)
    say e.message
    say ("File: [cyan]".toList ++ e.file.text ++ "[/cyan]".toList)
    say ("New strings: [green]".toList ++ Text.ofNat e.added ++ "[/green], already present: ".toList
      ++ Text.ofNat e.present ++ ", total: ".toList ++ Text.ofNat e.total)
  | _ => throw (.exit 2)

def translateUsage : Usage :=
  usage 3 [setting "--api-key" (some 'k'), setting "--model" (some 'm'),
    setting "--context" (some 'c'), setting "--tone" (some 't'),
    setting "--attributes" (some 'a'), setting "--exclude" (some 'e'), setting "--skip" none,
    setting "--glossary" (some 'g'), setting "--glossary-file" none, setting "--chunk-size" none,
    switch "--no-formatting" none, switch "--no-memory" none,
    setting "--source-lang" (some 's')]

/-- A number given as a text; none is given where the option is missing. -/
def numberOf (given : Option Text) : Option Json :=
  match given with
  | none => some .null
  | some t => (Text.whole? t).map .int

def translateGiven (post : Provider.Endpoint ε) (words : List Text) : Action ε Unit := do
  let g ← readWords translateUsage words
  let value (name : String) : Json := .ofOption (g.value? name)
  match g.arguments, numberOf (g.value? "--chunk-size") with
  | [source, languages, output], some chunkSize =>
    let terms := (itemsOf g "--glossary").map .str
    let more ← match g.value? "--glossary-file" with
      | some file => termsInFile (.ofText file)
      | none => pure []
    translate post (← settings none) {
      source := .ofText source
      languages := Project.itemsOf languages
      output := .ofText output
      key := value "--api-key"
      model := value "--model"
      context := value "--context"
      tone := value "--tone"
      attributes := itemsOf g "--attributes"
      excluded := itemsOf g "--exclude"
      skipped := itemsOf g "--skip"
      terms := terms ++ more
      chunkSize
      preservesFormatting := !g.has "--no-formatting"
      usesMemory := !g.has "--no-memory"
      sourceLanguage := value "--source-lang" }
  | _, _ => throw (.exit 2)

def translateProject (post : Provider.Endpoint ε) (words : List Text) : Action ε Unit := do
  let g ← readWords (usage 0 [setting "--config" (some 'c'), setting "--api-key" (some 'k'),
    switch "--no-memory" none]) words
  let s ← get
  let path := ((g.value? "--config").map Path.ofText).getD (Settings.path s.env)
  if !s.volume.has path then
    say ("[red]Error:[/red] ".toList ++ path.text ++ " does not exist".toList)
    say "Run 'polygot init' to create a config file".toList
    throw (.exit 1)
  let config ← settings (some path)
  match Table.find? config "project".toList with
  | some (.obj project) =>
    let field (name : String) : Json := (Table.find? project name.toList).getD .null
    let terms := (Project.itemsOfValue (field "glossary")).map .str
    let more ←
      if (field "glossary_file").isSomething then
        termsInFile (← orFault (pathOf (field "glossary_file")))
      else pure []
    translate post config {
      source := ← orFault (pathOf (field "source"))
      languages := Project.itemsOfValue (field "languages")
      output := ← orFault (pathOf (field "output"))
      key := .ofOption (g.value? "--api-key")
      model := field "model"
      terms := terms ++ more
      usesMemory := !g.has "--no-memory" }
  | _ => throw (.fault .noMember)

def listLanguages (words : List Text) : Action ε Unit := do
  let _ ← readWords (usage 0 []) words
  sayGrid "Supported Languages" ["Code", "Language"]
    (Language.supported.map fun (code, name) => [code, name])
  say ("Total: ".toList ++ Text.ofNat Language.supported.length ++ " languages".toList)

/-! ### All commands -/

def perform (post : Provider.Endpoint ε) (words : List Text) : Action ε Unit := do
  let g ← readGroup (groupUsage [switch "--version" (some 'V')]) words
  match g.options, g.arguments with
  | (name, _) :: _, _ =>
    if name = "--version".toList then say ("polygot ".toList ++ version)
  | [], [] => throw (.exit 2)
  | [], name :: words =>
    match String.ofList name with
    | "init" => createSettings words
    | "extract" => extract words
    | "translate" => translateGiven post words
    | "run" => translateProject post words
    | "languages" => listLanguages words
    | "glossary" => glossaryCommand words
    | "memory" => memoryCommand words
    | _ => throw (.exit 2)

/-- The code with which a command has ended. -/
def exitCode : Except Stop Unit → Nat
  | .ok () => 0
  | .error (.exit code) => code
  | .error .unanswered | .error (.fault _) => 1

def run (post : Provider.Endpoint ε) (words : List Text) (s : Session ε) :
    Except Stop Unit × Session ε :=
  (perform post words).run s

end Localize.Command
