import Localize.Command.Arguments
import Localize.Command.Session

/-!
# Commands on the stores

The glossary and the translation memory of the settings: adding and removing terms, listings,
counts, and documents for other programs.
-/

namespace Localize.Command

variable {ε α : Type}

/-- Reads the words of a command; words that it does not take, and a call for help, end it. -/
def readWords (u : Usage) (words : List Text) : Action ε Given :=
  match u.read words with
  | some g => if g.has "--help" then throw (.exit 0) else pure g
  | none => throw (.exit 2)

/-- Reads the options of a group up to the name of a command. -/
def readGroup (u : Usage) (words : List Text) : Action ε Given :=
  match u.readWords none words with
  | some g => pure g
  | none => throw (.exit 2)

/-- The first argument, which the usage of a command asks for. -/
def firstOf (g : Given) : Text := g.arguments.headD []

def countIn (record : Json) (name : String) : Text :=
  ((record.field? name.toList).getD .null).display

def sayMoved (done : String) (count : Nat) (things : String) (p : Path) : Action ε Unit :=
  say (done.toList ++ Text.ofNat count ++ things.toList ++ "[cyan]".toList ++ p.text ++
    "[/cyan]".toList)

/-! ### The glossary -/

def onGlossary (f : Glossary → Nat → Volume → Except Failure α × Glossary × Volume) :
    Action ε α := do
  let g ← openGlossary (← settings none)
  onVolume fun now v =>
    match f g now v with
    | (result, _, v) => (result, v)

/-- A translation given as a language and a text with an equals sign between. -/
def translationOf (word : Text) : Except Error (Text × Json) :=
  match Text.cutAt? ['='] word with
  | some (language, t) =>
    if Text.allBlank language || Text.allBlank t then .error (.badTranslationArgument word)
    else .ok (Text.strip language, .str (Text.strip t))
  | none => .error (.badTranslationArgument word)

def addTerm (words : List Text) : Action ε Unit := do
  let g ← readWords (usage 1 [setting "--translation" (some 't'), switch "--dnt" none,
    setting "--category" none, setting "--description" none, setting "--context" none,
    switch "--case-insensitive" none]) words
  let translations ← match (g.values "--translation").mapM translationOf with
    | .ok pairs => pure (Table.ofPairs pairs)
    | .error e => fail e
  let text (name : String) : Json := .str ((g.value? name).getD [])
  let e ← onGlossary fun glossary now v => glossary.add now v {
    term := .str (firstOf g)
    translations := .obj translations
    category := text "--category"
    description := text "--description"
    caseSensitive := .bool !(g.has "--case-insensitive")
    doNotTranslate := .bool (g.has "--dnt")
    context := text "--context" }
  say ("Added [cyan]".toList ++ e.term.display ++ "[/cyan]".toList)

def removeTerm (words : List Text) : Action ε Unit := do
  let g ← readWords (usage 1 [switch "--case-insensitive" none]) words
  let term := firstOf g
  let removed ← onGlossary fun glossary now v =>
    glossary.delete now v (!g.has "--case-insensitive") (.str term)
  if !removed then fail (.termNotFound term)
  say ("Removed [cyan]".toList ++ term ++ "[/cyan]".toList)

def translationList (e : Glossary.Entry) : Text :=
  Text.join ", ".toList ((sortByName e.translations).map fun (language, t) =>
    language ++ '=' :: t.display)

/-- The cells of a term, with the term in small letters, by which the listing is ordered. -/
def termRow (e : Glossary.Entry) : Except Fault (Text × List Text) :=
  match e.term with
  | .str term => do
    let category ← cellOf e.category
    return (Text.lower term, [term, category,
      if e.doNotTranslate then "yes".toList else [], translationList e])
  | _ => .error .noMember

def listTerms (words : List Text) : Action ε Unit := do
  let g ← readWords (usage 0 [setting "--category" none]) words
  let glossary ← openGlossary (← settings none)
  let entries := match (g.value? "--category").getD [] with
    | [] => glossary.terms.values
    | category => glossary.ofCategory (.str category)
  let rows ← orFault (entries.mapM termRow)
  sayGrid "Glossary" ["Term", "Category", "Do not translate", "Translations"]
    ((sortByName rows).map (·.2))

def countTerms (words : List Text) : Action ε Unit := do
  let _ ← readWords (usage 0 []) words
  let glossary ← openGlossary (← settings none)
  let stats ← orFault glossary.stats
  say ("Total terms: [green]".toList ++ countIn stats "total" ++ "[/green]".toList)
  sayWith "Do not translate: " (countIn stats "do_not_translate")
  sayWith "With translations: " (countIn stats "with_translations")
  let categories := match stats.field? "by_category".toList with
    | some (.obj fields) => fields
    | _ => []
  for (category, count) in sortByName categories do
    say ("  ".toList ++ category ++ ": ".toList ++ count.display)

def exportTerms (words : List Text) : Action ε Unit := do
  let target := Path.ofText (firstOf (← readWords (usage 1 []) words))
  let glossary ← openGlossary (← settings none)
  let count ← onVolume fun now v => glossary.exportTo now v target.text
  sayMoved "Exported " count " terms to " target

def importTerms (words : List Text) : Action ε Unit := do
  let origin := Path.ofText (firstOf (← readWords (usage 1 []) words))
  let count ← onGlossary fun glossary now v => glossary.importFrom now v origin.text
  sayMoved "Imported " count " terms from " origin

def glossaryCommand (words : List Text) : Action ε Unit := do
  let g ← readGroup (groupUsage []) words
  if g.has "--help" then throw (.exit 0)
  match g.arguments with
  | [] => throw (.exit 2)
  | name :: words =>
    match String.ofList name with
    | "add" => addTerm words
    | "remove" => removeTerm words
    | "list" => listTerms words
    | "stats" => countTerms words
    | "export" => exportTerms words
    | "import" => importTerms words
    | _ => throw (.exit 2)

/-! ### The memory -/

/-- The cells of an entry, long texts cut. -/
def entryRow (e : Memory.Entry) : Except Fault (List Text) :=
  match e.sourceText, e.translation with
  | .str source, .str translation =>
    .ok [source.take 60, translation.take 60, e.direction.text, e.useCount.display]
  | .str _, .arr _ | .arr _, .str _ | .arr _, .arr _ => .error .notPrintable
  | _, _ => .error .wrongType

def countEntries (words : List Text) : Action ε Unit := do
  let _ ← readWords (usage 0 []) words
  let memory ← openMemory (← settings none)
  let stats ← orFault memory.stats
  say ("Entries: [green]".toList ++ countIn stats "total_entries" ++ "[/green]".toList)
  say ("Hits: ".toList ++ countIn stats "hits" ++ ", misses: ".toList ++ countIn stats "misses" ++
    " (hit rate ".toList ++ countIn stats "hit_rate" ++ ")".toList)
  sayWith "Additions: " (countIn stats "additions")
  let entries ← orFault (memory.mostUsed 10)
  if !entries.isEmpty then
    sayGrid "Most used" ["Source", "Translation", "Languages", "Uses"]
      (← orFault (entries.mapM entryRow))

def clearMemory (words : List Text) : Action ε Unit := do
  let g ← readWords (usage 0 [switch "--yes" (some 'y')]) words
  if !g.has "--yes" then confirm "Clear the whole translation memory?"
  let memory ← openMemory (← settings none)
  onVolume fun now v =>
    match memory.clear now v with
    | (result, _, v) => (result, v)
  say "Translation memory cleared".toList

def exportEntries (words : List Text) : Action ε Unit := do
  let target := Path.ofText (firstOf (← readWords (usage 1 []) words))
  let memory ← openMemory (← settings none)
  let count ← onVolume fun now v => memory.exportTo now v target.text
  sayMoved "Exported " count " entries to " target

def importEntries (words : List Text) : Action ε Unit := do
  let origin := Path.ofText (firstOf (← readWords (usage 1 []) words))
  let memory ← openMemory (← settings none)
  let count ← onVolume fun now v =>
    match memory.importFrom now v origin.text with
    | (result, _, v) => (result, v)
  sayMoved "Imported " count " entries from " origin

def memoryCommand (words : List Text) : Action ε Unit := do
  let g ← readGroup (groupUsage []) words
  if g.has "--help" then throw (.exit 0)
  match g.arguments with
  | [] => throw (.exit 2)
  | name :: words =>
    match String.ofList name with
    | "stats" => countEntries words
    | "clear" => clearMemory words
    | "export" => exportEntries words
    | "import" => importEntries words
    | _ => throw (.exit 2)

end Localize.Command
