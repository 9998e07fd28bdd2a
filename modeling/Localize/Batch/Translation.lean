import Localize.Batch.Chunk
import Localize.Batch.Request
import Localize.Glossary.Protection
import Localize.Memory.Operations

/-!
# Translating strings

Every string is settled by the cheapest means: the memory of earlier runs, then the glossary for
strings that are exactly a term, then the translator, chunk by chunk. A string whose chunk has
failed keeps its own text; a string without a usable answer is answered with what was sent for it.
-/

namespace Localize.Batch

structure Result where
  translations : Table Text Json
  tokens : TokenCount
  chunkTokens : List (Nat × TokenCount)
  language : Text
  totalStrings : Nat
  fromMemory : Nat
  fromGlossary : Nat
  fromService : Nat
  failedStrings : Nat
  chunks : Nat
  failedChunks : Nat
  model : Json
  timestamp : Text

namespace Result

def languageRecord (r : Result) : Json :=
  .obj (Json.record [("code", .str r.language), ("name", .ofOption (Language.name? r.language))])

def tokensRecord (r : Result) : Json :=
  let chunk (p : Nat × TokenCount) : Json :=
    .obj (Json.record [("chunk", .nat p.1)] ++ p.2.fields)
  .obj (r.tokens.fields ++ Json.record [("chunks", .arr (r.chunkTokens.map chunk))])

def report (r : Result) : Json :=
  .obj (Json.record [("language", r.languageRecord), ("total_strings", .nat r.totalStrings),
    ("from_memory", .nat r.fromMemory), ("from_glossary", .nat r.fromGlossary),
    ("from_api", .nat r.fromService), ("failed_strings", .nat r.failedStrings),
    ("chunks", .nat r.chunks), ("failed_chunks", .nat r.failedChunks), ("model", r.model),
    ("timestamp", .str r.timestamp)])

end Result

/-- What a run works with and changes. -/
structure Workspace (σ : Type) where
  memory : Option Memory
  volume : Volume
  translator : σ

/-- Strings settled by the memory and those it does not have. -/
def lookUp {σ : Type} (w : Workspace σ) (now : Nat) (d : Memory.Direction) (strings : List Text) :
    Except Fault Memory.Lookups × Workspace σ :=
  match w.memory with
  | none => (.ok ⟨[], strings⟩, w)
  | some m =>
    let (result, m) := m.lookupAll now d strings
    (result, { w with memory := some m })

/-- Strings settled by the glossary, and the others as given and as sent. -/
def prepareFor (g : Option Glossary) (language : Text) (strings : List Text) :
    Except Fault Glossary.Preparation :=
  match g with
  | none => .ok ⟨[], strings, strings, []⟩
  | some g => if strings.isEmpty then .ok ⟨[], [], [], []⟩ else g.prepare language strings

/-- What has been collected from the chunks: strings that keep their text because their chunk
failed, answers by source text, source texts without an answer, and the counts. -/
structure Collection where
  kept : List Text
  answers : Table Text Text
  unanswered : List Text
  tokens : TokenCount
  chunkTokens : List (Nat × TokenCount)
  failedStrings : Nat
  failedChunks : Nat

namespace Collection

def empty : Collection := ⟨[], [], [], .zero, [], 0, 0⟩

/-- The usable answer to a string sent: a text that is not blank. -/
def usable? (translations : Fields) (sent : Text) : Option Text :=
  match Table.find? translations sent with
  | some (.str translated) => if Text.allBlank translated then none else some translated
  | _ => none

/-- The answer to one string sent; without a usable one the string itself. -/
def addAnswer (sourceOf : Table Text Text) (translations : Fields) (c : Collection)
    (sent : Text) : Collection :=
  let source := (Table.find? sourceOf sent).getD sent
  match usable? translations sent with
  | some translated => { c with answers := Table.insert c.answers source translated }
  | none =>
    { c with
      answers := Table.insert c.answers source sent
      unanswered := c.unanswered ++ [source] }

def addChunk (sourceOf : Table Text Text) (c : Collection) (r : ChunkResult) : Collection :=
  match r.translations with
  | none =>
    { c with
      kept := c.kept ++ r.texts.map fun sent => (Table.find? sourceOf sent).getD sent
      failedStrings := c.failedStrings + r.texts.length
      failedChunks := c.failedChunks + 1 }
  | some translations =>
    r.texts.foldl (addAnswer sourceOf translations)
      { c with
        tokens := c.tokens.add r.usage
        chunkTokens := c.chunkTokens ++ [(r.index + 1, r.usage)] }

def ofResults (sourceOf : Table Text Text) (results : List ChunkResult) : Collection :=
  results.foldl (addChunk sourceOf) empty

/-- The answers less those that only repeat what was sent. -/
def answered (c : Collection) (answers : Table Text Text) : Table Text Text :=
  answers.filter fun (source, _) => !c.unanswered.contains source

end Collection

def remember {σ : Type} (w : Workspace σ) (now : Nat) (d : Memory.Direction) (notes : Fields)
    (answers : List (Text × Text)) : Except Failure Unit × Workspace σ :=
  match w.memory with
  | none => (.ok (), w)
  | some m =>
    let (result, m, volume) :=
      m.storeAll now w.volume d notes (answers.map fun (source, t) => (source, .str t))
    (result, { w with memory := some m, volume })

structure Ending (σ : Type) where
  result : Except Failure Result
  trace : Trace
  workspace : Workspace σ

/-- What is known of a run when all that can be settled without the translator is settled. -/
structure Opening where
  request : Request
  checked : Checked
  total : Nat
  recalled : Memory.Lookups
  prepared : Glossary.Preparation

namespace Opening

def direction (o : Opening) : Memory.Direction :=
  ⟨o.request.options.sourceLanguage, .str o.checked.language⟩

def settled (o : Opening) : Table Text Json := Table.merge o.recalled.found o.prepared.finals

def sourceOf (o : Opening) : Table Text Text :=
  Table.ofPairs (o.prepared.sent.zip o.prepared.pending)

def notes (o : Opening) : Fields :=
  let options := o.request.options
  Json.record [("model", options.model), ("context", options.wording.context),
    ("tone", options.wording.tone)]

def course (o : Opening) (batches : Nat) : Course where
  language := o.checked.language
  languageName := (Language.name? o.checked.language).getD []
  prompt := Provider.systemPrompt o.checked.language o.request.options.wording
    (!o.prepared.reservations.isEmpty)
  pause := o.request.options.pause
  totalItems := o.prepared.sent.length
  totalBatches := batches

def result (o : Opening) (now : Nat) (translations : Table Text Json) (c : Collection)
    (chunks : Nat) : Result where
  translations := translations
  tokens := c.tokens
  chunkTokens := c.chunkTokens
  language := o.checked.language
  totalStrings := o.total
  fromMemory := o.recalled.found.length
  fromGlossary := o.prepared.finals.length
  fromService := o.prepared.sent.length
  failedStrings := c.failedStrings
  chunks := chunks
  failedChunks := c.failedChunks
  model := o.request.options.model
  timestamp := Calendar.timestamp now

/-- The translations of a run: those settled, the strings of failed chunks, and the answers. -/
def translations (o : Opening) (c : Collection) (answers : Table Text Text) : Table Text Json :=
  let kept := Table.merge o.settled (c.kept.map fun t => (t, .str t))
  Table.merge kept (answers.map fun (source, t) => (source, .str t))

/-- Ends a run: placeholders give way to final forms, and answers are stored. -/
def close {σ : Type} (o : Opening) (now : Nat) (trace : Trace) (chunks : Nat) (w : Workspace σ) :
    Ending σ :=
  let c := Collection.ofResults o.sourceOf trace.results
  match Glossary.restoreAll o.prepared.reservations c.answers with
  | .error fault => ⟨.error fault, trace, w⟩
  | .ok answers =>
    match remember w now o.direction o.notes (c.answered answers) with
    | (.error failure, w) => ⟨.error failure, trace, w⟩
    | (.ok (), w) => ⟨.ok (o.result now (o.translations c answers) c chunks), trace, w⟩

/-- Sends what is left to the translator and ends the run. -/
def send {σ : Type} (o : Opening) (t : Translator σ) (now : Nat) (w : Workspace σ) : Ending σ :=
  match t.prepare w.translator with
  | (.error failure, s) => ⟨.error failure, .empty, { w with translator := s }⟩
  | (.ok (), s) =>
    let chunks := chunksOf o.checked.chunkSize o.prepared.sent
    match run t (o.course chunks.length) chunks s with
    | (.error fault, trace, s) => ⟨.error fault, trace, { w with translator := s }⟩
    | (.ok (), trace, s) => o.close now trace chunks.length { w with translator := s }

end Opening

/-- Settles what can be settled without the translator. -/
def openRun {σ : Type} (g : Option Glossary) (now : Nat) (r : Request) (w : Workspace σ) :
    Except Failure Opening × Workspace σ :=
  match r.check with
  | .error failure => (.error failure, w)
  | .ok checked =>
    let strings := unique checked.strings
    match lookUp w now ⟨r.options.sourceLanguage, .str checked.language⟩ strings with
    | (.error fault, w) => (.error fault, w)
    | (.ok recalled, w) =>
      match prepareFor g checked.language recalled.missing with
      | .error fault => (.error fault, w)
      | .ok prepared => (.ok ⟨r, checked, strings.length, recalled, prepared⟩, w)

def translate {σ : Type} (t : Translator σ) (g : Option Glossary) (now : Nat) (r : Request)
    (w : Workspace σ) : Ending σ :=
  match openRun g now r w with
  | (.error failure, w) => ⟨.error failure, .empty, w⟩
  | (.ok o, w) =>
    if o.prepared.sent.isEmpty then ⟨.ok (o.result now o.settled .empty 0), .empty, w⟩
    else o.send t now w

end Localize.Batch
