import Localize.Command.Style
import Localize.Glossary.Basic
import Localize.Memory.Operations
import Localize.Settings.Key

/-!
# Sessions

A session is what a command finds and leaves: the working folder, the clock, the environment, the
other side of its exchanges, the lines it may read and those it has printed. An action changes the
session and gives a value, or stops the command; what has been printed and written until then stays.
-/

namespace Localize.Command

/-- A printed line: a text, or the cells of a row of a grid. -/
inductive Line where
  | text (t : Text)
  | row (cells : List Text)
  deriving Repr

/-- Why a command stops: it ends with a code, a question has met the end of the input, or a value
has not the shape that its use needs. -/
inductive Stop where
  | exit (code : Nat)
  | unanswered
  | fault (f : Fault)
  deriving Repr

structure Session (ε : Type) where
  volume : Volume
  now : Nat
  env : Environment
  endpoint : ε
  input : List Text
  printed : List Line
  waits : List Nat

/-- A step of a command. -/
abbrev Action (ε α : Type) := ExceptT Stop (StateM (Session ε)) α

variable {ε α : Type}

/-! ### Results -/

/-- The value of something that can only meet a fault. -/
def orFault (result : Except Fault α) : Action ε α :=
  match result with
  | .ok value => pure value
  | .error fault => throw (.fault fault)

/-- Prints a text as it is, line by line. -/
def echo (t : Text) : Action ε Unit :=
  modify fun s => { s with printed := s.printed ++ (Text.splitOn '\n' t).map .text }

/-- Prints a text with styles. -/
def say (t : Text) : Action ε Unit := do echo (← orFault (Style.plain t))

/-- Shows a passing text of which nothing is kept; its styles have to make sense all the same. -/
def checkStyles (t : Text) : Action ε Unit := do
  let _ ← orFault (Style.plain t)

def sayWith (t : String) (value : Text) : Action ε Unit := say (t.toList ++ value)

def fail (e : Error) : Action ε α := do
  sayWith "[red]Error:[/red] " e.message
  throw (.exit 1)

def orFail (result : Except Failure α) : Action ε α :=
  match result with
  | .ok value => pure value
  | .error (.error e) => fail e
  | .error (.fault fault) => throw (.fault fault)

def onVolume (f : Nat → Volume → Except Failure α × Volume) : Action ε α := do
  let s ← get
  let (result, volume) := f s.now s.volume
  set { s with volume }
  orFail result

/-! ### Grids -/

/-- The lines that a row takes, a cell with line breaks taking several. -/
def rowLines (cells : List Text) : List (List Text) :=
  let columns := cells.map (Text.splitOn '\n')
  let height := (columns.map List.length).foldl max 0
  (List.range height).map fun i => columns.map fun column => (column[i]?).getD []

def sayGrid (title : String) (names : List String) (rows : List (List Text)) : Action ε Unit := do
  let rows ← orFault (rows.mapM fun cells => cells.mapM Style.plain)
  let lines := names.map String.toList :: rows.flatMap rowLines
  modify fun s => { s with printed := s.printed ++ .text title.toList :: lines.map .row }

/-- A value as a cell; it has to be a text. -/
def cellOf (value : Json) : Except Fault Text :=
  match value with
  | .str t => .ok t
  | _ => .error .notPrintable

/-! ### Settings and stores -/

/-- The settings in the file of a path, or in the usual one. -/
def settings (given : Option Path) : Action ε Settings := do
  let s ← get
  orFault (Settings.load s.volume (given.getD (Settings.path s.env)))

/-- A field of a section that has to be an object. -/
def fieldOf (settings : Settings) (group name : String) : Except Fault Json :=
  match Table.find? settings group.toList with
  | some (.obj fields) =>
    match Table.find? fields name.toList with
    | some value => .ok value
    | none => .error (.noField name.toList)
  | _ => .error .wrongType

def pathOf (value : Json) : Except Fault Path :=
  match value with
  | .str t => .ok (.ofText t)
  | _ => .error .wrongType

/-- A whole number that a document gives in some form. -/
def countOf (value : Json) : Except Fault Int :=
  if value.isSomething then
    match value with
    | .int i => .ok i
    | .bool _ => .ok 1
    | _ => .error .wrongType
  else .ok 0

def openGlossary (settings : Settings) : Action ε Glossary := do
  let path ← orFault do
    match ← fieldOf settings "storage" "glossary_path" with
    | .null => return none
    | value => return some (← pathOf value)
  onVolume fun now v =>
    match (Glossary.empty path).start now v with
    | (.ok (), g, v) => (.ok g, v)
    | (.error failure, _, v) => (.error failure, v)

def openMemory (settings : Settings) : Action ε Memory := do
  let folder ← orFault (do pathOf (← fieldOf settings "storage" "memory_dir"))
  let autosave ← orFault (do countOf (← fieldOf settings "storage" "memory_autosave_every"))
  onVolume fun now v =>
    match (Memory.empty folder Memory.shortDigest autosave).start now v with
    | (.ok (), m, v) => (.ok m, v)
    | (.error failure, _, v) => (.error failure, v)

/-! ### Questions -/

/-- Asks a question until a line answers it with yes or no. Everything but yes stops the command. -/
def confirmBy (question : Text) : List Text → Action ε Unit
  | [] => do
    echo (question ++ " [y/N]:".toList)
    throw .unanswered
  | line :: rest => do
    echo (question ++ " [y/N]: ".toList ++ line)
    modify fun s => { s with input := rest }
    let answer := Text.strip (Text.lower line)
    if answer = "y".toList || answer = "yes".toList then return
    if answer = "n".toList || answer = "no".toList || answer.isEmpty then throw (.exit 1)
    echo "Error: invalid input".toList
    confirmBy question rest

def confirm (question : String) : Action ε Unit := do confirmBy question.toList (← get).input

end Localize.Command
