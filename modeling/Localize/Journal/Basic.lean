import Localize.Journal.Logger
import Localize.Settings.File
import Localize.Text.Blank
import Localize.Text.Search
import Localize.Volume.Listing

/-!
# The journal

Loggers by name, in the order in which they were asked for, and the mode they share. The mode comes
from the environment, else from the settings, and is looked up once: whoever changes it calls
`refresh`, which looks it up again and adjusts the loggers of the library that have outlets.
-/

namespace Localize

open Journal

/-- The mode, once it is known, the loggers, and what the console shows. -/
structure Journal where
  knownMode : Option Json
  loggers : Table Text Logger
  console : Text

namespace Journal

def empty : Journal := ⟨none, [], []⟩

/-! ### The mode -/

/-- The mode that the environment or the settings ask for, with whether it is to be kept: the mode
of settings that cannot be read is not, and null is no mode to keep. -/
def askedMode (v : Volume) (env : Environment) : Json × Option Json :=
  match env.value? "POLYGOT_LOG_MODE".toList with
  | some given =>
    let mode := Json.str (Text.lower (Text.strip given))
    (mode, some mode)
  | none =>
    match Settings.load v (Settings.path env) with
    | .ok settings =>
      let mode := (Table.find? settings "log_mode".toList).getD (Json.lit "info")
      (mode, if mode = .null then none else some mode)
    | .error _ => (Json.lit "info", none)

def mode (j : Journal) (v : Volume) (env : Environment) : Json × Journal :=
  match j.knownMode with
  | some mode => (mode, j)
  | none =>
    let (mode, knownMode) := askedMode v env
    (mode, { j with knownMode })

def forgetMode (j : Journal) : Journal := { j with knownMode := none }

/-! ### The file -/

def folder : Path := .ofText ".polygot/logs".toList

def file : Path := folder.child "polygot.log".toList

/-- Opens the file, which is made where it is missing. -/
def openFile (v : Volume) : Except Fault Volume :=
  match v.makeFolder? folder with
  | none => .error (if v.has folder then .nameTaken else .notFolder)
  | some v =>
    match v.place file with
    | .file _ => .ok v
    | .folder _ => .error .isFolder
    | .missing | .throughFile => .ok (v.put file (some (.text [])))

def appendLine (v : Volume) (line : Text) : Volume :=
  match v.content? file with
  | some (.text t) => v.put file (some (.text (t ++ line)))
  | some (.bytes b) => v.put file (some (.bytes (b ++ (String.ofList line).toUTF8.toList)))
  | none => v

/-! ### Loggers -/

def setLogger (j : Journal) (name : Text) (l : Logger) : Journal :=
  { j with loggers := Table.insert j.loggers name l }

def adjust (j : Journal) (v : Volume) (mode : Json) (name : Text) (l : Logger) :
    Except Fault Unit × Journal × Volume :=
  if l.opensFile mode then
    match openFile v with
    | .ok v => (.ok (), j.setLogger name (l.adjusted mode), v)
    | .error fault => (.error fault, j.setLogger name { l with level := levelOf mode }, v)
  else (.ok (), j.setLogger name (l.adjusted mode), v)

/-- Makes the outlets of a logger that has none. -/
def equip (j : Journal) (v : Volume) (mode : Json) (name : Text) :
    Except Fault Unit × Journal × Volume :=
  if isOff mode then (.ok (), j.setLogger name (.ofMode mode), v)
  else
    match openFile v with
    | .ok v => (.ok (), j.setLogger name (.ofMode mode), v)
    | .error fault => (.error fault, j, v)

/-- Asks for a logger: one that has outlets is adjusted to the mode, any other gets its outlets. -/
def get (j : Journal) (v : Volume) (env : Environment) (name : Text) :
    Except Fault Unit × Journal × Volume :=
  let (mode, j) := j.mode v env
  match Table.find? j.loggers name with
  | some ⟨level, first :: rest⟩ => j.adjust v mode name ⟨level, first :: rest⟩
  | _ => j.equip v mode name

def isOwn (name : Text) : Bool := Text.startsWith "polygot".toList name

def adjustAll (v : Volume) (mode : Json) (j : Journal) :
    List (Text × Logger) → Except Fault Unit × Journal × Volume
  | [] => (.ok (), j, v)
  | (name, l) :: rest =>
    if l.outlets.isEmpty || !isOwn name then adjustAll v mode j rest
    else
      match j.adjust v mode name l with
      | (.ok (), j, v) => adjustAll v mode j rest
      | (.error fault, j, v) => (.error fault, j, v)

/-- Looks the mode up again and adjusts the library's loggers. -/
def refresh (j : Journal) (v : Volume) (env : Environment) :
    Except Fault Unit × Journal × Volume :=
  let (mode, j) := j.forgetMode.mode v env
  adjustAll v mode j j.loggers

/-- Saves settings and looks the mode up again. -/
def saveSettings (j : Journal) (v : Volume) (env : Environment) (settings : Json) :
    Except Failure Unit × Journal × Volume :=
  match Settings.save v env settings with
  | (.error e, v) => (.error e, j, v)
  | (.ok (), v) =>
    match j.refresh v env with
    | (.ok (), j, v) => (.ok (), j, v)
    | (.error fault, j, v) => (.error fault, j, v)

/-! ### Records -/

/-- A record as it is written. -/
def line (name : Text) (level : Level) (message : Text) : Text :=
  name ++ " - ".toList ++ levelName level ++ " - ".toList ++ message ++ ['\n']

/-- Hands a written record to outlets. -/
def emit (j : Journal) (v : Volume) (level : Level) (written : Text) :
    List Outlet → Journal × Volume
  | [] => (j, v)
  | outlet :: rest =>
    if outlet.threshold ≤ level then
      match outlet with
      | .file => emit j (appendLine v written) level written rest
      | .console _ => emit { j with console := j.console ++ written } v level written rest
    else emit j v level written rest

/-- A name and the names above it, dots standing between the parts of a name. -/
def namesUpward (name : Text) : List Text :=
  let parts := Text.splitOn '.' name
  (List.range parts.length).map fun n => Text.join ['.'] (parts.take (parts.length - n))

/-- The logger of a name, or of the nearest name above it that has one. -/
def loggerFor? (j : Journal) (name : Text) : Option Logger :=
  (namesUpward name).findSome? (Table.find? j.loggers)

/-- Logs a message. Without any outlet a warning still reaches the console, bare. -/
def log (j : Journal) (v : Volume) (name : Text) (level : Level) (message : Text) :
    Journal × Volume :=
  let l := (j.loggerFor? name).getD ⟨warningLevel, []⟩
  if level < l.level then (j, v)
  else if l.outlets.isEmpty then
    if level < warningLevel then (j, v)
    else ({ j with console := j.console ++ message ++ ['\n'] }, v)
  else j.emit v level (line name level message) l.outlets

end Journal

end Localize
