import Localize.Json.Basic

/-!
# Loggers

A logger lets records of a certain weight pass and hands them to its outlets, each of which has a
threshold of its own. The mode of the journal decides both: `debug` lets everything pass, `off`
nothing, and any other mode all but the lightest records.
-/

namespace Localize.Journal

/-- The weight of a record. -/
abbrev Level := Nat

def debugLevel : Level := 10

def infoLevel : Level := 20

def warningLevel : Level := 30

/-- Above the heaviest record. -/
def silentLevel : Level := 51

/-- How a weight is named in the journal. -/
def levelName (level : Level) : Text :=
  match level with
  | 10 => "DEBUG".toList
  | 20 => "INFO".toList
  | 30 => "WARNING".toList
  | 40 => "ERROR".toList
  | 50 => "CRITICAL".toList
  | other => "Level ".toList ++ Text.ofNat other

/-- The weight that passes in a mode. -/
def levelOf (mode : Json) : Level :=
  if mode = Json.lit "debug" then debugLevel
  else if mode = Json.lit "off" then silentLevel
  else infoLevel

def isOff (mode : Json) : Bool := mode = Json.lit "off"

/-- Where records go: the journal's file, which takes every weight, or the console from a weight
on. -/
inductive Outlet where
  | file
  | console (threshold : Level)
  deriving DecidableEq, Repr

namespace Outlet

def threshold : Outlet → Level
  | file => debugLevel
  | console threshold => threshold

def adjusted (level : Level) : Outlet → Outlet
  | file => file
  | console _ => console level

end Outlet

/-- A logger with its outlets in the order in which records reach them. -/
structure Logger where
  level : Level
  outlets : List Outlet
  deriving DecidableEq, Repr

namespace Logger

def hasFile (l : Logger) : Bool := l.outlets.contains .file

/-- A logger without outlets in a mode. -/
def bare (mode : Json) : Logger := ⟨levelOf mode, []⟩

/-- A logger made in a mode: silent, or with a file and the console. -/
def ofMode (mode : Json) : Logger :=
  if isOff mode then bare mode else ⟨levelOf mode, [.file, .console (levelOf mode)]⟩

/-- Whether a change to a mode opens the file. -/
def opensFile (mode : Json) (l : Logger) : Bool := !isOff mode && !l.hasFile

/-- The logger in another mode, a file that is missing or not wanted added or removed. -/
def adjusted (mode : Json) (l : Logger) : Logger :=
  let outlets :=
    if isOff mode then l.outlets.filter (· ≠ .file)
    else if l.hasFile then l.outlets
    else l.outlets ++ [.file]
  ⟨levelOf mode, outlets.map (Outlet.adjusted (levelOf mode))⟩

end Logger

end Localize.Journal
