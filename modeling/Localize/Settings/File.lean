import Localize.Settings.Basic
import Localize.Volume.Document

/-!
# The settings file

The file lies in the project's folder unless the environment names another one. A file that is not
there, cannot be opened, or holds no JSON object leaves the defaults in force.
-/

namespace Localize

/-- The variables of the environment. -/
abbrev Environment := Table Text Text

/-- A variable that is set and not empty. -/
def Environment.value? (env : Environment) (name : Text) : Option Text :=
  match Table.find? env name with
  | some value => if value.isEmpty then none else some value
  | none => none

namespace Settings

/-- Where the settings are kept. -/
def path (env : Environment) : Path :=
  match env.value? "POLYGOT_CONFIG".toList with
  | some given => .ofText given
  | none => .ofText ".polygot/config.json".toList

/-- Reads the settings; bytes that encode no text end the operation. -/
def load (v : Volume) (p : Path) : Except Fault Settings :=
  match v.place p with
  | .file (.text t) =>
    match Json.read t with
    | .ok (.obj fields) => .ok (ofFields fields)
    | _ => .ok default
  | .file (.bytes _) => .error .notText
  | _ => .ok default

def save (v : Volume) (env : Environment) (settings : Json) : Except Error Unit × Volume :=
  v.writeJson (path env) settings

/-- Writes the defaults to a file, or to the usual one where the name given is empty. -/
def create (v : Volume) (env : Environment) (given : Option Text) :
    Except Error Path × Volume :=
  let target := match given with
    | some t => if t.isEmpty then path env else .ofText t
    | none => path env
  match v.writeJson target (.obj default) with
  | (.ok (), v) => (.ok target, v)
  | (.error e, v) => (.error e, v)

end Settings

end Localize
