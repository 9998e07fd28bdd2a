import Localize.Error
import Localize.Json.Printer
import Localize.Json.Reader
import Localize.Volume.Basic

/-!
# JSON documents on a volume

A missing document is not an error: the reader decides what it means. Any other document that cannot
be read is an error, except that bytes which encode no text end the operation.
-/

namespace Localize.Volume

/-- The value of a document; none when there is no such file. -/
def readJson (v : Volume) (p : Path) : Except Failure (Option Json) :=
  match v.place p with
  | .missing => .ok none
  | .throughFile | .folder _ => .error (Error.unreadable p)
  | .file (.bytes _) => .error Fault.notText
  | .file (.text t) =>
    match Json.read t with
    | .ok value => .ok (some value)
    | .error reason => .error (Error.notJson p reason)

def writeJson (v : Volume) (p : Path) (value : Json) : Except Error Unit × Volume :=
  match v.replaceFile p value.document with
  | (.ok (), v) => (.ok (), v)
  | (.error .notPrepared, v) => (.error (.writeNotPrepared p), v)
  | (.error .notWritten, v) => (.error (.writeFailed p), v)

end Localize.Volume
