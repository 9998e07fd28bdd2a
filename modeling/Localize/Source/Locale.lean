import Localize.Language
import Localize.Volume.Document

/-!
# Locale files

A locale file holds the translations of one language as one flat object, by source text.
-/

namespace Localize.Locale

def path (folder : Path) (language : Text) : Path := folder.child (Language.fileName language)

/-- The translations in a file; none where there is no file. -/
def load (v : Volume) (p : Path) : Except Failure Fields :=
  match v.readJson p with
  | .error failure => .error failure
  | .ok none => .ok []
  | .ok (some (.obj fields)) => .ok fields
  | .ok (some _) => .error (Error.localeNotObject p)

def write (v : Volume) (folder : Path) (language : Text) (translations : Fields) :
    Except Error Path × Volume :=
  let target := path folder language
  match v.writeJson target (.obj translations) with
  | (.ok (), v) => (.ok target, v)
  | (.error e, v) => (.error e, v)

end Localize.Locale
