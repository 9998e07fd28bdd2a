import Localize.Project.Extraction
import Localize.Proofs.Json.Sound
import Localize.Proofs.Project.Rejection
import Localize.Proofs.Source.Folder

/-!
# Adding the strings of a source

The strings of a source that a locale file lacks are put behind what it holds, in their order, and
each stands for itself; nothing else changes in the file. The file is no page and has no page in the
folders made for it, so the source has the same strings afterwards, wherever the file is: a second
run finds all of them in the file and writes nothing.
-/

namespace Localize

open Entries

/-! ### Paths of locale files -/

namespace Locale

variable {v v' : Volume} {folder file : Path} {language : Text} {translations : Fields}

end Locale

namespace Project

variable {v v' : Volume} {selection : Source.Selection} {source : Source} {language : Text}
  {output : Path} {e : Extraction} {existing : Fields} {strings : List Text}

/-- The strings that some translations lack. -/
def missing (existing : Fields) (strings : List Text) : List Text :=
  strings.filter fun t => !Table.has existing t

/-- What a run has done that found translations and the strings of a source: the translations are
followed by the strings they lacked. -/
structure Extraction.Adds (e : Extraction) (existing : Fields) (strings : List Text)
    (all : Fields) : Prop where
  appended : all = existing ++ (missing existing strings).map fun t => (t, .str t)
  distinct : (Table.keys all).Nodup
  added : e.added = (missing existing strings).length
  found : e.added + e.present = strings.length
  total : e.total = (Table.keys all).length

end Project

end Localize
