import Localize.Source.Locale
import Localize.Source.Strings

/-!
# Extracting into a locale file

The strings of a source are added to the locale file of its language, each as its own translation.
What the file holds already stays as it is, and a file that lacks nothing is not written.
-/

namespace Localize.Project

/-- What has become of the strings of a source. -/
structure Extraction where
  file : Path
  language : Text
  added : Nat
  present : Nat
  total : Nat

def Extraction.message (e : Extraction) : Text :=
  if e.added = 0 then "No new strings found - all strings already exist".toList
  else "Added ".toList ++ Text.ofNat e.added ++ " new strings".toList

/-- Translations with further strings that stand for themselves. -/
def addIdentities (translations : Fields) (strings : List Text) : Fields :=
  Table.merge translations (strings.map fun t => (t, .str t))

/-- Adds the strings of a source to the locale file of its language. -/
def extract (v : Volume) (selection : Source.Selection) (source : Source) (language : Text)
    (output : Path) : Except Failure Extraction × Volume :=
  if language.isEmpty then (.error (Error.emptyArgument "source_language"), v)
  else
    let file := Locale.path output language
    match Locale.load v file with
    | .error failure => (.error failure, v)
    | .ok existing =>
      match source.strings v selection with
      | .error failure => (.error failure, v)
      | .ok strings =>
        let added := strings.filter fun t => !Table.has existing t
        let present := strings.length - added.length
        if added.isEmpty then (.ok ⟨file, language, 0, present, existing.length⟩, v)
        else
          let all := addIdentities existing added
          match Locale.write v output language all with
          | (.error e, v) => (.error e, v)
          | (.ok _, v) => (.ok ⟨file, language, added.length, present, all.length⟩, v)

end Localize.Project
