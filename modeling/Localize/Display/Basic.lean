import Localize.Display.Piece
import Localize.Source.Locale

/-!
# Displays

A display remembers the first value of every piece of content it has met and shows all of them in
one language at a time. A table that cannot be loaded is taken to be empty, so first values are
shown.
-/

namespace Localize

open Display

/-- The language of a display, its table, and the content met so far by key. -/
structure Display where
  defaultLanguage : Text
  language : Text
  table : Fields
  index : Table Key Piece

namespace Display

/-- The table of a language, if there is one that can be used. -/
abbrev Loader := Text → Option Fields

/-- The tables in a folder of locale files. -/
def folderLoader (v : Volume) (folder : Path) : Loader := fun language =>
  match Locale.load v (Locale.path folder language) with
  | .ok fields => some fields
  | .error _ => none

def empty (defaultLanguage : Text) : Display := ⟨defaultLanguage, defaultLanguage, [], []⟩

/-- Remembers content that is new and not blank; gives the number of pieces added. -/
def remember (d : Display) (count : Nat) : List Reference → Except Fault Nat × Display
  | [] => (.ok count, d)
  | .other _ :: _ => (.error .noMember, d)
  | .piece c :: rest =>
    if Text.allBlank c.source || Table.has d.index c.key then remember d count rest
    else remember { d with index := Table.insert d.index c.key c } (count + 1) rest

/-- Turns to a language and loads its table; the default language has none. -/
def load (loader : Loader) (d : Display) (language : Text) : Display :=
  { d with
    language
    table := if language = d.defaultLanguage then [] else (loader language).getD [] }

def apply (d : Display) : Except Fault Shown :=
  Shown.ofTable d.table (d.index.values.map .piece)

def change (loader : Loader) (d : Display) (language : Text) : Except Fault Shown × Display :=
  let d := d.load loader language
  (d.apply, d)

/-- Remembers content and shows everything again if some of it was new. -/
def added (d : Display) (content : List Reference) : Except Fault (Option Shown) × Display :=
  match d.remember 0 content with
  | (.error fault, d) => (.error fault, d)
  | (.ok 0, d) => (.ok none, d)
  | (.ok _, d) => (d.apply.map some, d)

end Display

end Localize
