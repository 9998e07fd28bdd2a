import Localize.Proofs.Json.Layout
import Localize.Proofs.Json.Sound
import Localize.Proofs.Volume.Atomic
import Localize.Source.Locale

/-!
# Locale files written and loaded

A locale file holds the document of its translations when it has been written, and from a file with
a document of an object the fields of the object are loaded. Translations that are texts are laid
out line by line and come back as they were, in their order, whatever their characters are; whether
a file can be written does not depend on them.
-/

namespace Localize.Locale

variable {v v' : Volume} {folder file p : Path} {language t : Text} {translations : Fields}

/-! ### Writing -/

/-- A locale file is written as the document at its path. -/
theorem write_ok_iff : write v folder language translations = (.ok file, v') ↔
    file = path folder language ∧
      v.writeJson (path folder language) (.obj translations) = (.ok (), v') := by
  unfold write
  rcases hwrite : v.writeJson (path folder language) (.obj translations) with ⟨outcome, v₁⟩
  cases outcome with
  | ok done => simp [hwrite, eq_comm]
  | error e => simp [hwrite]

theorem write_path (h : write v folder language translations = (.ok file, v')) :
    file = path folder language := (write_ok_iff.mp h).1

theorem written_of_write (hname : Path.IsName (Language.fileName language))
    (h : write v folder language translations = (.ok file, v')) :
    v.Written folder (Language.fileName language) (Json.obj translations).document
      (.ok () : Except Error Unit) v' :=
  Volume.written_writeJson hname (write_ok_iff.mp h).2

theorem exists_write {larger : Volume} (hname : Path.IsName (Language.fileName language))
    (hfree : v.FreeWithin larger) (hfile : (larger.content? (path folder language)).isSome)
    (translations : Fields) :
    ∃ v', write v folder language translations = (.ok (path folder language), v') ∧
      v'.FreeWithin larger := by
  obtain ⟨v', hwrite, hfree'⟩ := hfree.writeJson hname hfile (.obj translations)
  exact ⟨v', write_ok_iff.mpr ⟨rfl, hwrite⟩, hfree'⟩

/-- A locale file that is written is the only one that changes. -/
theorem content?_write (h : write v folder language translations = (.ok file, v'))
    (names : List Text) : v'.entries.content? names =
      if (path folder language).names? = some names then
        some (.text (Json.obj translations).document)
      else v.entries.content? names := by
  obtain ⟨-, hwrite⟩ := write_ok_iff.mp h
  rcases Volume.writeJson_cases v (path folder language) (.obj translations) with
    ⟨v₁, hdone, hfiles⟩ | ⟨e, v₁, hfailed, -⟩
  · cases hwrite.symm.trans hdone
    exact hfiles names
  · cases hwrite.symm.trans hfailed

theorem document_of_write (h : write v folder language translations = (.ok file, v')) :
    v'.content? file = some (.text (Json.obj translations).document) := by
  obtain ⟨rfl, hwrite⟩ := write_ok_iff.mp h
  exact Volume.content?_of_writeJson hwrite

/-! ### Loading -/

theorem load_of_content? (hfile : v.content? p = some (.text t))
    (hread : Json.read t = .ok (.obj translations)) : load v p = .ok translations := by
  have hjson := Volume.readJson_eq_some_iff.mpr ⟨t, hfile, hread⟩
  simp only [load, hjson]

/-- A locale file that has been written is loaded as it was written. -/
theorem load_write (h : write v folder language translations = (.ok file, v'))
    (hsound : (Json.obj translations).Sound) : load v' file = .ok translations :=
  load_of_content? (document_of_write h) (Json.read_document hsound)

/-! ### Mappings of texts -/

theorem sound_textFields {mapping : Table Text Text} (h : (Table.keys mapping).Nodup) :
    (Json.obj (Json.textFields mapping)).Sound := by
  refine .obj ?_ fun f hf => ?_
  · simpa [Json.textFields, Table.keys, Function.comp_def] using h
  · obtain ⟨p, -, rfl⟩ := List.mem_map.mp hf
    exact .str p.2

/-- A mapping from texts to texts is written as one document with a line for each of its pairs, and
from every file with this document it is loaded with the pairs in their order. A file that has been
written holds the document, and where any locale file can be written this one can. -/
theorem load_textFields {mapping : Table Text Text} (h : (Table.keys mapping).Nodup) :
    let document := (Json.obj (Json.textFields mapping)).document
    Json.Tabulates mapping document ∧
    Json.read document = .ok (.obj (Json.textFields mapping)) ∧
    (∀ v p, v.content? p = some (.text document) → load v p = .ok (Json.textFields mapping)) ∧
    ∀ v folder language,
      (∀ file v', write v folder language (Json.textFields mapping) = (.ok file, v') →
        file = path folder language ∧ v'.content? file = some (.text document) ∧
          load v' file = .ok (Json.textFields mapping)) ∧
      (v.CanWrite (path folder language) →
        ∃ v', write v folder language (Json.textFields mapping) =
          (.ok (path folder language), v')) := by
  have hsound := sound_textFields h
  have hread := Json.read_document hsound
  refine ⟨Json.tabulates_document mapping, hread, fun v p hfile => load_of_content? hfile hread,
    fun v folder language => ⟨fun file v' hwrite => ?_, fun hcan => ?_⟩⟩
  · exact ⟨write_path hwrite, document_of_write hwrite, load_write hwrite hsound⟩
  · obtain ⟨v', hwrite, -⟩ := hcan.writeJson (.obj (Json.textFields mapping))
    exact ⟨v', write_ok_iff.mpr ⟨rfl, hwrite⟩⟩

/-- Texts with each kind of escape, with characters that stand for themselves, and without any. -/
def allKinds : Table Text Text := [
  ("a \"b\" \\".toList, "\u2028é\u007f".toList),
  ([], "\x00\t\x1f".toList),
  ("c\nd".toList, [])]

theorem load_textFields_allKinds :
    let folder : Path := .ofText "out".toList
    (Table.keys allKinds).Nodup ∧ (Volume.ofEntries []).CanWrite (path folder "es".toList) ∧
    (Json.obj (Json.textFields allKinds)).document =
      ("\x7b\n  \"a \\\"b\\\" \\\\\": \"\u2028é\u007f\",\n" ++
        "  \"\": \"\\u0000\\t\\u001f\",\n  \"c\\nd\": \"\"\n\x7d\n").toList ∧
    ∃ v', write (.ofEntries []) folder "es".toList (Json.textFields allKinds) =
        (.ok (path folder "es".toList), v') ∧
      load v' (path folder "es".toList) = .ok (Json.textFields allKinds) := by
  intro folder
  have hkeys : (Table.keys allKinds).Nodup := by decide
  have hcan : (Volume.ofEntries []).CanWrite (path folder "es".toList) :=
    Volume.canWrite_of_isOk rfl (by decide +kernel)
  obtain ⟨-, -, -, hwrites⟩ := load_textFields hkeys
  obtain ⟨hload, hwrite⟩ := hwrites (.ofEntries []) folder "es".toList
  obtain ⟨v', hdone⟩ := hwrite hcan
  exact ⟨hkeys, hcan, by decide +kernel, v', hdone, (hload _ _ hdone).2.2⟩

end Localize.Locale
