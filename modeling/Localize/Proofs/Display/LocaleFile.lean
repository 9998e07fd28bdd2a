import Localize.Proofs.Display.Screen
import Localize.Proofs.Volume.Content

/-!
# Displays over a folder of locale files

Whatever the bytes of a locale file are, a display that turns to its language takes the object of
the file for its table, and an empty one if there is none. It can show its content in this language
unless the table has something that is no text for a text in the content. All that it shows is text
if and only if this holds of the attributes too.
-/

namespace Localize

open CommandLine (contentOf)

namespace Display

variable {v : Volume} {folder : Path} {language : Text} {bytes : ByteArray}
  {content : Content} {d : Display}

/-! ### Loading -/

theorem folderLoader_of_content? (h : v.content? (Locale.path folder language) = some content) :
    folderLoader v folder language = content.object? := by
  have hplace : v.place (Locale.path folder language) = .file content :=
    Volume.place_eq_file_iff.mpr h
  unfold folderLoader Locale.load Volume.readJson
  cases content with
  | bytes b => simp only [hplace, Content.object?]
  | text t =>
    simp only [hplace, Content.object?]
    cases Json.read t with
    | error reason => rfl
    | ok value => cases value <;> rfl

/-- The table of a language is the object that its file holds, and empty without one. -/
theorem tableOf_folderLoader (defaultLanguage : Text)
    (hfile : v.content? (Locale.path folder language) = some (contentOf bytes)) :
    (∀ fields, language ≠ defaultLanguage → EncodesObject bytes fields →
      tableOf defaultLanguage (folderLoader v folder) language = fields) ∧
    ((language = defaultLanguage ∨ ∀ fields, ¬EncodesObject bytes fields) →
      tableOf defaultLanguage (folderLoader v folder) language = []) := by
  unfold tableOf
  rw [folderLoader_of_content? hfile]
  constructor
  · intro fields hother hfields
    rw [if_neg hother, object?_contentOf_iff.mpr hfields, Option.getD_some]
  · rintro (hdefault | hnone)
    · rw [if_pos hdefault]
    · have hobject : (contentOf bytes).object? = none :=
        Option.eq_none_iff_forall_ne_some.mpr fun fields hfields =>
          hnone fields (object?_contentOf_iff.mp hfields)
      rw [hobject, Option.getD_none, ite_self]

/-! ### Showing -/

/-- What can be shown is shown key by key, and all of it is text exactly if the table is legible for
all content. -/
theorem apply_of_showable (hindex : Indexed d.index) (h : ∀ p ∈ d.index, Showable d.table p.2) :
    ∃ shown, d.apply = .ok shown ∧
      List.Forall₂ (fun p q => q.1 = p.1 ∧ Appears d.table p.2 q.2) d.index shown.values ∧
      ((∀ q ∈ shown.values, ∃ t, q.2 = .str t) ↔ ∀ p ∈ d.index, Legible d.table p.2) := by
  obtain ⟨shown, hshown, hvalues, -⟩ := ofTable_of_showable h hindex
  refine ⟨shown, hshown, hvalues, fun htexts p hp => ?_, fun hlegible q hq => ?_⟩
  · obtain ⟨q, hq, -, happears⟩ := exists_of_mem_left hvalues hp
    exact happears.legible_iff.mpr (htexts q hq)
  · obtain ⟨p, hp, -, happears⟩ := exists_of_mem_right hvalues hq
    exact happears.legible_iff.mp (hlegible p hp)

/-- It fails if and only if some piece cannot be shown, and always in the same way. -/
theorem apply_error_iff (hindex : Indexed d.index) {fault : Fault} :
    d.apply = .error fault ↔ fault = .wrongType ∧ ∃ p ∈ d.index, ¬Showable d.table p.2 := by
  by_cases h : ∀ p ∈ d.index, Showable d.table p.2
  · obtain ⟨shown, hshown, -⟩ := apply_of_showable hindex h
    rw [hshown]
    refine iff_of_false (fun herror => nomatch herror) ?_
    rintro ⟨-, p, hp, hnot⟩
    exact hnot (h p hp)
  · have hnot : ∃ p ∈ d.index, ¬Showable d.table p.2 := by simpa using h
    have herror : d.apply = .error .wrongType := ofTable_of_not_showable hnot hindex
    rw [herror, Except.error.injEq, eq_comm]
    exact (and_iff_left hnot).symm

theorem apply_ok_iff (hindex : Indexed d.index) :
    (∃ shown, d.apply = .ok shown) ↔ ∀ p ∈ d.index, Showable d.table p.2 := by
  constructor
  · rintro ⟨shown, hshown⟩ p hp
    by_contra hnot
    cases hshown.symm.trans ((apply_error_iff hindex).mpr ⟨rfl, p, hp, hnot⟩)
  · intro h
    obtain ⟨shown, hshown, -⟩ := apply_of_showable hindex h
    exact ⟨shown, hshown⟩

/-- Without a table everything is shown as it was at first. -/
theorem apply_of_table_nil (hindex : Indexed d.index) (htable : d.table = []) :
    ∃ shown, d.apply = .ok shown ∧
      List.Forall₂ (fun p q => q = (p.1, .str p.2.source)) d.index shown.values := by
  have htextual : Textual d.table := by
    rw [htable]
    exact fun p hp => absurd hp List.not_mem_nil
  obtain ⟨shown, hshown, hvalues, -⟩ := exists_ofTable htextual hindex
  refine ⟨shown, hshown, hvalues.imp ?_⟩
  rintro p q ⟨hkey, t, ht, hshows⟩
  rw [htable] at hshows
  exact Prod.ext hkey (ht.trans (congrArg _ hshows.eq_source))

/-- A display that turns to a language takes the object in the bytes of its file for the table, and
an empty table if there is none or the language is the default. All that it then shows is text if
and only if the table is legible for all content; an attribute for which it is not shows what the
table has. Nothing is shown if and only if the table is not legible for some text. With no object in
the bytes all first values are shown. -/
theorem change_of_bytes (defaultLanguage : Text) (acts : List (Loader × Act))
    (hfile : v.content? (Locale.path folder language) = some (contentOf bytes)) :
    let d := ((Screen.start defaultLanguage).run acts).display
    let r := d.change (folderLoader v folder) language
    let table := tableOf defaultLanguage (folderLoader v folder) language
    r.2 = { d with language, table } ∧
    (∀ fields, language ≠ defaultLanguage → EncodesObject bytes fields → table = fields) ∧
    ((∃ shown, r.1 = .ok shown ∧ ∀ q ∈ shown.values, ∃ t, q.2 = .str t) ↔
      ∀ p ∈ d.index, Legible table p.2) ∧
    (∀ shown, r.1 = .ok shown →
      List.Forall₂ (fun p q => q.1 = p.1 ∧ Appears table p.2 q.2) d.index shown.values) ∧
    (∀ fault, r.1 = .error fault ↔
      fault = .wrongType ∧ ∃ p ∈ d.index, ¬Showable table p.2) ∧
    ((language = defaultLanguage ∨ ∀ fields, ¬EncodesObject bytes fields) → table = [] ∧
      ∃ shown, r.1 = .ok shown ∧
        List.Forall₂ (fun p q => q = (p.1, .str p.2.source)) d.index shown.values) := by
  intro d r table
  have hdefault : d.defaultLanguage = defaultLanguage :=
    (Screen.settings_run defaultLanguage acts).1
  have hdisplay : r.2 = { d with language, table } := by
    change d.load _ _ = _
    rw [load, hdefault]
    rfl
  have hresult : r.1 = r.2.apply := rfl
  have hindex : Indexed r.2.index := (Screen.indexed_run defaultLanguage acts).1
  obtain ⟨hobject, hnone⟩ := tableOf_folderLoader defaultLanguage hfile
  have hshown : ∀ shown, r.1 = .ok shown →
      List.Forall₂ (fun p q => q.1 = p.1 ∧ Appears table p.2 q.2) d.index shown.values ∧
      ((∀ q ∈ shown.values, ∃ t, q.2 = .str t) ↔ ∀ p ∈ d.index, Legible table p.2) := by
    intro shown hok
    obtain ⟨shown', hok', hvalues, htexts⟩ :=
      apply_of_showable hindex ((apply_ok_iff hindex).mp ⟨shown, hok⟩)
    cases hok.symm.trans hok'
    rw [hdisplay] at hvalues htexts
    exact ⟨hvalues, htexts⟩
  refine ⟨hdisplay, hobject, ⟨?_, fun hlegible => ?_⟩, fun shown hok => (hshown shown hok).1,
    fun fault => ?_, fun hempty => ⟨hnone hempty, ?_⟩⟩
  · rintro ⟨shown, hok, htexts⟩
    exact (hshown shown hok).2.mp htexts
  · have hshowable : ∀ p ∈ r.2.index, Showable r.2.table p.2 := by
      rw [hdisplay]
      exact fun p hp => (hlegible p hp).showable
    obtain ⟨shown, hok⟩ := (apply_ok_iff hindex).mpr hshowable
    exact ⟨shown, hok, (hshown shown hok).2.mpr hlegible⟩
  · rw [hresult, apply_error_iff hindex, hdisplay]
  · have hempty' : r.2.table = [] := by
      rw [hdisplay]
      exact hnone hempty
    obtain ⟨shown, hok, hvalues⟩ := apply_of_table_nil hindex hempty'
    rw [hdisplay] at hvalues
    exact ⟨shown, hok, hvalues⟩

/-- A locale file with a number for the one text there is. -/
def numbered : Volume :=
  .ofEntries [("locales".toList, .folder [("es.json".toList,
    .file (contentOf "\x7b\"Hello\": 5\x7d".toUTF8))])]

def greeting : List (Loader × Act) :=
  [(folderLoader numbered (.ofText "locales".toList),
    .remember [.piece (.text (Json.lit "n1") "Hello".toList)])]

theorem change_of_bytes_numbered :
    let folder : Path := .ofText "locales".toList
    let bytes := "\x7b\"Hello\": 5\x7d".toUTF8
    numbered.content? (Locale.path folder "es".toList) = some (contentOf bytes) ∧
    EncodesObject bytes [("Hello".toList, .nat 5)] ∧
    (((Screen.start "en".toList).run greeting).display.change
      (folderLoader numbered folder) "es".toList).1 = .error .wrongType := by
  intro folder bytes
  have hfile : numbered.content? (Locale.path folder "es".toList) = some (contentOf bytes) := by
    decide +kernel
  have hobject : EncodesObject bytes [("Hello".toList, .nat 5)] :=
    ⟨"\x7b\"Hello\": 5\x7d".toList, congrArg String.toUTF8 String.ofList_toList.symm,
      by decide +kernel⟩
  obtain ⟨-, htable, -, -, hfault, -⟩ := change_of_bytes "en".toList greeting hfile
  refine ⟨hfile, hobject, (hfault _).mpr ⟨rfl, _, List.mem_singleton_self _, fun hlegible => ?_⟩⟩
  rw [htable _ (by decide) hobject] at hlegible
  obtain ⟨t, ht⟩ := hlegible (.nat 5) (by decide +kernel) rfl
  cases ht

end Display

end Localize
