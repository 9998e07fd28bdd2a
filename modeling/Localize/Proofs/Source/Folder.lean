import Localize.Proofs.Outcome
import Localize.Proofs.Text.Order
import Localize.Proofs.Volume.Writing
import Localize.Source.Strings

/-!
# Pages that are left as they are

Making folders and putting a file that is no page leaves every page where it is listed, even when the
file is put into the folder of the pages. Where every page is listed as before and reads as before, a
source that can be read gives the strings that it gave.
-/

namespace Localize

open Entries

/-! ### Names of pages -/

namespace Source

variable {entries entries' inner inner' : Entries} {name : Text} {names above : List Text}
  {v v' : Volume} {p : Path} {source : Source} {s : Selection} {found : List Text}

/-! ### Pages of a folder -/

theorem flatMap_nonempty {α β : Type} (lists : List (β × List α)) :
    (lists.filter fun l => !l.2.isEmpty).flatMap (·.2) = lists.flatMap (·.2) := by
  induction lists with
  | nil => rfl
  | cons l lists ih =>
    rw [List.filter_cons, List.flatMap_cons, ← ih]
    cases hl : l.2 with
    | nil => simp
    | cons a rest => simp [hl]

/-- Entries without pages do not matter to a listing. -/
theorem inOrder_nonempty {α : Type} (lists : List (Text × List α)) :
    inOrder (lists.filter fun l => !l.2.isEmpty) = inOrder lists := by
  rw [inOrder, sortByName_filter, flatMap_nonempty, inOrder]

/-- The same pages are under the same names in both folders, in the same order. -/
def SamePages (entries entries' : Entries) : Prop :=
  ∀ path, (pagesByName path entries').filter (fun l => !l.2.isEmpty) =
    (pagesByName path entries).filter fun l => !l.2.isEmpty

theorem SamePages.inOrder (h : SamePages entries entries') (path : Path) :
    inOrder (pagesByName path entries') = Source.inOrder (pagesByName path entries) := by
  rw [← inOrder_nonempty, h path, inOrder_nonempty]

theorem SamePages.pagesOf (h : SamePages entries entries') (path : Path) :
    pagesOf path (.folder entries') = Source.pagesOf path (.folder entries) := by
  rw [Source.pagesOf, Source.pagesOf, h.inOrder path]

/-- Every folder is still there and has the same pages. -/
def PagesKept (entries entries' : Entries) : Prop :=
  ∀ names inner, entries.place names = .folder inner →
    ∃ inner', entries'.place names = .folder inner' ∧ SamePages inner inner'

theorem PagesKept.refl (entries : Entries) : PagesKept entries entries :=
  fun _ inner h => ⟨inner, h, fun _ => rfl⟩

theorem PagesKept.trans {entries'' : Entries} (h : PagesKept entries entries')
    (h' : PagesKept entries' entries'') : PagesKept entries entries'' := by
  intro names inner hplace
  obtain ⟨inner', hplace', hsame⟩ := h names inner hplace
  obtain ⟨inner'', hplace'', hsame'⟩ := h' names inner' hplace'
  exact ⟨inner'', hplace'', fun path => (hsame' path).trans (hsame path)⟩

/-- Every folder has the pages it had, and every page reads as it did. -/
structure Kept (v v' : Volume) : Prop where
  listed : PagesKept v.entries v'.entries
  content : ∀ p, isPage p = true → v'.content? p = v.content? p

theorem Kept.pages (h : Kept v v') {paths : List Path} (hpages : pages v p = .ok paths) :
    pages v' p = .ok paths ∧ v'.isFolder p = true := by
  unfold Source.pages Volume.isFolder Volume.place at *
  cases hnames : p.names? with
  | none =>
    rw [hnames] at hpages
    cases hpages
  | some names =>
    rw [hnames] at hpages
    simp only at hpages ⊢
    split at hpages
    · next inner hplace =>
      obtain ⟨inner', hplace', hsame⟩ := h.listed names inner hplace
      simp only [hplace']
      rw [hsame.inOrder]
      exact ⟨hpages, trivial⟩
    · cases hpages

theorem Kept.read (h : Kept v v') (p : Path) : read v' p = Source.read v p := by
  unfold Source.read
  split_ifs with hpage
  · have hplace (content : Content) : v'.place p = .file content ↔ v.place p = .file content := by
      rw [Volume.place_eq_file_iff, Volume.place_eq_file_iff, h.content p hpage]
    split
    · next t hp => rw [(hplace _).mp hp]
    · next hp =>
      split
      · next t hp' => exact absurd ((hplace _).mpr hp') (hp t)
      · rfl
  · rfl

theorem Kept.readableStrings (h : Kept v v') (s : Selection) (paths : List Path) :
    readableStrings v' s paths = Source.readableStrings v s paths := by
  induction paths with
  | nil => rfl
  | cons p paths ih => rw [Source.readableStrings, Source.readableStrings, h.read, ih]

/-- A page that can be read is a file, and not a folder. -/
theorem isFile_of_read {page : Text} (h : read v p = .ok page) :
    v.isFile p = true ∧ v.isFolder p = false := by
  unfold read at h
  unfold Volume.isFile Volume.isFolder
  split_ifs at h
  split at h
  · next hplace => simp [hplace]
  · cases h

/-- A source that can be read gives the same strings. -/
theorem Kept.strings (h : Kept v v') (hstrings : source.strings v s = .ok found) :
    source.strings v' s = .ok found := by
  unfold Source.strings at *
  cases hpath : source.path? with
  | none =>
    rw [hpath] at hstrings
    cases hstrings
  | some p =>
    simp only [hpath] at hstrings ⊢
    split_ifs at hstrings
    · cases hpages : Source.pages v p with
      | error e =>
        rw [folderStrings, hpages] at hstrings
        cases hstrings
      | ok paths =>
        obtain ⟨hpages', hfolder⟩ := h.pages hpages
        rw [if_pos hfolder, folderStrings, hpages', ← hstrings, folderStrings, hpages]
        simp only [h.readableStrings]
    · cases hread : Source.read v p with
      | error e =>
        rw [pageStrings, hread] at hstrings
        cases hstrings
      | ok page =>
        have hread' : Source.read v' p = .ok page := (h.read p).trans hread
        obtain ⟨hfile, hfolder⟩ := isFile_of_read hread'
        rw [hfolder, if_neg (by simp), if_pos hfile, ← hstrings, pageStrings, pageStrings, hread,
          hread']

/-! ### The order of the strings -/

theorem Selection.pairwise_strings {page : Text} (h : s.strings page = .ok found) :
    found.Pairwise (· < ·) := by
  obtain ⟨selectors, -, h⟩ := bind_ok_iff.mp h
  obtain ⟨names, -, h⟩ := bind_ok_iff.mp h
  cases h
  exact Text.pairwise_sortedSet _

theorem pairwise_pageStrings (h : pageStrings v s p = .ok found) : found.Pairwise (· < ·) := by
  unfold pageStrings at h
  split at h
  · cases h
  · split at h
    · next hstrings =>
      cases h
      exact Selection.pairwise_strings hstrings
    · cases h

theorem pairwise_folderStrings (h : folderStrings v s p = .ok found) :
    found.Pairwise (· < ·) := by
  unfold folderStrings at h
  split at h
  · cases h
  · split at h
    · cases h
      exact Text.pairwise_sortedSet _
    · cases h

/-- The strings of a source are in strict order. -/
theorem pairwise_strings (h : source.strings v s = .ok found) : found.Pairwise (· < ·) := by
  unfold Source.strings at h
  split at h
  · cases h
  · split_ifs at h
    · exact pairwise_folderStrings h
    · exact pairwise_pageStrings h

end Source

end Localize
