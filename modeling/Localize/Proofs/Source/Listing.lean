import Localize.Proofs.Source.Folder
import Mathlib.Data.List.TakeWhile

/-!
# What a listing holds

In a folder whose entries have distinct names, at every depth, the pages listed are exactly the files
with the extension of a page that are reached past no folder that is passed over. Each of them is
listed once, in the order of their paths name by name, so what is in the folder `a` stands before the
file `a.html`. The strings of the folder are those of the listed pages that can be read, and a page that
cannot be read takes none away from the others.
-/

namespace Localize

/-! ### Folders with proper entries -/

namespace Entries

/-- At every depth the entries have names, and no two of them the same. -/
def Proper (entries : Entries) : Prop :=
  ∀ names inner, entries.place names = .folder inner →
    (Table.keys inner).Nodup ∧ ∀ name ∈ Table.keys inner, Path.IsName name

variable {entries inner : Entries} {name : Text} {names above : List Text} {content : Content}

theorem Proper.nodup (h : entries.Proper) : (Table.keys entries).Nodup := (h [] entries rfl).1

theorem Proper.isName (h : entries.Proper) (hname : name ∈ Table.keys entries) : Path.IsName name :=
  (h [] entries rfl).2 name hname

theorem Proper.below (h : entries.Proper) (hfind : Table.find? entries name = some (.folder inner)) :
    Proper inner := by
  intro names deeper hplace
  refine h (name :: names) deeper ?_
  rw [place, hfind]
  exact hplace

/-- The entries are proper if their names are and what is in each folder is. -/
theorem proper_of_entries (hnodup : (Table.keys entries).Nodup)
    (hnames : ∀ name ∈ Table.keys entries, Path.IsName name)
    (hinner : ∀ name inner, (name, Tree.folder inner) ∈ entries → Proper inner) :
    entries.Proper := by
  intro names deeper hplace
  cases names with
  | nil =>
    cases hplace
    exact ⟨hnodup, hnames⟩
  | cons name names =>
    obtain ⟨inner, hfind, -⟩ := exists_folder_of_hasFolder ⟨deeper, hplace⟩
    rw [place, hfind] at hplace
    exact hinner name inner (Table.mem_of_find? hfind) names deeper hplace

/-- What holds of a folder if it holds of the folders in it holds of every folder. -/
theorem induction {motive : Entries → Prop}
    (step : ∀ entries : Entries, (∀ name inner, (name, Tree.folder inner) ∈ entries → motive inner) →
      motive entries) (entries : Entries) : motive entries := by
  refine step entries fun name inner hmem => ?_
  have hentry : sizeOf (name, Tree.folder inner) < sizeOf entries := List.sizeOf_lt_of_mem hmem
  have hinner : sizeOf inner < sizeOf (name, Tree.folder inner) := by simp; omega
  exact induction step inner
termination_by sizeOf entries
decreasing_by exact hinner.trans hentry

theorem place_append (h : entries.place above = .folder inner) (names : List Text) :
    entries.place (above ++ names) = place inner names := by
  induction above generalizing entries with
  | nil =>
    cases h
    rfl
  | cons name above ih =>
    obtain ⟨next, hfind, -⟩ := exists_folder_of_hasFolder ⟨inner, h⟩
    rw [place, hfind] at h
    rw [List.cons_append, place, hfind]
    exact ih h

end Entries

namespace Path

/-- Names behind a path are followed from where the path leads. -/
theorem names?_below {names : List Text} (hnames : ∀ name ∈ names, IsName name) (p : Path) :
    (p.below ⟨false, names⟩).names? = p.names?.map (· ++ names) := by
  change names? ⟨p.rooted, p.parts ++ names⟩ = _
  induction names using List.reverseRecOn with
  | nil => simp
  | append_singleton names name ih =>
    rw [← List.append_assoc, names?_concat (hnames name (by simp)).notUp,
      ih fun other hother => hnames other (by simp [hother])]
    simp [Function.comp_def]

theorem below_child {name : Text} (hname : IsName name) (p : Path) (names : List Text) :
    (p.child name).below ⟨false, names⟩ = p.below ⟨false, name :: names⟩ := by
  rw [child_eq hname]
  simp [below]

theorem child_eq_below {name : Text} (hname : IsName name) (p : Path) :
    p.child name = p.below ⟨false, [name]⟩ := by
  rw [child_eq hname]
  rfl

/-- An extension is what stands behind the last dot of a name that does not begin with it. -/
theorem extension?_eq_some_iff {name behind : Text} : extension? name = some behind ↔
    ∃ stem, name = stem ++ '.' :: behind ∧ stem ≠ [] ∧ behind ≠ [] ∧ '.' ∉ behind := by
  constructor
  · intro h
    simp only [extension?, Option.ite_none_left_eq_some, Option.some.injEq, Bool.or_eq_true,
      List.isEmpty_iff, decide_eq_true_eq, not_or, not_le] at h
    obtain ⟨⟨hne, hlength⟩, rfl⟩ := h
    have hshort : (name.reverse.takeWhile (· ≠ '.')).length ≠ name.reverse.length := by
      rw [List.length_reverse] at hlength ⊢
      omega
    obtain ⟨c, rest, hsplit, hc⟩ := exists_of_takeWhile_ne hshort
    obtain rfl : c = '.' := by simpa using hc
    have hname := congrArg List.reverse hsplit
    rw [List.reverse_reverse, List.reverse_append, List.reverse_cons, List.append_assoc] at hname
    refine ⟨rest.reverse, hname, ?_, hne, fun hmem => ?_⟩
    · rintro hrest
      rw [hrest] at hname
      have hall := congrArg List.length hname
      rw [List.nil_append, List.singleton_append, List.length_cons] at hall
      omega
    · have hdot := List.mem_takeWhile_imp (List.mem_reverse.mp hmem)
      simp at hdot
  · rintro ⟨stem, rfl, hstem, hne, hdot⟩
    have hbehind : ((stem ++ '.' :: behind).reverse.takeWhile (· ≠ '.')).reverse = behind := by
      rw [List.reverse_append, List.reverse_cons, List.append_assoc, List.singleton_append,
        takeWhile_ne_append (by simpa using hdot), List.reverse_reverse]
    have hlength := List.length_pos_iff.mpr hstem
    simp only [extension?, hbehind, Option.ite_none_left_eq_some, Bool.or_eq_true, List.isEmpty_iff,
      decide_eq_true_eq, List.length_append, List.length_cons, and_true]
    rintro (hnil | hshort)
    · exact hne hnil
    · omega

end Path

namespace Source

open Entries

/-! ### Pages in a folder -/

/-- The name of a page: letters before a dot, and behind the last dot the extension of a page. -/
def IsPageName (name : Text) : Prop :=
  ∃ stem behind, name = stem ++ '.' :: behind ∧ stem ≠ [] ∧ '.' ∉ behind ∧
    Text.lower ('.' :: behind) ∈ pageExtensions

/-- Names that lead to a page past no folder of dependencies and no hidden folder. -/
structure PageAt (entries : Entries) (names : List Text) : Prop where
  file : ∃ content, entries.place names = .file content
  page : ∃ name ∈ names.getLast?, IsPageName name
  seen : ∀ name ∈ names.dropLast, name ≠ "node_modules".toList ∧ name.head? ≠ some '.'

variable {entries inner : Entries} {name : Text} {names : List Text} {path p : Path}
  {v : Volume} {s : Selection}

theorem isPage_iff : isPage p = true ↔ IsPageName p.name := by
  rw [isPage, List.contains_iff_mem, Path.suffix]
  constructor
  · intro h
    cases hextension : Path.extension? p.name with
    | none =>
      rw [hextension] at h
      exact absurd h (by decide)
    | some behind =>
      rw [hextension] at h
      obtain ⟨stem, hname, hstem, -, hdot⟩ := Path.extension?_eq_some_iff.mp hextension
      exact ⟨stem, behind, hname, hstem, hdot, h⟩
  · rintro ⟨stem, behind, hname, hstem, hdot, h⟩
    have hne : behind ≠ [] := by
      rintro rfl
      exact absurd h (by decide)
    rw [Path.extension?_eq_some_iff.mpr ⟨stem, hname, hstem, hne, hdot⟩]
    exact h

theorem isPassedOver_eq_false : isPassedOver name = false ↔
    name ≠ "node_modules".toList ∧ name.head? ≠ some '.' := by
  rw [isPassedOver, Bool.or_eq_false_iff, decide_eq_false_iff_not, decide_eq_false_iff_not]

theorem not_pageAt_nil : ¬ PageAt entries [] := by
  rintro ⟨⟨content, hfile⟩, -, -⟩
  cases hfile

/-- A page is an entry, or a page in a folder that is not passed over. -/
theorem pageAt_cons : PageAt entries (name :: names) ↔
    (∃ content, Table.find? entries name = some (.file content) ∧ names = [] ∧ IsPageName name) ∨
      ∃ inner, Table.find? entries name = some (.folder inner) ∧
        isPassedOver name = false ∧ PageAt inner names := by
  rw [isPassedOver_eq_false]
  constructor
  · rintro ⟨⟨content, hfile⟩, hpage, hseen⟩
    cases hfind : Table.find? entries name with
    | none =>
      simp only [place, hfind] at hfile
      cases hfile
    | some tree =>
      cases tree with
      | file content' =>
        simp only [place, hfind, List.isEmpty_iff] at hfile
        split_ifs at hfile with hnil
        subst hnil
        obtain ⟨_, ⟨⟩, hpage⟩ := hpage
        exact .inl ⟨content', rfl, rfl, hpage⟩
      | folder inner =>
        simp only [place, hfind] at hfile
        cases names with
        | nil => cases hfile
        | cons next rest =>
          rw [List.dropLast_cons_cons, List.forall_mem_cons] at hseen
          rw [List.getLast?_cons_cons] at hpage
          exact .inr ⟨inner, rfl, hseen.1, ⟨content, hfile⟩, hpage, hseen.2⟩
  · rintro (⟨content, hfind, rfl, hpage⟩ | ⟨inner, hfind, hname, ⟨content, hfile⟩, hpage, hseen⟩)
    · refine ⟨⟨content, by simp [place, hfind]⟩, ⟨name, rfl, hpage⟩, fun _ habove => ?_⟩
      exact absurd habove List.not_mem_nil
    · have hne : names ≠ [] := by
        rintro rfl
        cases hfile
      obtain ⟨next, rest, rfl⟩ := List.exists_cons_of_ne_nil hne
      refine ⟨⟨content, ?_⟩, ?_, ?_⟩
      · rw [place, hfind]
        exact hfile
      · rwa [List.getLast?_cons_cons]
      · rw [List.dropLast_cons_cons, List.forall_mem_cons]
        exact ⟨hname, hseen⟩

theorem PageAt.isName (hproper : entries.Proper) (h : PageAt entries names) :
    ∀ name ∈ names, Path.IsName name := by
  induction names generalizing entries with
  | nil => exact absurd h not_pageAt_nil
  | cons name names ih =>
    have hname (tree : Tree) (hfind : Table.find? entries name = some tree) : Path.IsName name :=
      hproper.isName (List.mem_map_of_mem (Table.mem_of_find? hfind))
    rw [List.forall_mem_cons]
    rcases pageAt_cons.mp h with ⟨content, hfind, rfl, -⟩ | ⟨inner, hfind, -, hinner⟩
    · exact ⟨hname _ hfind, List.forall_mem_nil _⟩
    · exact ⟨hname _ hfind, ih (hproper.below hfind) hinner⟩

/-! ### The pages listed -/

theorem pagesByName_eq_map (above : Path) (entries : Entries) : pagesByName above entries =
    entries.map fun e => (e.1, pagesOf (above.child e.1) e.2) := by
  induction entries with
  | nil => rfl
  | cons e entries ih =>
    obtain ⟨name, tree⟩ := e
    rw [pagesByName, ih, List.map_cons]

theorem mem_inOrder {α : Type} {lists : List (Text × List α)} {a : α} :
    a ∈ inOrder lists ↔ ∃ l ∈ lists, a ∈ l.2 := by
  simp only [inOrder, List.mem_flatMap, sortByName, (sortBy_perm _ lists).mem_iff]

theorem mem_inOrder_pagesByName : p ∈ inOrder (pagesByName path entries) ↔
    ∃ name tree, (name, tree) ∈ entries ∧ p ∈ pagesOf (path.child name) tree := by
  rw [mem_inOrder, pagesByName_eq_map]
  simp

theorem mem_pagesOf_file (hname : Path.IsName name) {content : Content} :
    p ∈ pagesOf (path.child name) (.file content) ↔
      p = path.below ⟨false, [name]⟩ ∧ IsPageName name := by
  have hlast : (path.child name).name = name := by
    rw [Path.child_eq hname, Path.name, List.getLast?_concat, Option.getD_some]
  rw [pagesOf, ← Path.child_eq_below hname]
  by_cases hpage : isPage (path.child name) = true
  · rw [if_pos hpage, List.mem_singleton]
    rw [isPage_iff, hlast] at hpage
    simp [hpage]
  · rw [if_neg hpage]
    rw [isPage_iff, hlast] at hpage
    simp [hpage]

theorem mem_pagesOf_folder (hname : Path.IsName name) :
    p ∈ pagesOf (path.child name) (.folder inner) ↔ isPassedOver name = false ∧
      p ∈ inOrder (pagesByName (path.child name) inner) := by
  have hlast : (path.child name).name = name := by
    rw [Path.child_eq hname, Path.name, List.getLast?_concat, Option.getD_some]
  rw [pagesOf, hlast]
  cases isPassedOver name <;> simp

/-- The pages listed are those that names lead to. -/
theorem mem_pages_iff (hproper : entries.Proper) : p ∈ inOrder (pagesByName path entries) ↔
    ∃ names, p = path.below ⟨false, names⟩ ∧ PageAt entries names := by
  induction entries using Entries.induction generalizing path with
  | step entries ih =>
    have hfind {name : Text} {tree : Tree} :
        (name, tree) ∈ entries ↔ Table.find? entries name = some tree :=
      ⟨Table.find?_of_mem hproper.nodup, Table.mem_of_find?⟩
    have hname {name : Text} {tree : Tree} (h : Table.find? entries name = some tree) :
        Path.IsName name := hproper.isName (List.mem_map_of_mem (Table.mem_of_find? h))
    rw [mem_inOrder_pagesByName]
    constructor
    · rintro ⟨name, tree, hmem, hp⟩
      have htree := hfind.mp hmem
      cases tree with
      | file content =>
        obtain ⟨rfl, hpage⟩ := (mem_pagesOf_file (hname htree)).mp hp
        exact ⟨[name], rfl, pageAt_cons.mpr (.inl ⟨content, htree, rfl, hpage⟩)⟩
      | folder inner =>
        obtain ⟨hseen, hp⟩ := (mem_pagesOf_folder (hname htree)).mp hp
        obtain ⟨names, rfl, hpage⟩ := (ih name inner hmem (hproper.below htree)).mp hp
        rw [Path.below_child (hname htree)]
        exact ⟨name :: names, rfl, pageAt_cons.mpr (.inr ⟨inner, htree, hseen, hpage⟩)⟩
    · rintro ⟨names, rfl, hpage⟩
      cases names with
      | nil => exact absurd hpage not_pageAt_nil
      | cons name names =>
        rcases pageAt_cons.mp hpage with ⟨content, htree, rfl, hname'⟩ | ⟨inner, htree, hseen, hpage⟩
        · exact ⟨name, _, hfind.mpr htree, (mem_pagesOf_file (hname htree)).mpr ⟨rfl, hname'⟩⟩
        · refine ⟨name, _, hfind.mpr htree, (mem_pagesOf_folder (hname htree)).mpr ⟨hseen, ?_⟩⟩
          refine (ih name inner (hfind.mpr htree) (hproper.below htree)).mpr ⟨names, ?_, hpage⟩
          rw [Path.below_child (hname htree)]

/-! ### The order of the pages -/

/-- What is listed for an entry is at its path or below. -/
theorem prefix_of_mem_pagesOf (hproper : entries.Proper) {tree : Tree}
    (hentry : (name, tree) ∈ entries) (hp : p ∈ pagesOf (path.child name) tree) :
    path.parts ++ [name] <+: p.parts := by
  have hfind := Table.find?_of_mem hproper.nodup hentry
  have hname : Path.IsName name := hproper.isName (List.mem_map_of_mem hentry)
  cases tree with
  | file content =>
    obtain ⟨rfl, -⟩ := (mem_pagesOf_file hname).mp hp
    exact List.prefix_refl _
  | folder inner =>
    obtain ⟨-, hp⟩ := (mem_pagesOf_folder hname).mp hp
    obtain ⟨names, rfl, -⟩ := (mem_pages_iff (hproper.below hfind)).mp hp
    rw [Path.child_eq hname]
    exact ⟨names, rfl⟩

/-- Names decide the order of paths from the first on in which they differ. -/
theorem lt_of_names_lt {above : List Text} {first second : Text} {parts parts' : List Text}
    (h : first < second) (hparts : above ++ [first] <+: parts)
    (hparts' : above ++ [second] <+: parts') : parts < parts' := by
  obtain ⟨rest, rfl⟩ := hparts
  obtain ⟨rest', rfl⟩ := hparts'
  rw [List.append_assoc, List.append_assoc]
  exact List.append_left_lt (List.cons_lt_cons_iff.mpr (.inl h))

/-- The pages are listed in the order of their paths, name by name. -/
theorem pairwise_pages (hproper : entries.Proper) (path : Path) :
    (inOrder (pagesByName path entries)).Pairwise fun p q => p.parts < q.parts := by
  induction entries using Entries.induction generalizing path with
  | step entries ih =>
    have hentry {l : Text × List Path} (hl : l ∈ sortByName (pagesByName path entries)) :
        ∃ tree, (l.1, tree) ∈ entries ∧ l.2 = pagesOf (path.child l.1) tree := by
      rw [sortByName, (sortBy_perm _ _).mem_iff, pagesByName_eq_map] at hl
      obtain ⟨⟨name, tree⟩, hmem, rfl⟩ := List.mem_map.mp hl
      exact ⟨tree, hmem, rfl⟩
    have hnames : ((pagesByName path entries).map (·.1)).Nodup := by
      rw [pagesByName_eq_map, List.map_map]
      exact hproper.nodup
    rw [inOrder, List.pairwise_flatMap]
    constructor
    · intro l hl
      obtain ⟨tree, hmem, hpages⟩ := hentry hl
      rw [hpages]
      cases tree with
      | file content =>
        rw [pagesOf]
        split
        · exact List.pairwise_singleton _ _
        · exact .nil
      | folder inner =>
        have hinner := hproper.below (Table.find?_of_mem hproper.nodup hmem)
        rw [pagesOf]
        split
        · exact .nil
        · exact ih l.1 inner hmem hinner _
    · refine (pairwise_sortByName hnames).imp_of_mem ?_
      intro l m hl hm hlt p hp q hq
      obtain ⟨tree, hmem, hpages⟩ := hentry hl
      obtain ⟨tree', hmem', hpages'⟩ := hentry hm
      rw [hpages] at hp
      rw [hpages'] at hq
      exact lt_of_names_lt hlt (prefix_of_mem_pagesOf hproper hmem hp)
        (prefix_of_mem_pagesOf hproper hmem' hq)

/-! ### The strings of the pages -/

theorem read_eq_ok_iff {page : Text} : read v p = .ok page ↔
    isPage p = true ∧ ∃ t, v.place p = .file (.text t) ∧ unifyLineBreaks t = page := by
  unfold read
  split_ifs with hpage
  · split
    · next t hplace => simp [hpage, hplace]
    · next hnot =>
      constructor
      · nofun
      · rintro ⟨-, t, hplace, -⟩
        exact absurd hplace (hnot t)
  · simp [hpage]

/-- What a selection finds in a page where it is a proper one. -/
theorem Selection.strings_eq {attributes : Option (List Text)} {selectors : List Json}
    (hnames : s.names? = .ok attributes)
    (hselectors : Json.elementsOrNone (some s.excluded) = .ok selectors) (page : Text) :
    s.strings page = .ok (Markup.extract page attributes selectors) := by
  rw [Selection.strings, hselectors, hnames]
  rfl

/-- Pages that cannot be read are passed over. -/
theorem exists_readableStrings {extracted : Text → List Text}
    (hs : ∀ page, s.strings page = .ok (extracted page)) (paths : List Path) :
    ∃ found, readableStrings v s paths = .ok found ∧
      ∀ t, t ∈ found ↔ ∃ p ∈ paths, ∃ page, read v p = .ok page ∧ t ∈ extracted page := by
  induction paths with
  | nil => exact ⟨[], rfl, by simp⟩
  | cons p paths ih =>
    obtain ⟨found, hfound, hmem⟩ := ih
    cases hread : read v p with
    | error e =>
      refine ⟨found, ?_, fun t => ?_⟩
      · rw [readableStrings, hread]
        exact hfound
      · simp [hmem, hread]
    | ok page =>
      refine ⟨extracted page ++ found, ?_, fun t => ?_⟩
      · simp only [readableStrings, hread, hs, hfound]
        rfl
      · simp [hmem, hread]

/-- Names below a folder lead from the top to where they lead from the folder. -/
theorem place_below (hroot : v.place path = .folder entries)
    (hnames : ∀ name ∈ names, Path.IsName name) :
    v.place (path.below ⟨false, names⟩) = entries.place names := by
  rw [Volume.place, Path.names?_below hnames]
  rw [Volume.place] at hroot
  cases habove : path.names? with
  | none =>
    rw [habove] at hroot
    cases hroot
  | some above =>
    rw [habove] at hroot
    exact place_append hroot names

/-- In a folder exactly the pages are listed that names lead to past no folder that is passed over,
each once and in the order of their paths, name by name. The strings of the folder are, as a sorted
set, what is extracted from those of them that hold a text. -/
theorem listing_of_folder {root : Path} (hroot : v.place root = .folder entries)
    (hproper : entries.Proper) : ∃ paths, pages v root = .ok paths ∧
    (∀ p, p ∈ paths ↔ ∃ names, p = root.below ⟨false, names⟩ ∧ PageAt entries names) ∧
    (paths.Pairwise fun p q => p.parts < q.parts) ∧
    ∀ (s : Selection) (attributes : Option (List Text)) (selectors : List Json),
      s.names? = .ok attributes → Json.elementsOrNone (some s.excluded) = .ok selectors →
      ∃ found, folderStrings v s root = .ok found ∧ found.Pairwise (· < ·) ∧
        ∀ t, t ∈ found ↔ ∃ names text, PageAt entries names ∧
          entries.place names = .file (.text text) ∧
          t ∈ Markup.extract (unifyLineBreaks text) attributes selectors := by
  have hpages : pages v root = .ok (inOrder (pagesByName root entries)) := by rw [pages, hroot]
  have hlisted (p : Path) : p ∈ inOrder (pagesByName root entries) ↔
      ∃ names, p = root.below ⟨false, names⟩ ∧ PageAt entries names := mem_pages_iff hproper
  refine ⟨_, hpages, hlisted, pairwise_pages hproper root, ?_⟩
  intro s attributes selectors hnames hselectors
  obtain ⟨found, hfound, hmem⟩ := exists_readableStrings (v := v)
    (Selection.strings_eq hnames hselectors) (inOrder (pagesByName root entries))
  have hstrings : folderStrings v s root = .ok (Text.sortedSet found) := by
    rw [folderStrings, hpages]
    simp only [hfound]
  refine ⟨_, hstrings, Text.pairwise_sortedSet found, fun t => ?_⟩
  rw [Text.mem_sortedSet, hmem]
  constructor
  · rintro ⟨p, hp, page, hread, ht⟩
    obtain ⟨names, rfl, hpage⟩ := (hlisted p).mp hp
    obtain ⟨-, text, hplace, rfl⟩ := read_eq_ok_iff.mp hread
    rw [place_below hroot (hpage.isName hproper)] at hplace
    exact ⟨names, text, hpage, hplace, ht⟩
  · rintro ⟨names, text, hpage, hplace, ht⟩
    refine ⟨_, (hlisted _).mpr ⟨names, rfl, hpage⟩, unifyLineBreaks text, ?_, ht⟩
    rw [← place_below hroot (hpage.isName hproper)] at hplace
    refine read_eq_ok_iff.mpr ⟨?_, text, hplace, rfl⟩
    obtain ⟨name, hlast, hname⟩ := hpage.page
    rw [isPage_iff, Path.name, Path.below]
    simpa [List.getLast?_append, Option.mem_def.mp hlast] using hname

/-- A page and a folder whose name is the beginning of its name, with a page in it and another one that
is no text, and a hidden folder with a page. -/
def siteFolder : Entries := [
  ("b.html".toList, .file (.text "<p>Two</p>".toList)),
  (".git".toList, .folder [("c.html".toList, .file (.text "<p>Gone</p>".toList))]),
  ("b".toList, .folder [
    ("z.JSX".toList, .file (.bytes [255])),
    ("a.html".toList, .file (.text "<p>One</p>".toList))])]

theorem proper_siteFolder : siteFolder.Proper := by
  have hname (name : Text) (h : (name ≠ [] ∧ name ≠ ['.'] ∧ name ≠ ['.', '.']) ∧ '/' ∉ name) :
      Path.IsName name := ⟨h.1.1, h.1.2.1, h.1.2.2, h.2⟩
  have hfiles (files : Entries) (hnodup : (Table.keys files).Nodup)
      (hnames : ∀ name ∈ Table.keys files,
        (name ≠ [] ∧ name ≠ ['.'] ∧ name ≠ ['.', '.']) ∧ '/' ∉ name)
      (hinner : ∀ name inner, (name, Tree.folder inner) ∉ files) : files.Proper :=
    proper_of_entries hnodup (fun name h => hname name (hnames name h))
      fun name inner h => absurd h (hinner name inner)
  refine proper_of_entries (by decide) (fun name h => hname name ?_) fun name inner hinner => ?_
  · revert name
    decide
  · simp only [siteFolder, List.mem_cons, List.not_mem_nil, or_false, Prod.mk.injEq,
      Tree.folder.injEq, reduceCtorEq, and_false, false_or] at hinner
    rcases hinner with ⟨-, rfl⟩ | ⟨-, rfl⟩
    · exact hfiles _ (by decide) (by decide) (by simp)
    · exact hfiles _ (by decide) (by decide) (by simp)

/-- The page in the folder is listed and its text found beside a page that cannot be read; what is in the
hidden folder is not listed. -/
theorem listing_of_folder_siteFolder :
    (Volume.ofEntries siteFolder).place ⟨false, []⟩ = .folder siteFolder ∧ siteFolder.Proper ∧
    ∃ paths found, pages (.ofEntries siteFolder) ⟨false, []⟩ = .ok paths ∧
      ⟨false, ["b".toList, "z.JSX".toList]⟩ ∈ paths ∧
      ⟨false, [".git".toList, "c.html".toList]⟩ ∉ paths ∧
      folderStrings (.ofEntries siteFolder) {} ⟨false, []⟩ = .ok found ∧ "One".toList ∈ found := by
  have hroot : (Volume.ofEntries siteFolder).place ⟨false, []⟩ = .folder siteFolder := rfl
  obtain ⟨paths, hpages, hlisted, -, hstrings⟩ := listing_of_folder hroot proper_siteFolder
  obtain ⟨found, hfound, -, hmem⟩ := hstrings {} none [] rfl rfl
  have hinner (name stem behind : Text) (content : Content) (hname : name = stem ++ '.' :: behind)
      (hfile : siteFolder.place ["b".toList, name] = .file content)
      (hpage : stem ≠ [] ∧ '.' ∉ behind ∧ Text.lower ('.' :: behind) ∈ pageExtensions) :
      PageAt siteFolder ["b".toList, name] :=
    ⟨⟨content, hfile⟩, ⟨name, rfl, stem, behind, hname, hpage⟩,
      List.forall_mem_singleton.mpr (by decide)⟩
  refine ⟨hroot, proper_siteFolder, paths, found, hpages, ?_, ?_, hfound, ?_⟩
  · exact (hlisted _).mpr ⟨_, rfl, hinner "z.JSX".toList "z".toList "JSX".toList _ rfl rfl (by decide)⟩
  · intro hp
    obtain ⟨names, hnames, hpage⟩ := (hlisted _).mp hp
    obtain rfl : [".git".toList, "c.html".toList] = names := (Path.mk.inj hnames).2
    exact (hpage.seen ".git".toList (by decide)).2 rfl
  · exact (hmem _).mpr ⟨_, "<p>One</p>".toList,
      hinner "a.html".toList "a".toList "html".toList _ rfl rfl (by decide), rfl, by decide⟩

end Source

end Localize
