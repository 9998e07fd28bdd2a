import Localize.Proofs.Table
import Localize.Volume.Tree
import Mathlib.Data.List.Infix

/-!
# What folder trees hold

A list of names leads to a file, to a folder, or nowhere. Making folders leaves all files as they
are and adds the folders on the way, unless a file is in the way. Putting a file into a folder that
is there changes what is at its own names and nothing else, and removing it again gives the tree
back. A tree is within another when all its files and folders are files and folders there, so a file
that the larger tree has can be put into the smaller one.
-/

namespace Localize

namespace Entries

/-- What the file at the end of a list of names holds. -/
def content? (entries : Entries) (names : List Text) : Option Content :=
  match entries.place names with
  | .file content => some content
  | _ => none

/-- A list of names leads to a folder. -/
def HasFolder (entries : Entries) (names : List Text) : Prop :=
  ∃ inner, entries.place names = .folder inner

variable {entries entries' inner : Entries} {name : Text} {names rest above : List Text}
  {content : Content}

@[simp] theorem content?_nil (entries : Entries) : entries.content? [] = none := rfl

theorem hasFolder_nil (entries : Entries) : entries.HasFolder [] := ⟨entries, rfl⟩

/-! ### One name -/

theorem content?_cons_missing (h : Table.find? entries name = none) (rest : List Text) :
    entries.content? (name :: rest) = none := by
  simp only [content?, place, h]

theorem content?_cons_file (h : Table.find? entries name = some (.file content))
    (rest : List Text) :
    entries.content? (name :: rest) = if rest = [] then some content else none := by
  cases rest with
  | nil => simp [content?, place, h]
  | cons next rest => simp [content?, place, h]

theorem content?_cons_folder (h : Table.find? entries name = some (.folder inner))
    (rest : List Text) : entries.content? (name :: rest) = content? inner rest := by
  simp only [content?, place, h]

theorem not_hasFolder_cons_missing (h : Table.find? entries name = none) (rest : List Text) :
    ¬ entries.HasFolder (name :: rest) := by
  simp [HasFolder, place, h]

theorem not_hasFolder_cons_file (h : Table.find? entries name = some (.file content))
    (rest : List Text) : ¬ entries.HasFolder (name :: rest) := by
  cases rest with
  | nil => simp [HasFolder, place, h]
  | cons next rest => simp [HasFolder, place, h]

theorem hasFolder_cons_folder (h : Table.find? entries name = some (.folder inner))
    (rest : List Text) : entries.HasFolder (name :: rest) ↔ HasFolder inner rest := by
  simp only [HasFolder, place, h]

theorem content?_cons_congr (h : Table.find? entries' name = Table.find? entries name)
    (rest : List Text) : entries'.content? (name :: rest) = entries.content? (name :: rest) := by
  simp only [content?, place, h]

theorem hasFolder_cons_congr (h : Table.find? entries' name = Table.find? entries name)
    (rest : List Text) :
    entries'.HasFolder (name :: rest) ↔ entries.HasFolder (name :: rest) := by
  simp only [HasFolder, place, h]

theorem exists_folder_of_hasFolder (h : entries.HasFolder (name :: rest)) :
    ∃ inner, Table.find? entries name = some (.folder inner) ∧ HasFolder inner rest := by
  cases hfind : Table.find? entries name with
  | none => exact absurd h (not_hasFolder_cons_missing hfind rest)
  | some tree =>
    cases tree with
    | file content => exact absurd h (not_hasFolder_cons_file hfind rest)
    | folder inner => exact ⟨inner, rfl, (hasFolder_cons_folder hfind rest).mp h⟩

/-- What is below another name stays, and below the name itself everything is new. -/
theorem content?_insert_folder (entries inner : Entries) (name next : Text) (rest : List Text) :
    content? (Table.insert entries name (.folder inner)) (next :: rest) =
      if name = next then content? inner rest else entries.content? (next :: rest) := by
  split
  · next h =>
    subst h
    apply content?_cons_folder
    rw [Table.find?_insert, if_pos rfl]
  · next h =>
    apply content?_cons_congr
    rw [Table.find?_insert, if_neg h]

theorem hasFolder_insert_folder (entries inner : Entries) (name next : Text) (rest : List Text) :
    HasFolder (Table.insert entries name (.folder inner)) (next :: rest) ↔
      if name = next then HasFolder inner rest else entries.HasFolder (next :: rest) := by
  split
  · next h =>
    subst h
    apply hasFolder_cons_folder
    rw [Table.find?_insert, if_pos rfl]
  · next h =>
    apply hasFolder_cons_congr
    rw [Table.find?_insert, if_neg h]

/-! ### Files and folders -/

theorem HasFolder.content?_eq_none (h : entries.HasFolder names) :
    entries.content? names = none := by
  obtain ⟨inner, h⟩ := h
  rw [content?, h]

/-- Above a file there are folders. -/
theorem hasFolder_of_content? (h : entries.content? (above ++ name :: rest) = some content) :
    entries.HasFolder above := by
  induction above generalizing entries with
  | nil => exact hasFolder_nil entries
  | cons first above ih =>
    rw [List.cons_append] at h
    cases hfind : Table.find? entries first with
    | none =>
      rw [content?_cons_missing hfind] at h
      cases h
    | some tree =>
      cases tree with
      | file content =>
        rw [content?_cons_file hfind, if_neg (by simp)] at h
        cases h
      | folder inner =>
        rw [content?_cons_folder hfind] at h
        exact (hasFolder_cons_folder hfind above).mpr (ih h)

theorem HasFolder.of_prefix (h : entries.HasFolder names) (hleading : above <+: names) :
    entries.HasFolder above := by
  induction names generalizing entries above with
  | nil =>
    rw [List.prefix_nil.mp hleading]
    exact hasFolder_nil entries
  | cons first names ih =>
    cases above with
    | nil => exact hasFolder_nil entries
    | cons next above =>
      obtain ⟨rfl, hbelow⟩ := List.cons_prefix_cons.mp hleading
      obtain ⟨inner, hfind, h⟩ := exists_folder_of_hasFolder h
      exact (hasFolder_cons_folder hfind above).mpr (ih h hbelow)

/-! ### Making folders -/

theorem content?_makeFolders? (h : entries.makeFolders? names = some entries')
    (other : List Text) : entries'.content? other = entries.content? other := by
  induction names generalizing entries entries' other with
  | nil =>
    cases h
    rfl
  | cons name names ih =>
    rw [makeFolders?] at h
    cases hfind : Table.find? entries name with
    | none =>
      simp only [hfind] at h
      obtain ⟨inner, hinner, rfl⟩ := Option.map_eq_some_iff.mp h
      cases other with
      | nil => rfl
      | cons next rest =>
        rw [content?_insert_folder]
        split
        · next hname =>
          have hempty : content? [] rest = none := by
            cases rest with
            | nil => rfl
            | cons next rest => exact content?_cons_missing rfl rest
          rw [ih hinner, hempty, content?_cons_missing (hname ▸ hfind)]
        · rfl
    | some tree =>
      cases tree with
      | file content =>
        simp only [hfind] at h
        cases h
      | folder folder =>
        simp only [hfind] at h
        obtain ⟨inner, hinner, rfl⟩ := Option.map_eq_some_iff.mp h
        cases other with
        | nil => rfl
        | cons next rest =>
          rw [content?_insert_folder]
          split
          · next hname => rw [ih hinner, content?_cons_folder (hname ▸ hfind)]
          · rfl

/-- The folders on the way are there, and no others are new. -/
theorem hasFolder_makeFolders?_iff (h : entries.makeFolders? names = some entries')
    {other : List Text} : entries'.HasFolder other ↔ entries.HasFolder other ∨ other <+: names := by
  induction names generalizing entries entries' other with
  | nil =>
    cases h
    simp only [List.prefix_nil, iff_self_or]
    rintro rfl
    exact hasFolder_nil _
  | cons name names ih =>
    rw [makeFolders?] at h
    cases other with
    | nil => simp [hasFolder_nil]
    | cons next rest =>
      rw [List.cons_prefix_cons]
      cases hfind : Table.find? entries name with
      | none =>
        simp only [hfind] at h
        obtain ⟨inner, hinner, rfl⟩ := Option.map_eq_some_iff.mp h
        rw [hasFolder_insert_folder]
        split
        · next hname =>
          subst hname
          have hempty : HasFolder [] rest → rest <+: names := by
            intro hfolder
            cases rest with
            | nil => exact List.nil_prefix
            | cons next rest => exact absurd hfolder (not_hasFolder_cons_missing rfl rest)
          have hnone := not_hasFolder_cons_missing hfind rest
          rw [ih hinner]
          simp only [hnone, true_and, false_or, or_iff_right_iff_imp]
          exact hempty
        · next hname => simp [Ne.symm hname]
      | some tree =>
        cases tree with
        | file content =>
          simp only [hfind] at h
          cases h
        | folder folder =>
          simp only [hfind] at h
          obtain ⟨inner, hinner, rfl⟩ := Option.map_eq_some_iff.mp h
          rw [hasFolder_insert_folder]
          split
          · next hname =>
            subst hname
            rw [ih hinner, hasFolder_cons_folder hfind]
            simp
          · next hname => simp [Ne.symm hname]

/-- Folders cannot be made only where a file is in the way. -/
theorem exists_makeFolders? (h : ∀ other, other <+: names → entries.content? other = none) :
    ∃ entries', entries.makeFolders? names = some entries' := by
  induction names generalizing entries with
  | nil => exact ⟨entries, rfl⟩
  | cons name names ih =>
    rw [makeFolders?]
    cases hfind : Table.find? entries name with
    | none =>
      have hempty : ∀ other, other <+: names → content? [] other = none := by
        intro other _
        cases other with
        | nil => rfl
        | cons next rest => exact content?_cons_missing rfl rest
      obtain ⟨inner, hinner⟩ := ih hempty
      simp only [hinner]
      exact ⟨_, rfl⟩
    | some tree =>
      cases tree with
      | file content =>
        have hfile := h [name] (by simp)
        rw [content?_cons_file hfind, if_pos rfl] at hfile
        cases hfile
      | folder folder =>
        have hbelow : ∀ other, other <+: names → content? folder other = none := by
          intro other hleading
          rw [← content?_cons_folder hfind]
          exact h (name :: other) (List.cons_prefix_cons.mpr ⟨rfl, hleading⟩)
        obtain ⟨inner, hinner⟩ := ih hbelow
        simp only [hinner]
        exact ⟨_, rfl⟩

/-! ### Putting a file -/

theorem putFile_cons (hfind : Table.find? entries name = some (.folder inner))
    (hrest : rest ≠ []) (content : Content) : entries.putFile (name :: rest) content =
      Table.insert entries name (.folder (putFile inner rest content)) := by
  cases rest with
  | nil => exact absurd rfl hrest
  | cons next rest => rw [putFile, hfind]

theorem remove_cons (hfind : Table.find? entries name = some (.folder inner))
    (hrest : rest ≠ []) : entries.remove (name :: rest) =
      Table.insert entries name (.folder (remove inner rest)) := by
  cases rest with
  | nil => exact absurd rfl hrest
  | cons next rest => rw [remove, hfind]

theorem content?_putFile (hfolder : entries.HasFolder above)
    (htarget : ¬ entries.HasFolder (above ++ [name])) (content : Content) (other : List Text) :
    (entries.putFile (above ++ [name]) content).content? other =
      if other = above ++ [name] then some content else entries.content? other := by
  induction above generalizing entries other with
  | nil =>
    cases other with
    | nil => simp
    | cons next rest =>
      change content? (Table.insert entries name (.file content)) (next :: rest) = _
      by_cases hname : name = next
      · subst hname
        have hfind : Table.find? (Table.insert entries name (.file content)) name =
            some (.file content) := by
          rw [Table.find?_insert, if_pos rfl]
        rw [content?_cons_file hfind]
        cases rest with
        | nil => simp
        | cons next rest =>
          -- below the place of the file there was nothing
          cases hold : Table.find? entries name with
          | none => simp [content?_cons_missing hold]
          | some tree =>
            cases tree with
            | file c => simp [content?_cons_file hold]
            | folder inner =>
              exact absurd ((hasFolder_cons_folder hold []).mpr (hasFolder_nil inner)) htarget
      · have hfind : Table.find? (Table.insert entries name (.file content)) next =
            Table.find? entries next := by
          rw [Table.find?_insert, if_neg hname]
        have hne : next :: rest ≠ [] ++ [name] := fun h => hname (List.cons.inj h).1.symm
        rw [content?_cons_congr hfind, if_neg hne]
  | cons first above ih =>
    obtain ⟨inner, hfind, hinner⟩ := exists_folder_of_hasFolder hfolder
    rw [List.cons_append, hasFolder_cons_folder hfind] at htarget
    rw [List.cons_append, putFile_cons hfind (by simp)]
    cases other with
    | nil => simp
    | cons next rest =>
      rw [content?_insert_folder]
      split
      · next hname =>
        subst hname
        rw [ih hinner htarget, content?_cons_folder hfind]
        simp
      · next hname => simp [Ne.symm hname]

theorem hasFolder_putFile_iff (hfolder : entries.HasFolder above)
    (htarget : ¬ entries.HasFolder (above ++ [name])) (content : Content) {other : List Text} :
    (entries.putFile (above ++ [name]) content).HasFolder other ↔ entries.HasFolder other := by
  induction above generalizing entries other with
  | nil =>
    cases other with
    | nil => simp [hasFolder_nil]
    | cons next rest =>
      change HasFolder (Table.insert entries name (.file content)) (next :: rest) ↔ _
      by_cases hname : name = next
      · subst hname
        have hfind : Table.find? (Table.insert entries name (.file content)) name =
            some (.file content) := by
          rw [Table.find?_insert, if_pos rfl]
        have hnew := not_hasFolder_cons_file hfind rest
        have hold : ¬ entries.HasFolder (name :: rest) := fun h =>
          htarget (h.of_prefix (by simp))
        simp only [hnew, hold]
      · apply hasFolder_cons_congr
        rw [Table.find?_insert, if_neg hname]
  | cons first above ih =>
    obtain ⟨inner, hfind, hinner⟩ := exists_folder_of_hasFolder hfolder
    rw [List.cons_append, hasFolder_cons_folder hfind] at htarget
    rw [List.cons_append, putFile_cons hfind (by simp)]
    cases other with
    | nil => simp [hasFolder_nil]
    | cons next rest =>
      rw [hasFolder_insert_folder]
      split
      · next hname =>
        subst hname
        rw [ih hinner htarget, hasFolder_cons_folder hfind]
      · rfl

/-- A file with a new name that is put into a folder and removed again leaves no trace. -/
theorem remove_putFile (hfolder : entries.place above = .folder inner)
    (hname : Table.find? inner name = none) (content : Content) :
    (entries.putFile (above ++ [name]) content).remove (above ++ [name]) = entries := by
  induction above generalizing entries with
  | nil =>
    have hentries : entries = inner := by
      rw [place] at hfolder
      exact Place.folder.inj hfolder
    change Table.erase (Table.insert entries name (.file content)) name = entries
    apply Table.erase_insert
    rw [← Table.find?_eq_none_iff, hentries]
    exact hname
  | cons first above ih =>
    obtain ⟨folder, hfind, -⟩ := exists_folder_of_hasFolder ⟨inner, hfolder⟩
    have hbelow : Entries.place folder above = .folder inner := by
      rw [place, hfind] at hfolder
      exact hfolder
    have hnew : Table.find? (Table.insert entries first
        (.folder (putFile folder (above ++ [name]) content))) first =
        some (.folder (putFile folder (above ++ [name]) content)) := by
      rw [Table.find?_insert, if_pos rfl]
    rw [List.cons_append, putFile_cons hfind (by simp), remove_cons hnew (by simp), ih hbelow,
      Table.insert_insert, Table.insert_of_find? hfind]

/-! ### One tree within another -/

/-- All files and folders of a tree are files and folders of another. -/
structure Within (entries entries' : Entries) : Prop where
  files : ∀ names, (entries.content? names).isSome → (entries'.content? names).isSome
  folders : ∀ names, entries.HasFolder names → entries'.HasFolder names

theorem Within.refl (entries : Entries) : entries.Within entries := ⟨fun _ => id, fun _ => id⟩

theorem Within.trans {larger : Entries} (h : entries.Within entries')
    (h' : entries'.Within larger) : entries.Within larger :=
  ⟨fun names hfile => h'.files names (h.files names hfile),
    fun names hfolder => h'.folders names (h.folders names hfolder)⟩

theorem within_makeFolders? (h : entries.makeFolders? names = some entries') :
    entries.Within entries' := by
  constructor
  · intro other hfile
    rw [content?_makeFolders? h]
    exact hfile
  · intro other hfolder
    exact (hasFolder_makeFolders?_iff h).mpr (.inl hfolder)

theorem within_putFile (hfolder : entries.HasFolder above)
    (htarget : ¬ entries.HasFolder (above ++ [name])) (content : Content) :
    entries.Within (entries.putFile (above ++ [name]) content) := by
  constructor
  · intro other hfile
    rw [content?_putFile hfolder htarget]
    split
    · rfl
    · exact hfile
  · intro other hother
    exact (hasFolder_putFile_iff hfolder htarget content).mpr hother

/-- Where a tree has a file, the folders above it can be made in every tree within it, nothing there
blocks the file, and the tree is still within when the file has been put. -/
theorem Within.put {larger : Entries} (h : entries.Within larger)
    (hfile : (larger.content? (above ++ [name])).isSome) :
    ∃ entries', entries.makeFolders? above = some entries' ∧ entries'.Within larger ∧
      ¬ entries'.HasFolder (above ++ [name]) ∧
      ∀ content, (entries'.putFile (above ++ [name]) content).Within larger := by
  obtain ⟨old, hold⟩ := Option.isSome_iff_exists.mp hfile
  have habove : larger.HasFolder above := hasFolder_of_content? hold
  have hway : ∀ other, other <+: above → entries.content? other = none := by
    intro other hleading
    have hnone := (habove.of_prefix hleading).content?_eq_none
    by_contra hsome
    have hlarger := h.files other (Option.isSome_iff_ne_none.mpr hsome)
    rw [hnone] at hlarger
    cases hlarger
  obtain ⟨entries', hmade⟩ := exists_makeFolders? hway
  have hwithin : entries'.Within larger := by
    constructor
    · intro other hother
      rw [content?_makeFolders? hmade] at hother
      exact h.files other hother
    · intro other hother
      rcases (hasFolder_makeFolders?_iff hmade).mp hother with hother | hleading
      · exact h.folders other hother
      · exact habove.of_prefix hleading
  have htarget : ¬ entries'.HasFolder (above ++ [name]) := by
    intro hfolder
    have hnone := (hwithin.folders _ hfolder).content?_eq_none
    rw [hold] at hnone
    cases hnone
  have hfolder : entries'.HasFolder above :=
    (hasFolder_makeFolders?_iff hmade).mpr (.inr (List.prefix_refl above))
  refine ⟨entries', hmade, hwithin, htarget, fun content => ⟨fun other hother => ?_, ?_⟩⟩
  · rw [content?_putFile hfolder htarget] at hother
    split at hother
    · next hsame => rw [hsame, hold]; rfl
    · exact hwithin.files other hother
  · intro other hother
    exact hwithin.folders other ((hasFolder_putFile_iff hfolder htarget content).mp hother)

end Entries

end Localize
