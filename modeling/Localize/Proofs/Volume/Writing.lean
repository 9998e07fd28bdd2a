import Localize.Proofs.Text.Basic
import Localize.Proofs.Volume.Tree
import Localize.Volume.Document
import Localize.Volume.Listing
import Mathlib.Data.List.Perm.Subperm

/-!
# What writing a document changes

A write makes the folders above the file and then either puts the file in place or leaves every file
as it was; the temporary file that it writes first has a name that is not taken and is gone in the
end. Where the file has been before, or is in a larger tree, a write can fail only because the
medium refuses it.
-/

namespace Localize

/-! ### Names of files -/

namespace Path

/-- A text that names one file of a folder. -/
structure IsName (name : Text) : Prop where
  nonempty : name ≠ []
  notDot : name ≠ ['.']
  notUp : name ≠ ['.', '.']
  noSlash : '/' ∉ name

variable {name : Text}

theorem child_eq (hname : IsName name) (p : Path) :
    p.child name = ⟨p.rooted, p.parts ++ [name]⟩ := by
  have hroot : name.head? ≠ some '/' := fun h => hname.noSlash (List.mem_of_head? h)
  have hkept : (decide (name ≠ []) && decide (name ≠ ['.'])) = true := by
    simp [hname.nonempty, hname.notDot]
  have hread : ofText name = ⟨false, [name]⟩ := by
    rw [ofText, Text.splitOn_of_notMem hname.noSlash, List.filter_cons, hkept]
    simp [hroot]
  rw [child, hread, below]
  rfl

theorem go_append (hup : name ≠ ['.', '.']) (above parts : List Text) :
    names?.go above (parts ++ [name]) = (names?.go above parts).map (· ++ [name]) := by
  induction parts generalizing above with
  | nil => simp [names?.go, hup]
  | cons part parts ih =>
    simp only [List.cons_append, names?.go]
    split
    · cases above with
      | nil => rfl
      | cons _ higher => exact ih higher
    · exact ih (part :: above)

theorem names?_concat (hup : name ≠ ['.', '.']) (rooted : Bool) (parts : List Text) :
    names? ⟨rooted, parts ++ [name]⟩ = (names? ⟨rooted, parts⟩).map (· ++ [name]) := by
  rw [names?, names?]
  split
  · rfl
  · exact go_append hup [] parts

theorem names?_child (hname : IsName name) (p : Path) :
    (p.child name).names? = p.names?.map (· ++ [name]) := by
  rw [child_eq hname]
  exact names?_concat hname.notUp p.rooted p.parts

/-- A part of a path is a name, or leads to the folder above. -/
theorem isName_of_mem_parts {t part : Text} (h : part ∈ (ofText t).parts)
    (hup : part ≠ ['.', '.']) : IsName part := by
  obtain ⟨hword, hkept⟩ := List.mem_filter.mp h
  simp only [Bool.and_eq_true, decide_eq_true_eq] at hkept
  exact ⟨hkept.1, hkept.2, hup, Text.notMem_of_mem_splitOn hword⟩

theorem go_append_up (above parts : List Text) :
    names?.go above (parts ++ [['.', '.']]) =
      (names?.go above parts).bind fun names =>
        if names = [] then none else some names.dropLast := by
  induction parts generalizing above with
  | nil => cases above <;> simp [names?.go]
  | cons part parts ih =>
    simp only [List.cons_append, names?.go]
    split
    · cases above with
      | nil => rfl
      | cons _ higher => exact ih higher
    · exact ih (part :: above)

theorem names?_up (rooted : Bool) (parts : List Text) :
    names? ⟨rooted, parts ++ [['.', '.']]⟩ = (names? ⟨rooted, parts⟩).bind fun names =>
      if names = [] then none else some names.dropLast := by
  rw [names?, names?]
  split
  · rfl
  · exact go_append_up [] parts

/-- A file is told from one of another name, whatever their folders are. -/
theorem names?_child_ne {p q : Path} {name' : Text} (hname : IsName name) (hname' : IsName name')
    (hne : name ≠ name') {names : List Text} (h : (p.child name).names? = some names) :
    (q.child name').names? ≠ some names := by
  rw [names?_child hname, Option.map_eq_some_iff] at h
  rw [names?_child hname', Ne, Option.map_eq_some_iff]
  obtain ⟨above, -, rfl⟩ := h
  rintro ⟨above', -, h⟩
  have hlast := (List.append_inj' h rfl).2
  exact hne (List.cons.inj hlast).1.symm

theorem parent_child (hname : IsName name) (p : Path) : (p.child name).parent = p := by
  rw [child_eq hname, parent, List.dropLast_concat]

end Path

namespace Volume

open Entries

/-! ### Temporary names -/

theorem candidate_injective {stem : Text} {m n : Nat}
    (h : temporaryName.candidate stem m = temporaryName.candidate stem n) : m = n := by
  simp only [temporaryName.candidate, List.append_assoc, List.cons_append, List.cons.injEq,
    true_and, List.append_cancel_left_eq] at h
  exact Text.ofNat_injective (List.append_cancel_right h)

/-- The search stops at the first number that is not taken, if there is one in reach. -/
theorem find?_temporaryName_go {folder : Entries} {stem : Text} {fuel n : Nat}
    (h : ∃ k, n ≤ k ∧ k ≤ n + fuel ∧
      Table.find? folder (temporaryName.candidate stem k) = none) :
    Table.find? folder (temporaryName.go folder stem fuel n) = none := by
  induction fuel generalizing n with
  | zero =>
    obtain ⟨k, hn, hk, hfree⟩ := h
    have hsame : k = n := by omega
    rw [temporaryName.go, ← hsame]
    exact hfree
  | succ fuel ih =>
    rw [temporaryName.go]
    cases htaken : Table.find? folder (temporaryName.candidate stem n) with
    | none => simp [Table.has, htaken]
    | some tree =>
      obtain ⟨k, hn, hk, hfree⟩ := h
      have hne : k ≠ n := by
        rintro rfl
        rw [htaken] at hfree
        cases hfree
      have hrest : Table.find? folder (temporaryName.go folder stem fuel (n + 1)) = none :=
        ih ⟨k, by omega, by omega, hfree⟩
      simpa [Table.has, htaken] using hrest

/-- A folder cannot have one more name than it has entries. -/
theorem find?_temporaryName (folder : Entries) (stem : Text) :
    Table.find? folder (temporaryName folder stem) = none := by
  apply find?_temporaryName_go
  by_contra hall
  have htaken : ∀ k < folder.length + 1, temporaryName.candidate stem k ∈ Table.keys folder := by
    intro k hk
    rw [Table.mem_keys_iff, Option.isSome_iff_ne_none]
    intro hfree
    exact hall ⟨k, by omega, by omega, hfree⟩
  have hdistinct : ((List.range (folder.length + 1)).map
      (temporaryName.candidate stem)).Nodup := by
    apply List.Nodup.map
    · intro m n h
      exact candidate_injective h
    · exact List.nodup_range
  have hsub : (List.range (folder.length + 1)).map (temporaryName.candidate stem) ⊆
      Table.keys folder := by
    intro t ht
    obtain ⟨k, hk, rfl⟩ := List.mem_map.mp ht
    exact htaken k (List.mem_range.mp hk)
  have hlength := (hdistinct.subperm hsub).length_le
  simp only [List.length_map, List.length_range, Table.keys] at hlength
  omega

/-! ### Writing -/

theorem content?_eq (v : Volume) (p : Path) :
    v.content? p = p.names?.bind fun names => v.entries.content? names := by
  unfold Volume.content? place
  cases p.names? with
  | none => rfl
  | some names => rfl

theorem place_eq_file_iff {v : Volume} {p : Path} {content : Content} :
    v.place p = .file content ↔ v.content? p = some content := by
  unfold Volume.content?
  cases v.place p with
  | missing | throughFile | folder _ => simp
  | file c => simp

/-- All files and folders of a volume are files and folders of another. -/
def Within (v v' : Volume) : Prop := v.entries.Within v'.entries

variable {v v' : Volume} {folder : Path} {name document : Text}

theorem Within.content? (h : v.Within v') {p : Path} (hfile : (v.content? p).isSome) :
    (v'.content? p).isSome := by
  rw [content?_eq] at hfile ⊢
  cases hnames : p.names? with
  | none =>
    rw [hnames] at hfile
    cases hfile
  | some names =>
    rw [hnames] at hfile
    exact h.files names hfile

theorem content?_makeFolder? {p : Path} (h : v.makeFolder? p = some v') (q : Path) :
    v'.content? q = v.content? q := by
  unfold makeFolder? at h
  obtain ⟨names, -, h⟩ := Option.bind_eq_some_iff.mp h
  obtain ⟨entries, hmade, h⟩ := Option.bind_eq_some_iff.mp h
  cases h
  simp only [content?_eq, content?_makeFolders? hmade]

/-- A file put where there is no folder takes the place of a file or of nothing, and no other file
changes. -/
theorem content?_put {p : Path} {above : List Text} (hnames : p.names? = some (above ++ [name]))
    (htarget : ¬ v.entries.HasFolder (above ++ [name])) (content : Content) (q : Path) :
    (v.put p (some content)).content? q = v.content? q ∨
      q.names? = p.names? ∧ (v.put p (some content)).content? q = some content := by
  unfold put
  simp only [hnames, List.dropLast_concat]
  cases hmake : v.entries.makeFolders? above with
  | none => exact .inl rfl
  | some entries =>
    have hfolder : entries.HasFolder above :=
      (Entries.hasFolder_makeFolders?_iff hmake).mpr (.inr (List.prefix_refl above))
    have hfree : ¬ entries.HasFolder (above ++ [name]) := fun h => by
      rcases (Entries.hasFolder_makeFolders?_iff hmake).mp h with h | h
      · exact htarget h
      · simpa using h.length_le
    rw [content?_eq, content?_eq]
    cases hq : q.names? with
    | none => exact .inl rfl
    | some names =>
      simp only [Option.bind_some, Entries.content?_putFile hfolder hfree]
      by_cases hsame : names = above ++ [name]
      · exact .inr ⟨by rw [hsame], if_pos hsame⟩
      · rw [if_neg hsame, Entries.content?_makeFolders? hmake]
        exact .inl rfl

/-- A path whose parent is a folder names something in that folder, or leads nowhere or to a folder.
-/
theorem child_of_makeFolder? {t : Text} (h : v.makeFolder? (Path.ofText t).parent = some v') :
    (∃ (above : Path) (last : Text), Path.IsName last ∧ Path.ofText t = above.child last) ∨
      (Path.ofText t).names? = none ∨ ∃ inner, v'.place (Path.ofText t) = .folder inner := by
  have hpart : ∀ part ∈ (Path.ofText t).parts, part ≠ ['.', '.'] → Path.IsName part :=
    fun part => Path.isName_of_mem_parts
  revert h hpart
  generalize Path.ofText t = p
  obtain ⟨rooted, parts⟩ := p
  intro h hpart
  obtain rfl | ⟨parts, last, rfl⟩ := parts.eq_nil_or_concat'
  · cases rooted with
    | true => exact .inr (.inl rfl)
    | false => exact .inr (.inr ⟨v'.entries, rfl⟩)
  · by_cases hup : last = ['.', '.']
    · subst hup
      unfold makeFolder? at h
      rw [Path.parent, List.dropLast_concat] at h
      obtain ⟨names, hnames, h⟩ := Option.bind_eq_some_iff.mp h
      obtain ⟨entries, hmade, h⟩ := Option.bind_eq_some_iff.mp h
      cases h
      right
      rw [place, Path.names?_up, hnames, Option.bind_some]
      split_ifs
      · exact .inl rfl
      · exact .inr ((hasFolder_makeFolders?_iff hmade).mpr (.inr names.dropLast_prefix))
    · have hname : Path.IsName last := hpart last (by simp) hup
      exact .inl ⟨⟨rooted, parts⟩, last, hname, (Path.child_eq hname ⟨rooted, parts⟩).symm⟩

/-- The folder of a file that is there can be made. -/
theorem exists_makeFolder? (hname : Path.IsName name) {content : Content}
    (hfile : v.content? (folder.child name) = some content) :
    ∃ v', v.makeFolder? folder = some v' := by
  rw [content?_eq, Path.names?_child hname] at hfile
  cases hnames : folder.names? with
  | none =>
    rw [hnames] at hfile
    cases hfile
  | some names =>
    rw [hnames] at hfile
    have hinside : v.entries.content? (names ++ [name]) = some content := hfile
    have hfolder : v.entries.HasFolder names := hasFolder_of_content? hinside
    obtain ⟨entries, hmade⟩ := exists_makeFolders? fun other hleading =>
      (hfolder.of_prefix hleading).content?_eq_none
    refine ⟨{ v with entries }, ?_⟩
    unfold makeFolder?
    rw [hnames]
    simp only [Option.bind_eq_bind, Option.bind_some, hmade]
    rfl

/-- How a write ends: the medium is one refusal on, and the file is there or nothing has changed but
that folders have been made. -/
structure Written {ε : Type} (v : Volume) (folder : Path) (name document : Text)
    (result : Except ε Unit) (v' : Volume) : Prop where
  refusals : v'.refusals = v.refusals.tail
  within : v.Within v'
  others : ∀ p, p.names? ≠ (folder.child name).names? → v'.content? p = v.content? p
  done : result = .ok () → v'.content? (folder.child name) = some (.text document)
  failed : result ≠ .ok () → v'.content? (folder.child name) = v.content? (folder.child name)

theorem Written.of_ok_iff {ε ε' : Type} {result : Except ε Unit} {result' : Except ε' Unit}
    (h : Written v folder name document result v') (hresult : result' = .ok () ↔ result = .ok ()) :
    Written v folder name document result' v' where
  refusals := h.refusals
  within := h.within
  others := h.others
  done hdone := h.done (hresult.mp hdone)
  failed hfailed := h.failed (mt hresult.mpr hfailed)

theorem written_of_same {entries : Entries} {fault : WriteFault}
    (hsame : ∀ names, entries.content? names = v.entries.content? names)
    (hwithin : v.entries.Within entries) :
    Written v folder name document (.error fault) ⟨entries, v.refusals.tail⟩ := by
  have hcontent : ∀ p, content? ⟨entries, v.refusals.tail⟩ p = v.content? p := by
    intro p
    simp only [content?_eq, hsame]
  constructor
  case refusals => rfl
  case within => exact hwithin
  case others => exact fun p _ => hcontent p
  case done => exact fun h => nomatch h
  case failed => exact fun _ => hcontent _

theorem written_of_put {entries : Entries} {above : List Text}
    (hnames : (folder.child name).names? = some (above ++ [name]))
    (h : v.entries.makeFolders? above = some entries)
    (htarget : ¬ entries.HasFolder (above ++ [name])) :
    Written v folder name document (.ok () : Except WriteFault Unit)
      ⟨entries.putFile (above ++ [name]) (.text document), v.refusals.tail⟩ := by
  have hfolder : entries.HasFolder above :=
    (hasFolder_makeFolders?_iff h).mpr (.inr (List.prefix_refl above))
  constructor
  case refusals => rfl
  case within => exact (within_makeFolders? h).trans (within_putFile hfolder htarget _)
  case others =>
    intro p hp
    rw [content?_eq, content?_eq]
    cases hsome : p.names? with
    | none => rfl
    | some names =>
      have hne : names ≠ above ++ [name] := by
        rintro rfl
        exact hp (hsome.trans hnames.symm)
      rw [Option.bind_some, Option.bind_some, content?_putFile hfolder htarget, if_neg hne,
        content?_makeFolders? h]
  case done =>
    intro _
    rw [content?_eq, hnames, Option.bind_some, content?_putFile hfolder htarget, if_pos rfl]
  case failed => exact fun h => absurd rfl h

/-- A write in a folder that can be made, in terms of what is refused and of what is at the place of
the file. -/
theorem replaceFile_of_makeFolders? {p : Path} {target above : List Text}
    (hnames : p.names? = some target) (hfolder : p.parent.names? = some above)
    {entries : Entries} (h : v.entries.makeFolders? above = some entries) (document : Text) :
    (v.refusals.headD none ≠ none ∨ entries.HasFolder target) ∧
        (∃ fault, v.replaceFile p document = (.error fault, ⟨entries, v.refusals.tail⟩)) ∨
      v.refusals.headD none = none ∧ ¬ entries.HasFolder target ∧
        v.replaceFile p document =
          (.ok (), ⟨entries.putFile target (.text document), v.refusals.tail⟩) := by
  obtain ⟨inner, hinner⟩ : entries.HasFolder above :=
    (hasFolder_makeFolders?_iff h).mpr (.inr (List.prefix_refl above))
  have hcleared : (entries.putFile (above ++ [temporaryName inner p.stem])
      (.text document)).remove (above ++ [temporaryName inner p.stem]) = entries :=
    remove_putFile hinner (find?_temporaryName inner _) _
  unfold replaceFile
  simp only [hnames, hfolder, h, hinner, hcleared]
  cases hrefusal : v.refusals.headD none with
  | some refusal =>
    left
    refine ⟨.inl (Option.some_ne_none refusal), ?_⟩
    cases refusal with
    | makingTemporary => exact ⟨.notPrepared, rfl⟩
    | writingData => exact ⟨.notWritten, rfl⟩
    | takingPlace => exact ⟨.notWritten, rfl⟩
  | none =>
    by_cases hblocked : entries.HasFolder target
    · left
      refine ⟨.inr hblocked, .notWritten, ?_⟩
      obtain ⟨inside, hinside⟩ := hblocked
      simp only [hinside]
      rfl
    · right
      refine ⟨rfl, hblocked, ?_⟩
      cases htarget : entries.place target with
      | folder inside => exact absurd ⟨inside, htarget⟩ hblocked
      | missing | throughFile | file _ => rfl

theorem written_replaceFile (hname : Path.IsName name) {result : Except WriteFault Unit}
    (h : v.replaceFile (folder.child name) document = (result, v')) :
    Written v folder name document result v' := by
  cases hfolder : folder.names? with
  | none =>
    have hnames : (folder.child name).names? = none := by
      rw [Path.names?_child hname, hfolder]
      rfl
    simp only [replaceFile, hnames] at h
    cases h
    exact written_of_same (fun _ => rfl) (Within.refl _)
  | some above =>
    have hnames : (folder.child name).names? = some (above ++ [name]) := by
      rw [Path.names?_child hname, hfolder]
      rfl
    cases hmade : v.entries.makeFolders? above with
    | none =>
      simp only [replaceFile, hnames, Path.parent_child hname, hfolder, hmade] at h
      cases h
      exact written_of_same (fun _ => rfl) (Within.refl _)
    | some entries =>
      have hparent : (folder.child name).parent.names? = some above := by
        rw [Path.parent_child hname, hfolder]
      rcases replaceFile_of_makeFolders? hnames hparent hmade document with
        ⟨-, fault, hreplace⟩ | ⟨-, htarget, hreplace⟩
      · rw [hreplace] at h
        cases h
        exact written_of_same (content?_makeFolders? hmade) (within_makeFolders? hmade)
      · rw [hreplace] at h
        cases h
        exact written_of_put hnames hmade htarget

/-! ### Documents -/

/-- A document is read from a file that holds its text. -/
theorem readJson_eq_some_iff {p : Path} {value : Json} :
    v.readJson p = .ok (some value) ↔
      ∃ t, v.content? p = some (.text t) ∧ Json.read t = .ok value := by
  simp only [readJson, ← place_eq_file_iff]
  cases v.place p with
  | missing | throughFile | folder _ => simp
  | file content =>
    cases content with
    | bytes b => simp
    | text t =>
      cases hread : Json.read t with
      | ok value' => simp [hread]
      | error reason => simp [hread]

theorem written_writeJson (hname : Path.IsName name) {value : Json} {result : Except Error Unit}
    (h : v.writeJson (folder.child name) value = (result, v')) :
    Written v folder name value.document result v' := by
  unfold writeJson at h
  cases hreplace : v.replaceFile (folder.child name) value.document with
  | mk outcome v₁ =>
    have hwritten := written_replaceFile hname hreplace
    cases outcome with
    | ok u =>
      simp only [hreplace] at h
      cases h
      exact hwritten.of_ok_iff (by simp)
    | error fault =>
      cases fault with
      | notPrepared =>
        simp only [hreplace] at h
        cases h
        exact hwritten.of_ok_iff (by simp)
      | notWritten =>
        simp only [hreplace] at h
        cases h
        exact hwritten.of_ok_iff (by simp)

/-- A file that a larger volume has can be written, unless the medium refuses, and the volume stays
within the larger one. -/
theorem writeJson_within (hname : Path.IsName name) {larger : Volume} (h : v.Within larger)
    (hfile : (larger.content? (folder.child name)).isSome) (value : Json) :
    (v.writeJson (folder.child name) value).2.Within larger ∧
      (v.refusals.headD none = none → (v.writeJson (folder.child name) value).1 = .ok ()) := by
  rw [content?_eq, Path.names?_child hname] at hfile
  cases hfolder : folder.names? with
  | none =>
    rw [hfolder] at hfile
    cases hfile
  | some above =>
    rw [hfolder] at hfile
    obtain ⟨entries, hmade, hwithin, htarget, hput⟩ := Entries.Within.put h hfile
    have hnames : (folder.child name).names? = some (above ++ [name]) := by
      rw [Path.names?_child hname, hfolder]
      rfl
    have hparent : (folder.child name).parent.names? = some above := by
      rw [Path.parent_child hname, hfolder]
    rcases replaceFile_of_makeFolders? hnames hparent hmade value.document with
      ⟨hrefused, fault, hreplace⟩ | ⟨-, -, hreplace⟩
    · have hmedium : v.refusals.headD none ≠ none := hrefused.resolve_right htarget
      rw [writeJson, hreplace]
      cases fault with
      | notPrepared => exact ⟨hwithin, fun hnone => absurd hnone hmedium⟩
      | notWritten => exact ⟨hwithin, fun hnone => absurd hnone hmedium⟩
    · rw [writeJson, hreplace]
      exact ⟨hput _, fun _ => rfl⟩

/-! ### Several writes -/

/-- All files and folders are still there, and every file is as before that none of the paths
names. -/
structure Kept (files : List Path) (v v' : Volume) : Prop where
  within : v.Within v'
  others : ∀ p, (∀ q ∈ files, p.names? ≠ q.names?) → v'.content? p = v.content? p

variable {files files' : List Path} {larger : Volume}

theorem Kept.refl (files : List Path) (v : Volume) : Kept files v v :=
  ⟨Entries.Within.refl v.entries, fun _ _ => rfl⟩

/-- A file with a name of its own is as before. -/
theorem Kept.content?_child (h : Kept files v v') (hname : Path.IsName name)
    (hfiles : ∀ q ∈ files, ∃ (folder' : Path) (name' : Text),
      q = folder'.child name' ∧ Path.IsName name' ∧ name ≠ name') :
    v'.content? (folder.child name) = v.content? (folder.child name) := by
  cases hnames : (folder.child name).names? with
  | none =>
    simp only [content?_eq, hnames, Option.bind_none]
  | some names =>
    apply h.others
    intro q hq
    obtain ⟨folder', name', rfl, hname', hne⟩ := hfiles q hq
    rw [hnames]
    exact (Path.names?_child_ne hname hname' hne hnames).symm

theorem Kept.trans {v'' : Volume} (h : Kept files v v') (h' : Kept files' v' v'')
    (hsub : files' ⊆ files) : Kept files v v'' := by
  refine ⟨Entries.Within.trans h.within h'.within, fun p hp => ?_⟩
  rw [h'.others p fun q hq => hp q (hsub hq), h.others p hp]

theorem Kept.mono (h : Kept files v v') (hsub : files ⊆ files') : Kept files' v v' :=
  ⟨h.within, fun p hp => h.others p fun q hq => hp q (hsub hq)⟩

theorem Written.kept {ε : Type} {result : Except ε Unit}
    (h : Written v folder name document result v') : Kept [folder.child name] v v' :=
  ⟨h.within, fun p hp => h.others p (hp _ (List.mem_singleton_self _))⟩

/-- A volume whose medium refuses nothing, and whose files and folders are all in another. -/
structure FreeWithin (v larger : Volume) : Prop where
  within : v.Within larger
  refusals : v.refusals = []

/-- A file that the larger volume has can be written. -/
theorem FreeWithin.writeJson (h : v.FreeWithin larger) (hname : Path.IsName name)
    (hfile : (larger.content? (folder.child name)).isSome) (value : Json) :
    ∃ v', v.writeJson (folder.child name) value = (.ok (), v') ∧ v'.FreeWithin larger := by
  obtain ⟨hwithin, hok⟩ := writeJson_within hname h.within hfile value
  have hhead : v.refusals.headD none = none := by
    rw [h.refusals]
    rfl
  cases hwrite : v.writeJson (folder.child name) value with
  | mk result v' =>
    have hwritten := written_writeJson hname hwrite
    rw [hwrite] at hwithin hok
    obtain rfl : result = .ok () := hok hhead
    refine ⟨v', rfl, hwithin, ?_⟩
    rw [hwritten.refusals, h.refusals]
    rfl

end Volume

end Localize
