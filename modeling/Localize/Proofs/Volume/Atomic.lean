import Localize.Proofs.Volume.Writing

/-!
# Writes that are all or nothing

Whatever path a document is written to, the file at that path holds the whole document when the
write is done, and every file holds what it held before when the write fails; in both cases no other
file changes, so no temporary one is left. Documents written in turn, up to the first write that
fails, therefore leave in every file what was there before or one of the documents.
-/

namespace Localize

/-- A path leads to something in the folder to which its parent leads, or to a folder above. -/
theorem Path.names?_cases {p : Path} {target above : List Text} (h : p.names? = some target)
    (hparent : p.parent.names? = some above) :
    target <+: above ∨ ∃ name, target = above ++ [name] := by
  obtain ⟨rooted, parts⟩ := p
  obtain rfl | ⟨parts, last, rfl⟩ := parts.eq_nil_or_concat'
  · cases h.symm.trans hparent
    exact .inl (List.prefix_refl _)
  · rw [parent, List.dropLast_concat] at hparent
    by_cases hup : last = ['.', '.']
    · subst hup
      rw [names?_up, hparent, Option.bind_some] at h
      split_ifs at h
      cases h
      exact .inl above.dropLast_prefix
    · rw [names?_concat hup, hparent] at h
      cases h
      exact .inr ⟨last, rfl⟩

/-- A document and the path of its file. -/
structure Writing where
  path : Path
  document : Json

namespace Volume

open Entries

/-- Every file is there that was there before, with what it held, and no other. -/
def SameFiles (v v' : Volume) : Prop :=
  ∀ names, v'.entries.content? names = v.entries.content? names

variable {v v' v₁ v₂ : Volume} {p : Path}

theorem SameFiles.refl (v : Volume) : v.SameFiles v := fun _ => rfl

theorem sameFiles_makeFolder? (h : v.makeFolder? p = some v') : v.SameFiles v' := by
  unfold makeFolder? at h
  obtain ⟨names, -, h⟩ := Option.bind_eq_some_iff.mp h
  obtain ⟨entries, hmade, h⟩ := Option.bind_eq_some_iff.mp h
  cases h
  exact content?_makeFolders? hmade

/-- A file is replaced as a whole or no file changes. -/
theorem replaceFile_cases (v : Volume) (p : Path) (document : Text) :
    (∃ v', v.replaceFile p document = (.ok (), v') ∧ ∀ names, v'.entries.content? names =
        if p.names? = some names then some (.text document) else v.entries.content? names) ∨
      ∃ fault v', v.replaceFile p document = (.error fault, v') ∧ v.SameFiles v' := by
  have hunprepared : v.SameFiles ⟨v.entries, v.refusals.tail⟩ := fun _ => rfl
  cases htarget : p.names? with
  | none => exact .inr ⟨.notPrepared, _, by simp only [replaceFile, htarget], hunprepared⟩
  | some target =>
    cases habove : p.parent.names? with
    | none =>
      exact .inr ⟨.notPrepared, _, by simp only [replaceFile, htarget, habove], hunprepared⟩
    | some above =>
      cases hmade : v.entries.makeFolders? above with
      | none =>
        exact .inr ⟨.notPrepared, _, by simp only [replaceFile, htarget, habove, hmade],
          hunprepared⟩
      | some entries =>
        rcases replaceFile_of_makeFolders? htarget habove hmade document with
          ⟨-, fault, hreplace⟩ | ⟨-, hfree, hreplace⟩
        · exact .inr ⟨fault, _, hreplace, content?_makeFolders? hmade⟩
        · have hfolder : ∀ leading, leading <+: above → entries.HasFolder leading :=
            fun leading hleading => (hasFolder_makeFolders?_iff hmade).mpr (.inr hleading)
          rcases Path.names?_cases htarget habove with hup | ⟨name, rfl⟩
          · exact absurd (hfolder _ hup) hfree
          · refine .inl ⟨_, hreplace, fun names => ?_⟩
            rw [content?_putFile (hfolder _ (List.prefix_refl above)) hfree,
              content?_makeFolders? hmade]
            simp only [Option.some.injEq, eq_comm]

theorem writeJson_cases (v : Volume) (p : Path) (value : Json) :
    (∃ v', v.writeJson p value = (.ok (), v') ∧ ∀ names, v'.entries.content? names =
        if p.names? = some names then some (.text value.document)
        else v.entries.content? names) ∨
      ∃ e v', v.writeJson p value = (.error e, v') ∧ e.category = .persistence ∧
        v.SameFiles v' := by
  rcases replaceFile_cases v p value.document with
    ⟨v', hreplace, hfiles⟩ | ⟨fault, v', hreplace, hfiles⟩
  · exact .inl ⟨v', by simp only [writeJson, hreplace], hfiles⟩
  · right
    cases fault with
    | notPrepared =>
      exact ⟨.writeNotPrepared p, v', by simp only [writeJson, hreplace], rfl, hfiles⟩
    | notWritten => exact ⟨.writeFailed p, v', by simp only [writeJson, hreplace], rfl, hfiles⟩

/-- A write that succeeds makes the folders above the file and puts it where no folder is. -/
theorem exists_put_of_writeJson {value : Json} (h : v.writeJson p value = (.ok (), v')) :
    ∃ above name entries, p.names? = some (above ++ [name]) ∧ p.parent.names? = some above ∧
      v.entries.makeFolders? above = some entries ∧ ¬ entries.HasFolder (above ++ [name]) ∧
      v' = ⟨entries.putFile (above ++ [name]) (.text value.document), v.refusals.tail⟩ := by
  have hreplace : v.replaceFile p value.document = (.ok (), v') := by
    unfold writeJson at h
    split at h
    · next hdone =>
      cases h
      exact hdone
    · cases h
    · cases h
  cases htarget : p.names? with
  | none =>
    simp only [replaceFile, htarget] at hreplace
    cases hreplace
  | some target =>
    cases habove : p.parent.names? with
    | none =>
      simp only [replaceFile, htarget, habove] at hreplace
      cases hreplace
    | some above =>
      cases hmade : v.entries.makeFolders? above with
      | none =>
        simp only [replaceFile, htarget, habove, hmade] at hreplace
        cases hreplace
      | some entries =>
        rcases replaceFile_of_makeFolders? htarget habove hmade value.document with
          ⟨-, fault, hfailed⟩ | ⟨-, hfree, hdone⟩
        · rw [hfailed] at hreplace
          cases hreplace
        · rw [hdone] at hreplace
          cases hreplace
          rcases Path.names?_cases htarget habove with hup | ⟨name, rfl⟩
          · exact absurd ((hasFolder_makeFolders?_iff hmade).mpr (.inr hup)) hfree
          · exact ⟨above, name, entries, rfl, rfl, hmade, hfree, rfl⟩

/-- Behind a write that succeeds the document is at the path. -/
theorem content?_of_writeJson {value : Json} (h : v.writeJson p value = (.ok (), v')) :
    v'.content? p = some (.text value.document) := by
  obtain ⟨above, name, entries, htarget, -⟩ := exists_put_of_writeJson h
  rcases v.writeJson_cases p value with ⟨w, hdone, hfiles⟩ | ⟨e, w, hfailed, -⟩
  · cases h.symm.trans hdone
    rw [content?_eq, htarget, Option.bind_some, hfiles, if_pos htarget]
  · cases h.symm.trans hfailed

/-- The medium refuses nothing, and a file can be put at the path. -/
structure CanWrite (v : Volume) (p : Path) : Prop where
  refusals : v.refusals = []
  place : ∃ value v', v.writeJson p value = (.ok (), v')

theorem canWrite_of_isOk (hrefusals : v.refusals = [])
    (hplace : (v.writeJson p .null).1.isOk = true) : v.CanWrite p := by
  cases hwrite : v.writeJson p .null with
  | mk result v' =>
    rw [hwrite] at hplace
    cases result with
    | ok done => exact ⟨hrefusals, .null, v', hwrite⟩
    | error e => cases hplace

/-- A file that can be written once can be written again and again. -/
theorem CanWrite.writeJson (h : v.CanWrite p) (value : Json) :
    ∃ v', v.writeJson p value = (.ok (), v') ∧ v'.CanWrite p := by
  obtain ⟨value', v₁, hwrite⟩ := h.place
  obtain ⟨above, name, entries, htarget, habove, hmade, hfree, -⟩ := exists_put_of_writeJson hwrite
  have hdone {v : Volume} {entries : Entries} (hrefusals : v.refusals = [])
      (hmade : v.entries.makeFolders? above = some entries)
      (hfree : ¬ entries.HasFolder (above ++ [name])) (value : Json) : v.writeJson p value =
        (.ok (), ⟨entries.putFile (above ++ [name]) (.text value.document), []⟩) := by
    rcases replaceFile_of_makeFolders? htarget habove hmade value.document with
      ⟨hrefused | hblocked, -⟩ | ⟨-, -, hreplace⟩
    · rw [hrefusals] at hrefused
      exact absurd rfl hrefused
    · exact absurd hblocked hfree
    · rw [Volume.writeJson, hreplace, hrefusals]
      rfl
  have hfolder : entries.HasFolder above :=
    (hasFolder_makeFolders?_iff hmade).mpr (.inr (List.prefix_refl above))
  -- behind the write the folders are there, and still there is none at the place of the file
  have hway : ∀ other, other <+: above →
      (entries.putFile (above ++ [name]) (.text value.document)).content? other = none := by
    intro other hleading
    have hother := (hfolder.of_prefix hleading)
    exact ((hasFolder_putFile_iff hfolder hfree _).mpr hother).content?_eq_none
  obtain ⟨entries', hmade'⟩ := exists_makeFolders? hway
  have hfree' : ¬ entries'.HasFolder (above ++ [name]) := fun hblocked => by
    rcases (hasFolder_makeFolders?_iff hmade').mp hblocked with hblocked | hleading
    · exact hfree ((hasFolder_putFile_iff hfolder hfree _).mp hblocked)
    · simpa using hleading.length_le
  exact ⟨_, hdone h.refusals hmade hfree value, rfl, value, _, hdone rfl hmade' hfree' value⟩

/-! ### Writes in turn -/

/-- Writes documents one after another, up to the first write that fails. -/
def writeInTurn (v : Volume) : List Writing → Except Error Unit × Volume
  | [] => (.ok (), v)
  | w :: rest =>
    match v.writeJson w.path w.document with
    | (.ok (), v) => v.writeInTurn rest
    | (.error e, v) => (.error e, v)

theorem writeInTurn_append {first : List Writing} (h : v.writeInTurn first = (.ok (), v₁))
    (rest : List Writing) :
    v.writeInTurn (first ++ rest) = v₁.writeInTurn rest := by
  induction first generalizing v with
  | nil =>
    cases h
    rfl
  | cons w first ih =>
    rw [List.cons_append, writeInTurn]
    rw [writeInTurn] at h
    split at h
    · exact ih h
    · cases h

/-! ### Operations that write -/

/-- An operation does nothing to a volume but write some documents in turn, and it ends in the error
of a write that fails. -/
structure Writes {α : Type} (writings : List Writing) (v : Volume) (r : Except Failure α)
    (v' : Volume) : Prop where
  after : (v.writeInTurn writings).2 = v'
  failed : ∀ e, (v.writeInTurn writings).1 = .error e → r = .error (.error e)

variable {α β : Type} {writings rest : List Writing} {r : Except Failure α} {r' : Except Failure β}

theorem Writes.nothing (v : Volume) (r : Except Failure α) : Writes [] v r v :=
  ⟨rfl, fun _ h => nomatch h⟩

theorem Writes.one {value : Json} {result : Except Error Unit}
    (h : v.writeJson p value = (result, v'))
    (hr : ∀ e, result = .error e → r = .error (.error e)) : Writes [⟨p, value⟩] v r v' := by
  cases result with
  | ok done =>
    have hall : v.writeInTurn [⟨p, value⟩] = (.ok (), v') := by
      simp only [writeInTurn, h]
    exact ⟨by rw [hall], fun e he => by rw [hall] at he; cases he⟩
  | error e =>
    have hall : v.writeInTurn [⟨p, value⟩] = (.error e, v') := by
      simp only [writeInTurn, h]
    exact ⟨by rw [hall], fun e he => hr e (by rwa [hall] at he)⟩

theorem Writes.of_error (h : Writes writings v r v')
    (hr : ∀ failure, r = .error failure → r' = .error failure) : Writes writings v r' v' :=
  ⟨h.after, fun e he => hr _ (h.failed e he)⟩

/-- What is written by an operation that succeeds and by the next one. -/
theorem Writes.trans {a : α} (h : Writes writings v (.ok a : Except Failure α) v₁)
    (h' : Writes rest v₁ r' v') : Writes (writings ++ rest) v r' v' := by
  have hok : v.writeInTurn writings = (.ok (), v₁) := by
    rw [← h.after]
    cases hresult : (v.writeInTurn writings).1 with
    | ok done => exact Prod.ext hresult rfl
    | error e => cases h.failed e hresult
  have hall := writeInTurn_append hok rest
  exact ⟨by rw [hall, h'.after], fun e he => h'.failed e (by rwa [hall] at he)⟩

end Volume

/-! ### Acts in turn -/

section

variable {α A S : Type} (perform : A → S → Except Failure Unit × S)

/-- An outcome with what it leaves, whatever value it gives. -/
def valueless (r : Except Failure α × S) : Except Failure Unit × S :=
  (r.1.map fun _ => (), r.2)

/-- Acts one after another, up to the first that fails. -/
def inTurn (s : S) : List A → Except Failure Unit × S
  | [] => (.ok (), s)
  | a :: rest =>
    match perform a s with
    | (.ok (), s) => inTurn s rest
    | (.error failure, s) => (.error failure, s)

/-- The states behind the acts that are performed. -/
def statesInTurn (s : S) : List A → List S
  | [] => []
  | a :: rest =>
    (perform a s).2 ::
      match perform a s with
      | (.ok (), s) => statesInTurn s rest
      | (.error _, _) => []

/-- What the acts that are performed write. -/
def writingsInTurn (writing? : A → S → Option Writing) (s : S) : List A → List Writing
  | [] => []
  | a :: rest =>
    (writing? a s).toList ++
      match perform a s with
      | (.ok (), s) => writingsInTurn writing? s rest
      | (.error _, _) => []

/-- What an operation comes to, in terms of what its acts come to: it leaves the same, and fails
where they fail. -/
structure Agrees (r run : Except Failure Unit × S) : Prop where
  leaves : r.2 = run.2
  fails : ∀ failure, run.1 = .error failure → r.1 = .error failure

theorem Agrees.refl (r : Except Failure Unit × S) : Agrees r r := ⟨rfl, fun _ => id⟩

theorem valueless_unit (r : Except Failure Unit × S) : valueless r = r := by
  obtain ⟨result, s⟩ := r
  cases result <;> rfl

variable {perform} {writing? : A → S → Option Writing}

/-- No acts are what an operation comes to that leaves all as it is. -/
theorem Agrees.nothing (r : Except Failure Unit) (s : S) : Agrees (r, s) (inTurn perform s []) :=
  ⟨rfl, fun _ h => nomatch h⟩

theorem inTurn_single (a : A) (s : S) : inTurn perform s [a] = perform a s := by
  rw [inTurn]
  rcases perform a s with ⟨r, s'⟩
  cases r <;> rfl

/-- Acts that each write what they tell write all that together. -/
theorem inTurn_writes (volume : S → Volume)
    (h : ∀ a s, Volume.Writes (writing? a s).toList (volume s) (perform a s).1
      (volume (perform a s).2)) (s : S) (acts : List A) :
    Volume.Writes (writingsInTurn perform writing? s acts) (volume s) (inTurn perform s acts).1
      (volume (inTurn perform s acts).2) := by
  induction acts generalizing s with
  | nil => exact .nothing _ _
  | cons a acts ih =>
    have hfirst := h a s
    rw [inTurn, writingsInTurn]
    rcases hperform : perform a s with ⟨r, s'⟩
    rw [hperform] at hfirst
    cases r with
    | ok done => exact hfirst.trans (ih s')
    | error failure =>
      rw [List.append_nil]
      exact hfirst

/-- What no act changes is the same behind each of them and behind all. -/
theorem eq_of_inTurn {B : Type} {f : S → B} (h : ∀ a s, f (perform a s).2 = f s) (s : S)
    (acts : List A) :
    f (inTurn perform s acts).2 = f s ∧ ∀ s' ∈ statesInTurn perform s acts, f s' = f s := by
  induction acts generalizing s with
  | nil => exact ⟨rfl, List.forall_mem_nil _⟩
  | cons a acts ih =>
    have hfirst := h a s
    rw [inTurn, statesInTurn, List.forall_mem_cons]
    rcases hperform : perform a s with ⟨r, s'⟩
    rw [hperform] at hfirst
    cases r with
    | ok done =>
      obtain ⟨hend, hstates⟩ := ih s'
      exact ⟨hend.trans hfirst, hfirst, fun s'' hs'' => (hstates s'' hs'').trans hfirst⟩
    | error failure => exact ⟨hfirst, hfirst, List.forall_mem_nil _⟩

end

end Localize
