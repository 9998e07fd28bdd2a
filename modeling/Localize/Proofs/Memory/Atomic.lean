import Localize.Proofs.Memory.Acts
import Localize.Proofs.Volume.Atomic

/-!
# What a memory writes

Every act of a memory either writes nothing or writes the memory's own file, whole, and as the
memory is behind it. An operation that goes item by item, a batch or an import, is one act after
another, so it may write between the items; every other operation is a single act. An export writes
the file that it names instead.
-/

namespace Localize.Memory

open Volume (Writes)

/-- The memory as it is written to its file. -/
def writing (m : Memory) (now : Nat) : Writing := ⟨m.file, m.document now⟩

/-- Whether a text that is not blank and a translation that is a text are given. -/
def isStorable : Json → Json → Bool
  | .str text, .str _ => !Text.allBlank text
  | _, _ => false

/-- An act asks for the file to be written: every so many additions, with every change of an entry,
and when all is cleared or saved. -/
def Act.saves (now : Nat) (s : State) (act : Act) : Bool :=
  match act with
  | .store _ text translation _ _ =>
    isStorable text translation && (Counters.next s.1.counters.additions).toBool &&
      (act.perform now s).2.1.dueForSave
  | .lookup _ _ => false
  | .update d text _ | .verify d text | .delete d text => (Memory.entry? s.1 d text).isSome
  | .clear | .save => true

def Act.writing? (now : Nat) (act : Act) (s : State) : Option Writing :=
  if act.saves now s then some ((act.perform now s).2.1.writing now) else none

/-- All that a memory can be asked to do. -/
inductive Task where
  | start
  | load
  | ofDeed (deed : Deed)
  | exportTo (target : Text)

namespace Task

def perform (now : Nat) (s : State) : Task → Except Failure Unit × State
  | .start => s.1.start now s.2
  | .load => s.1.load now s.2
  | .ofDeed (.ofOp op) => valueless (op.perform now s.1 s.2)
  | .ofDeed (.importFrom origin) => valueless (s.1.importFrom now s.2 origin)
  | .exportTo target =>
    let (result, v) := s.1.exportTo now s.2 target
    valueless (result, s.1, v)

/-- The volume with the folders that a task makes first. -/
def prepared (s : State) : Task → Volume
  | .start => (s.2.makeFolder? s.1.folder).getD s.2
  | _ => s.2

end Task

variable {m m' : Memory} {v v' : Volume} {s : State} {now : Nat}

theorem save_writes {r : Except Failure Unit} (h : m.save now v = (r, v')) :
    Writes [m.writing now] v r v' := by
  unfold save at h
  split at h
  · next hwrite =>
    cases h
    exact .one hwrite fun _ he => nomatch he
  · next hwrite =>
    cases h
    exact .one hwrite fun e he => by cases he; rfl

theorem saved_writes {α : Type} (m : Memory) (now : Nat) (v : Volume) (a : α) :
    Writes [(m.saved now v a).2.1.writing now] v (m.saved now v a).1 (m.saved now v a).2.2 := by
  rw [saved_memory]
  unfold saved
  rcases hsave : m.save now v with ⟨result, v₁⟩
  have hwrites := save_writes hsave
  cases result with
  | ok done => exact hwrites.of_error fun _ he => nomatch he
  | error failure => exact hwrites.of_error fun _ he => by cases he; rfl

theorem put_toBool (now : Nat) (d : Direction) (text : Text) (e : Entry) :
    (m.put now d text e).1.toBool = (Counters.next m.counters.additions).toBool := by
  have hsame : (m.setEntry d text e).counters = m.counters := rfl
  unfold put
  simp only [hsame]
  cases Counters.next m.counters.additions <;> rfl

theorem isStorable_eq_false {text translation : Json} (h : ¬Storable text translation) :
    isStorable text translation = false := by
  unfold isStorable
  split
  · next t u =>
    cases hblank : Text.allBlank t with
    | true => rfl
    | false => exact absurd ⟨t, u, rfl, rfl, hblank⟩ h
  · rfl

theorem store_writes (d : Direction) (text translation : Json) (notes : Fields)
    (verified : Bool) :
    Writes ((Act.store d text translation notes verified).writing? now (m, v)).toList v
      (m.store now v d text translation notes verified).1
      (m.store now v d text translation notes verified).2.2 := by
  by_cases hstorable : Storable text translation
  · obtain ⟨t, u, rfl, rfl, hblank⟩ := hstorable
    have hbool := put_toBool (m := m) now d t
      (Entry.ofTranslation now d t u verified (keptNotes notes))
    rcases hput : m.put now d t (Entry.ofTranslation now d t u verified (keptNotes notes)) with
      ⟨r, m₁⟩
    rw [hput] at hbool
    cases r with
    | error fault =>
      have hstore : m.store now v d (.str t) (.str u) notes verified =
          (.error (.fault fault), m₁, v) := by
        simp only [store, hblank, hput, Bool.false_eq_true, if_false]
      have hsilent : (Act.store d (.str t) (.str u) notes verified).writing? now (m, v) = none := by
        simp only [Act.writing?, Act.saves, ← hbool]
        simp [Except.toBool]
      rw [hstore, hsilent]
      exact .nothing v _
    | ok done =>
      have hstore : m.store now v d (.str t) (.str u) notes verified =
          if m₁.dueForSave then
            m₁.saved now v (Entry.ofTranslation now d t u verified (keptNotes notes))
          else (.ok (Entry.ofTranslation now d t u verified (keptNotes notes)), m₁, v) := by
        simp only [store, hblank, hput, Bool.false_eq_true, if_false]
        rfl
      have hafter :
          ((Act.store d (.str t) (.str u) notes verified).perform now (m, v)).2.1 = m₁ := by
        change (m.store now v d (.str t) (.str u) notes verified).2.1 = m₁
        rw [hstore]
        split_ifs
        · exact saved_memory _
        · rfl
      have hwriting : (Act.store d (.str t) (.str u) notes verified).writing? now (m, v) =
          if m₁.dueForSave then some (m₁.writing now) else none := by
        simp only [Act.writing?, Act.saves, isStorable, ← hbool, hafter, hblank]
        simp [Except.toBool]
      rw [hstore, hwriting]
      split_ifs
      · have hwrites := saved_writes m₁ now v
          (Entry.ofTranslation now d t u verified (keptNotes notes))
        rwa [saved_memory] at hwrites
      · exact .nothing v _
  · obtain ⟨failure, hstore⟩ := store_unstorable (m := m) (v := v) hstorable now d notes verified
    have hsilent : (Act.store d text translation notes verified).writing? now (m, v) = none := by
      simp only [Act.writing?, Act.saves, isStorable_eq_false hstorable, Bool.false_and,
        Bool.false_eq_true, if_false]
    rw [hstore, hsilent]
    exact .nothing v _

theorem change_writes (d : Direction) (text : Text) (f : Entry → Entry) :
    Writes (if (m.entry? d text).isSome then some ((m.change now v d text f).2.1.writing now)
      else none).toList v (m.change now v d text f).1 (m.change now v d text f).2.2 := by
  cases hentry : m.entry? d text with
  | none =>
    have hchange : m.change now v d text f = (.ok false, m, v) := by
      simp only [change, hentry]
    rw [hchange]
    exact .nothing v _
  | some e =>
    have hchange : m.change now v d text f = (m.setEntry d text (f e)).saved now v true := by
      simp only [change, hentry]
    rw [hchange]
    exact saved_writes _ now v true

theorem delete_writes (d : Direction) (text : Text) :
    Writes (if (m.entry? d text).isSome then some ((m.delete now v d text).2.1.writing now)
      else none).toList v (m.delete now v d text).1 (m.delete now v d text).2.2 := by
  cases hentry : m.entry? d text with
  | none =>
    have hdelete : m.delete now v d text = (.ok false, m, v) := by
      simp only [Memory.delete, hentry]
    rw [hdelete]
    exact .nothing v _
  | some e =>
    obtain ⟨m₁, hdelete⟩ : ∃ m₁ : Memory, m.delete now v d text = m₁.saved now v true := by
      simp only [Memory.delete, hentry]
      exact ⟨_, rfl⟩
    rw [hdelete]
    exact saved_writes m₁ now v true

/-- An act writes the memory as it leaves it, or nothing. -/
theorem Act.writes (act : Act) (now : Nat) (s : State) :
    Writes (act.writing? now s).toList s.2 (act.perform now s).1 (act.perform now s).2.2 := by
  obtain ⟨m, v⟩ := s
  have hended {α : Type} (f : α → Outcome) {r : Except Failure α × Memory × Volume}
      {writings : List Writing} (h : Writes writings v r.1 r.2.2) :
      Writes writings v (ending f r).1 (ending f r).2.2 :=
    h.of_error fun failure he => by rw [ending, he]; rfl
  cases act with
  | store d text translation notes verified => exact hended _ (store_writes d _ _ notes verified)
  | update d text translation => exact hended _ (change_writes d text _)
  | verify d text => exact hended _ (change_writes d text _)
  | delete d text => exact hended _ (delete_writes d text)
  | clear => exact hended (fun _ => .done) (saved_writes _ now v ())
  | lookup d text => exact .nothing v _
  | save => exact hended (fun _ => .done) (saved_writes m now v ())

def Act.run (now : Nat) (act : Act) (s : State) : Except Failure Unit × State :=
  valueless (act.perform now s)

theorem Act.run_writes (act : Act) (now : Nat) (s : State) :
    Writes (act.writing? now s).toList s.2 (act.run now s).1 (act.run now s).2.2 :=
  (act.writes now s).of_error fun failure he => by rw [run, valueless, he]; rfl

theorem valueless_ending {α : Type} (f : α → Outcome) (r : Except Failure α × State) :
    valueless (ending f r) = valueless r := by
  obtain ⟨result, s⟩ := r
  cases result <;> rfl

theorem storeAll_inTurn (d : Direction) (notes : Fields) (pairs : List (Text × Json)) :
    m.storeAll now v d notes pairs =
      inTurn (Act.run now) (m, v) (pairs.map fun p => .store d (.str p.1) p.2 notes false) := by
  induction pairs generalizing m v with
  | nil => rfl
  | cons p pairs ih =>
    obtain ⟨text, translation⟩ := p
    rw [List.map_cons, inTurn, storeAll, Act.run, Act.perform, valueless_ending]
    rcases m.store now v d (.str text) translation notes false with ⟨r, m₁, v₁⟩
    cases r with
    | ok e => exact ih
    | error failure => rfl

theorem lookupAll_inTurn (d : Direction) (texts : List Text) (found : Lookups) :
    Agrees (valueless ((lookupAll.go now d m found texts).1.mapError .fault,
        (lookupAll.go now d m found texts).2, v))
      (inTurn (Act.run now) (m, v) (texts.map (.lookup d))) := by
  induction texts generalizing m found with
  | nil => exact .refl _
  | cons t texts ih =>
    rw [List.map_cons, inTurn, lookupAll.go, Act.run, Act.perform, valueless_ending]
    rcases m.lookup now d t with ⟨r, m₁⟩
    cases r with
    | error fault => exact .refl _
    | ok translation =>
      cases translation with
      | none => exact ih _
      | some value => cases value <;> exact ih _

/-- Saving comes to the same whatever it is to give. -/
theorem valueless_saved {α β : Type} (m : Memory) (now : Nat) (v : Volume) (a : α) (b : β) :
    valueless (m.saved now v a) = valueless (m.saved now v b) := by
  unfold saved
  rcases m.save now v with ⟨r, v'⟩
  cases r <;> rfl

theorem importItems_inTurn (count : Nat) (items : List Json) :
    Agrees (valueless (match m.importItems now v count items with
        | (.error failure, m, v) => (.error failure, m, v)
        | (.ok count, m, v) => m.saved now v count))
      (inTurn (Act.run now) (m, v) (importActs items)) := by
  induction items generalizing m v count with
  | nil =>
    rw [importActs, inTurn_single, Act.run, Act.perform, valueless_ending, importItems]
    exact valueless_saved m now v count () ▸ .refl _
  | cons item items ih =>
    rw [importActs, importItems]
    cases himport : importable? item with
    | error fault => exact .nothing _ _
    | ok entry =>
      cases entry with
      | none => exact ih count
      | some entry =>
        obtain ⟨d, source, translation, verified⟩ := entry
        simp only
        rw [inTurn, Act.run, Act.perform, valueless_ending]
        rcases m.store now v d source translation [] verified with ⟨r, m₁, v₁⟩
        cases r with
        | ok e => exact ih (count + 1)
        | error failure => exact .refl _

/-- Every deed is its acts in turn. -/
theorem Deed.agrees (deed : Deed) (now : Nat) (s : State) :
    Agrees ((Task.ofDeed deed).perform now s) (inTurn (Act.run now) s (deed.plan s.2)) := by
  obtain ⟨m, v⟩ := s
  cases deed with
  | ofOp op =>
    cases op with
    | storeAll s g notes pairs =>
      rw [Task.perform, Op.perform, valueless_ending, valueless_unit, storeAll_inTurn]
      exact .refl _
    | lookupAll s g texts =>
      rw [Task.perform, Op.perform, valueless_ending]
      exact lookupAll_inTurn (.ofCodes s g) texts ⟨[], []⟩
    | store s g text translation notes verified | update s g t u | verify s g t | delete s g t
    | clear | lookup s g t | save =>
      rw [plan, inTurn_single]
      exact .refl _
  | importFrom origin =>
    simp only [Task.perform, plan, Memory.importFrom]
    cases hread : v.readJson (.ofText origin) with
    | error failure => exact .nothing _ _
    | ok document =>
      cases document with
      | none => exact .nothing _ _
      | some document =>
        simp only
        cases hitems : Json.elementsOrNone (document.field? "entries".toList) with
        | error fault => exact .nothing _ _
        | ok items => exact importItems_inTurn 0 items

/-! ### What a task writes -/

/-- A memory without a file writes its first one when it is loaded. -/
def loadWriting? (now : Nat) (s : State) : Option Writing :=
  match s.2.readJson s.1.file with
  | .ok none => some ((s.1.load now s.2).2.1.writing now)
  | _ => none

namespace Task

/-- The documents that a task asks to write, in turn. -/
def writings (now : Nat) (s : State) : Task → List Writing
  | .start =>
    match s.2.makeFolder? s.1.folder with
    | some v => (loadWriting? now (s.1, v)).toList
    | none => []
  | .load => (loadWriting? now s).toList
  | .ofDeed deed => writingsInTurn (Act.run now) (Act.writing? now) s (deed.plan s.2)
  | .exportTo target => [⟨.ofText target, s.1.exportDocument now⟩]

end Task

theorem load_writes (now : Nat) (s : State) :
    Writes (loadWriting? now s).toList s.2 (s.1.load now s.2).1 (s.1.load now s.2).2.2 := by
  have hsilent {r : Except Failure Unit} {m : Memory} (hload : s.1.load now s.2 = (r, m, s.2))
      (hread : s.2.readJson s.1.file ≠ .ok none) :
      Writes (loadWriting? now s).toList s.2 (s.1.load now s.2).1 (s.1.load now s.2).2.2 := by
    have hnone : loadWriting? now s = none := by
      unfold loadWriting?
      split
      · exact absurd ‹_› hread
      · rfl
    rw [hload, hnone]
    exact .nothing s.2 r
  cases hread : s.2.readJson s.1.file with
  | error failure =>
    refine hsilent (r := .error failure) (m := s.1) ?_ (by rw [hread]; exact nofun)
    simp only [load, hread]
  | ok document =>
    cases document with
    | none =>
      have hload : s.1.load now s.2 =
          (((s.1.setHeader "created" (.nat now)).save now s.2).1,
            s.1.setHeader "created" (.nat now),
            ((s.1.setHeader "created" (.nat now)).save now s.2).2) := by
        simp only [load, hread]
      have hwriting : loadWriting? now s = some ((s.1.load now s.2).2.1.writing now) := by
        simp only [loadWriting?, hread]
      rw [hwriting, hload]
      exact save_writes rfl
    | some value =>
      cases value with
      | obj fields =>
        refine hsilent (r := (s.1.addDocument now fields).1) (m := (s.1.addDocument now fields).2)
          ?_ (by rw [hread]; exact nofun)
        simp only [load, hread]
      | _ =>
        refine hsilent (r := .error (Error.storeNotObject .memory s.1.file)) (m := s.1) ?_
          (by rw [hread]; exact nofun)
        simp only [load, hread]

theorem exportTo_writes (target : Text) :
    Writes [⟨.ofText target, m.exportDocument now⟩] v (m.exportTo now v target).1
      (m.exportTo now v target).2 := by
  unfold exportTo
  split
  · next hwrite => exact .one hwrite fun _ he => nomatch he
  · next hwrite => exact .one hwrite fun e he => by cases he; rfl

/-- Whatever a memory is asked to do, it makes folders at most and then writes what it tells. -/
theorem Task.writes (task : Task) (now : Nat) (s : State) :
    Writes (task.writings now s) (task.prepared s) (task.perform now s).1
      (task.perform now s).2.2 := by
  cases task with
  | start =>
    cases hmade : s.2.makeFolder? s.1.folder with
    | none =>
      have hstart : s.1.start now s.2 = (.error (Error.folderNotMade .memory s.1.folder), s) := by
        simp only [Memory.start, hmade]
      simp only [perform, writings, prepared, hmade, hstart]
      exact .nothing s.2 _
    | some v =>
      have hstart : s.1.start now s.2 = s.1.load now v := by
        simp only [Memory.start, hmade]
      simp only [perform, writings, prepared, hmade, hstart]
      exact load_writes now (s.1, v)
  | load => exact load_writes now s
  | ofDeed deed =>
    have hagrees := deed.agrees now s
    have hwrites : Writes ((Task.ofDeed deed).writings now s) s.2
        (inTurn (Act.run now) s (deed.plan s.2)).1 (inTurn (Act.run now) s (deed.plan s.2)).2.2 :=
      inTurn_writes Prod.snd (fun act s => act.run_writes now s) s (deed.plan s.2)
    rw [hagrees.leaves]
    exact hwrites.of_error hagrees.fails
  | exportTo target =>
    exact (exportTo_writes target).of_error fun failure he => by
      have he : (s.1.exportTo now s.2 target).1 = .error failure := he
      change (s.1.exportTo now s.2 target).1.map _ = _
      rw [he]
      rfl

theorem Deed.folder (deed : Deed) (now : Nat) (s : State) :
    (inTurn (Act.run now) s (deed.plan s.2)).2.1.folder = s.1.folder ∧
      ∀ s' ∈ statesInTurn (Act.run now) s (deed.plan s.2), s'.1.folder = s.1.folder :=
  eq_of_inTurn (f := fun s => s.1.folder) (fun act s => (act.perform_sameSettings now s).1) s _

namespace Task

/-- The file that a task may write. -/
def target (s : State) : Task → Path
  | .exportTo target => .ofText target
  | _ => s.1.file

end Task

end Localize.Memory
