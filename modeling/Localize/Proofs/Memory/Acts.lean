import Localize.Proofs.Memory.History

/-!
# Deeds and their acts

What is done to a memory from outside, a deed, is done one act at a time: a batch is stored text by
text, a document of another memory item by item, and the file is written behind some of the acts. A
property that every act keeps is kept by every deed, and it holds between the acts as well.
-/

namespace Localize.Memory

/-- One thing done to a memory, behind which its file is written or not. -/
inductive Act where
  | store (d : Direction) (text translation : Json) (notes : Fields) (verified : Bool)
  | update (d : Direction) (text translation : Text)
  | verify (d : Direction) (text : Text)
  | delete (d : Direction) (text : Text)
  | clear
  | lookup (d : Direction) (text : Text)
  | save

/-- What can be done to a memory: an operation, or taking over the document of another memory. -/
inductive Deed where
  | ofOp (op : Op)
  | importFrom (origin : Text)

/-- A memory and the volume with its file. -/
abbrev State := Memory × Volume

def Act.perform (now : Nat) (s : State) : Act → Except Failure Outcome × State
  | .store d text translation notes verified =>
    ending (fun _ => .done) (s.1.store now s.2 d text translation notes verified)
  | .update d text translation => ending .changed (s.1.update now s.2 d text translation)
  | .verify d text => ending .changed (s.1.verify now s.2 d text)
  | .delete d text => ending .changed (s.1.delete now s.2 d text)
  | .clear => ending (fun _ => .done) (s.1.clear now s.2)
  | .lookup d text =>
    let (result, m) := s.1.lookup now d text
    ending .found (result.mapError .fault, m, s.2)
  | .save => ending (fun _ => .done) (s.1.saved now s.2 ())

/-- The state that acts at their times lead to, one after another. -/
def performed (s : State) (acts : List (Nat × Act)) : State :=
  acts.foldl (fun s a => (a.2.perform a.1 s).2) s

theorem performed_append (s : State) (first rest : List (Nat × Act)) :
    performed s (first ++ rest) = performed (performed s first) rest :=
  List.foldl_append

/-- Of the acts of a deed the first ones, up to the first that fails. -/
def attempted (now : Nat) (s : State) : List Act → List (Nat × Act)
  | [] => []
  | act :: rest =>
    (now, act) ::
      match act.perform now s with
      | (.ok _, s) => attempted now s rest
      | (.error _, _) => []

/-- The acts that a document of another memory asks for, the file written at the end. An item
without a reading is the last that is looked at. -/
def importActs : List Json → List Act
  | [] => [.save]
  | item :: rest =>
    match importable? item with
    | .error _ => []
    | .ok none => importActs rest
    | .ok (some (d, source, translation, verified)) =>
      .store d source translation [] verified :: importActs rest

namespace Deed

def perform (now : Nat) (s : State) : Deed → State
  | .ofOp op => (op.perform now s.1 s.2).2
  | .importFrom origin => (s.1.importFrom now s.2 origin).2

/-- The acts of a deed if none of them fails; which ones an import has depends on the document. -/
def plan (v : Volume) : Deed → List Act
  | .ofOp (.store s g text translation notes verified) =>
    [.store (.ofCodes s g) text translation notes verified]
  | .ofOp (.storeAll s g notes pairs) =>
    pairs.map fun p => .store (.ofCodes s g) (.str p.1) p.2 notes false
  | .ofOp (.update s g t u) => [.update (.ofCodes s g) t u]
  | .ofOp (.verify s g t) => [.verify (.ofCodes s g) t]
  | .ofOp (.delete s g t) => [.delete (.ofCodes s g) t]
  | .ofOp .clear => [.clear]
  | .ofOp (.lookup s g t) => [.lookup (.ofCodes s g) t]
  | .ofOp (.lookupAll s g texts) => texts.map (.lookup (.ofCodes s g))
  | .ofOp .save => [.save]
  | .importFrom origin =>
    match v.readJson (.ofText origin) with
    | .ok (some document) =>
      match Json.elementsOrNone (document.field? "entries".toList) with
      | .ok items => importActs items
      | .error _ => []
    | _ => []

/-- The acts of a deed that are performed. -/
def acts (now : Nat) (s : State) (deed : Deed) : List (Nat × Act) :=
  attempted now s (deed.plan s.2)

end Deed

/-- The state that deeds at their times lead to. -/
def done (s : State) (deeds : List (Nat × Deed)) : State :=
  deeds.foldl (fun s d => d.2.perform d.1 s) s

/-- All acts of some deeds, in turn. -/
def actsOf (s : State) : List (Nat × Deed) → List (Nat × Act)
  | [] => []
  | (now, deed) :: rest => deed.acts now s ++ actsOf (deed.perform now s) rest

variable {now : Nat} {s : State} {m m' : Memory} {v v' : Volume}

theorem performed_attempted (act : Act) (rest : List Act) :
    performed s (attempted now s (act :: rest)) =
      match act.perform now s with
      | (.ok _, s) => performed s (attempted now s rest)
      | (.error _, s) => s := by
  rw [attempted, performed, List.foldl_cons]
  cases hperform : act.perform now s with
  | mk result s' =>
    cases result with
    | ok outcome => rfl
    | error failure => rfl

/-- A deed of one act. -/
theorem performed_attempted_single (act : Act) :
    performed s (attempted now s [act]) = (act.perform now s).2 := by
  rw [performed_attempted]
  cases act.perform now s with
  | mk result s' =>
    cases result with
    | ok outcome => rfl
    | error failure => rfl

theorem performed_storeAll (d : Direction) (notes : Fields) (pairs : List (Text × Json)) :
    performed (m, v) (attempted now (m, v)
        (pairs.map fun p => .store d (.str p.1) p.2 notes false)) =
      (m.storeAll now v d notes pairs).2 := by
  induction pairs generalizing m v with
  | nil => rfl
  | cons p pairs ih =>
    obtain ⟨text, translation⟩ := p
    rw [List.map_cons, performed_attempted, storeAll, Act.perform]
    cases hstore : m.store now v d (.str text) translation notes false with
    | mk result s' =>
      obtain ⟨m', v'⟩ := s'
      cases result with
      | ok e => exact ih
      | error failure => rfl

theorem performed_lookupAll (d : Direction) (texts : List Text) (found : Lookups) :
    performed (m, v) (attempted now (m, v) (texts.map (.lookup d))) =
      ((lookupAll.go now d m found texts).2, v) := by
  induction texts generalizing m found with
  | nil => rfl
  | cons t texts ih =>
    rw [List.map_cons, performed_attempted, lookupAll.go, Act.perform]
    cases hlookup : m.lookup now d t with
    | mk result m' =>
      cases result with
      | error fault => rfl
      | ok translation =>
        cases translation with
        | none => exact ih _
        | some value => cases value <;> exact ih _

/-- Saving leaves the same state whatever it is to give. -/
theorem saved_state {α β : Type} (a : α) (b : β) : (m.saved now v a).2 = (m.saved now v b).2 := by
  unfold saved
  cases m.save now v with
  | mk result v' =>
    cases result with
    | ok u => rfl
    | error failure => rfl

theorem performed_import (items : List Json) (count : Nat) :
    performed (m, v) (attempted now (m, v) (importActs items)) =
      match m.importItems now v count items with
      | (.error _, s) => s
      | (.ok count, s) => (s.1.saved now s.2 count).2 := by
  induction items generalizing m v count with
  | nil =>
    rw [importActs, performed_attempted_single, importItems]
    exact saved_state () count
  | cons item items ih =>
    rw [importActs, importItems]
    cases himport : importable? item with
    | error fault => rfl
    | ok entry =>
      cases entry with
      | none => exact ih count
      | some entry =>
        obtain ⟨d, source, translation, verified⟩ := entry
        simp only
        rw [performed_attempted, Act.perform]
        cases hstore : m.store now v d source translation [] verified with
        | mk result s' =>
          obtain ⟨m', v'⟩ := s'
          cases result with
          | ok e => exact ih (count + 1)
          | error failure => rfl

/-- A deed leads where its acts lead. -/
theorem Deed.perform_eq (deed : Deed) (s : State) :
    deed.perform now s = performed s (deed.acts now s) := by
  obtain ⟨m, v⟩ := s
  cases deed with
  | ofOp op =>
    cases op with
    | storeAll s g notes pairs => exact (performed_storeAll _ notes pairs).symm
    | lookupAll s g texts =>
      rw [acts, plan, performed_lookupAll _ _ ⟨[], []⟩]
      rfl
    | store s g text translation notes verified | update s g t u | verify s g t | delete s g t
    | clear | lookup s g t | save =>
      rw [acts, plan, performed_attempted_single]
      rfl
  | importFrom origin =>
    simp only [perform, acts, plan, Memory.importFrom]
    cases hread : v.readJson (.ofText origin) with
    | error failure => rfl
    | ok document =>
      cases document with
      | none => rfl
      | some document =>
        simp only
        cases hitems : Json.elementsOrNone (document.field? "entries".toList) with
        | error fault => rfl
        | ok items =>
          simp only
          rw [performed_import items 0]
          cases m.importItems now v 0 items with
          | mk result s' =>
            cases result with
            | error failure => rfl
            | ok count => rfl

/-- Deeds lead where all their acts lead. -/
theorem done_eq (deeds : List (Nat × Deed)) (s : State) :
    done s deeds = performed s (actsOf s deeds) := by
  induction deeds generalizing s with
  | nil => rfl
  | cons p deeds ih =>
    obtain ⟨now, deed⟩ := p
    rw [actsOf, performed_append, ← deed.perform_eq, ← ih]
    rfl

theorem mem_attempted {acts : List Act} {a : Nat × Act} (h : a ∈ attempted now s acts) :
    a.1 = now ∧ a.2 ∈ acts := by
  induction acts generalizing s with
  | nil => cases h
  | cons act acts ih =>
    rw [attempted] at h
    obtain rfl | h := List.mem_cons.mp h
    · exact ⟨rfl, List.mem_cons_self⟩
    · split at h
      · exact (ih h).imp_right (List.mem_cons_of_mem act)
      · cases h

/-! ### What no act changes -/

/-- A memory with the same folder and the same interval of saving. -/
def SameSettings (m m' : Memory) : Prop :=
  m'.folder = m.folder ∧ m'.autosaveEvery = m.autosaveEvery

/-- Saving does not change the memory. -/
theorem saved_memory {α : Type} (a : α) : (m.saved now v a).2.1 = m := by
  unfold saved
  cases m.save now v with
  | mk result v' =>
    cases result with
    | ok u => rfl
    | error failure => rfl

theorem put_sameSettings (now : Nat) (d : Direction) (t : Text) (e : Entry) :
    m.SameSettings (m.put now d t e).2 := by
  unfold put
  dsimp only
  split <;> exact ⟨rfl, rfl⟩

/-- Whether the file is written behind it or not, storing leaves the memory with the new entry. -/
theorem store_memory {t u : Text} (hblank : Text.allBlank t = false) (now : Nat) (v : Volume)
    (d : Direction) (notes : Fields) (verified : Bool) :
    (m.store now v d (.str t) (.str u) notes verified).2.1 =
      (m.put now d t (Entry.ofTranslation now d t u verified (keptNotes notes))).2 := by
  unfold store
  simp only [hblank, Bool.false_eq_true, if_false]
  cases m.put now d t (Entry.ofTranslation now d t u verified (keptNotes notes)) with
  | mk result m' =>
    cases result with
    | error fault => rfl
    | ok done =>
      dsimp only
      split
      · cases m'.save now v with
        | mk result v' => cases result <;> rfl
      · rfl

theorem store_sameSettings (d : Direction) (text translation : Json) (notes : Fields)
    (verified : Bool) : m.SameSettings (m.store now v d text translation notes verified).2.1 := by
  by_cases hstorable : Storable text translation
  · obtain ⟨t, u, rfl, rfl, hblank⟩ := hstorable
    rw [store_memory hblank]
    exact put_sameSettings now d t _
  · obtain ⟨failure, hstore⟩ :=
      store_unstorable (m := m) (v := v) hstorable now d notes verified
    rw [hstore]
    exact ⟨rfl, rfl⟩

theorem lookup_sameSettings (d : Direction) (t : Text) : m.SameSettings (m.lookup now d t).2 := by
  unfold lookup
  split
  · next e _ =>
    have htouch : m.SameSettings (m.touch now d t e).2 := by
      unfold touch
      dsimp only
      split
      · exact ⟨rfl, rfl⟩
      · split <;> exact ⟨rfl, rfl⟩
    cases hresult : m.touch now d t e with
    | mk result m' =>
      rw [hresult] at htouch
      cases result <;> exact htouch
  · split <;> exact ⟨rfl, rfl⟩

theorem change_sameSettings (d : Direction) (t : Text) (f : Entry → Entry) :
    m.SameSettings (m.change now v d t f).2.1 := by
  unfold change
  split
  · exact ⟨rfl, rfl⟩
  · rw [saved_memory]
    exact ⟨rfl, rfl⟩

theorem Act.perform_sameSettings (act : Act) (now : Nat) (s : State) :
    s.1.SameSettings (act.perform now s).2.1 := by
  cases act with
  | store d text translation notes verified =>
    exact store_sameSettings d text translation notes verified
  | update d text translation => exact change_sameSettings d text _
  | verify d text => exact change_sameSettings d text _
  | delete d text =>
    change s.1.SameSettings (s.1.delete now s.2 d text).2.1
    unfold Memory.delete
    split
    · exact ⟨rfl, rfl⟩
    · rw [saved_memory]
      exact ⟨rfl, rfl⟩
  | clear =>
    change s.1.SameSettings (Memory.saved _ now s.2 ()).2.1
    rw [saved_memory]
    exact ⟨rfl, rfl⟩
  | lookup d text => exact lookup_sameSettings d text
  | save =>
    change s.1.SameSettings (s.1.saved now s.2 ()).2.1
    rw [saved_memory]
    exact ⟨rfl, rfl⟩

theorem performed_sameSettings (s : State) (acts : List (Nat × Act)) :
    s.1.SameSettings (performed s acts).1 := by
  induction acts generalizing s with
  | nil => exact ⟨rfl, rfl⟩
  | cons a acts ih =>
    have hfirst := a.2.perform_sameSettings a.1 s
    have hrest := ih (a.2.perform a.1 s).2
    exact ⟨hrest.1.trans hfirst.1, hrest.2.trans hfirst.2⟩

/-! ### What storing does with whole counters -/

/-- A memory with a new entry, counted as the given addition. -/
def stocked (m : Memory) (now : Nat) (d : Direction) (text : Text) (e : Entry) (additions : Int) :
    Memory :=
  let m := { m.setEntry d text e with counters := { m.counters with additions := .int additions } }
  (m.setHeader "lastModified" (.nat now)).setHeader "totalEntries" (.nat m.size)

theorem next_int (n : Int) : Counters.next (.int n) = .ok (.int (n + 1)) := rfl

theorem store_eq {n : Int} (h : m.counters.additions = .int n) (now : Nat) (v : Volume)
    (d : Direction) {t u : Text} (hblank : Text.allBlank t = false) (notes : Fields)
    (verified : Bool) {e : Entry}
    (he : e = Entry.ofTranslation now d t u verified (keptNotes notes)) :
    m.store now v d (.str t) (.str u) notes verified =
      if (m.stocked now d t e (n + 1)).dueForSave then (m.stocked now d t e (n + 1)).saved now v e
      else (.ok e, m.stocked now d t e (n + 1), v) := by
  have hsame : (m.setEntry d t e).counters.additions = .int n := h
  have hput : m.put now d t e = (.ok (), m.stocked now d t e (n + 1)) := by
    unfold put
    simp only [hsame, next_int]
    rfl
  subst he
  unfold store
  simp only [hblank, hput, Bool.false_eq_true, if_false]
  rfl

/-- An addition is due for saving at the multiples of the setting. -/
theorem dueForSave_stocked (m : Memory) (now : Nat) (d : Direction) (t : Text) (e : Entry)
    (n : Int) :
    (m.stocked now d t e n).dueForSave = (decide (m.autosaveEvery ≠ 0) &&
      decide (n % m.autosaveEvery = 0)) := by
  have hcount : (m.stocked now d t e n).counters.additions.quantity? = some (.whole n) := rfl
  unfold dueForSave
  simp only [hcount, Quantity.isMultipleOf, Quantity.fraction?, Nat.cast_one, one_mul]
  rfl

end Localize.Memory
