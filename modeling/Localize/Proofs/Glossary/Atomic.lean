import Localize.Proofs.Glossary.Mirroring
import Localize.Proofs.Volume.Atomic

/-!
# What a glossary writes

Every act of a glossary either writes nothing or writes the glossary's own file, whole, and as the
glossary is behind it; a glossary without a path writes nothing at all. An import adds one term
after another and writes behind each; every other operation is a single act. An export writes the
file that it names instead.
-/

namespace Localize.Glossary

open Volume (Writes)

/-- The glossary as it is written to its file, if it has one. -/
def writing? (g : Glossary) (now : Nat) : Option Writing :=
  g.path.map fun path => ⟨path, g.document now⟩

/-- One thing done to a glossary, behind which its file is written or not. -/
inductive Act where
  | add (draft : Draft)
  | update (caseSensitive : Bool) (term : Json) (revision : Revision)
  | delete (caseSensitive : Bool) (term : Json)
  | clear
  | save

namespace Act

def run (now : Nat) (act : Act) (s : State) : Except Failure Unit × State :=
  match act with
  | .add draft => valueless (s.1.add now s.2 draft)
  | .update caseSensitive term revision =>
    valueless (s.1.update now s.2 caseSensitive term revision)
  | .delete caseSensitive term => valueless (s.1.delete now s.2 caseSensitive term)
  | .clear => s.1.clear now s.2
  | .save => s.1.saved now s.2 ()

/-- An act asks for the file to be written: with every term that is added, with every change of a
term, and when all is cleared or saved. -/
def saves (now : Nat) (act : Act) (s : State) : Bool :=
  match act with
  | .add draft => ((draft.entry now).toOption.map fun e => e.key.toBool).getD false
  | .update caseSensitive term _ | .delete caseSensitive term =>
    ((keyOf caseSensitive term).toOption.map fun key => Table.has s.1.terms key).getD false
  | .clear | .save => true

def writing? (now : Nat) (act : Act) (s : State) : Option Writing :=
  if act.saves now s then (act.run now s).2.1.writing? now else none

end Act

/-- What an act that comes to saving makes of the terms. -/
inductive Act.Makes (now : Nat) (terms : Table Json Entry) : Act → Table Json Entry → Prop
  | add {draft : Draft} {e : Entry} {key : Json} (hentry : draft.entry now = .ok e)
      (hkey : e.key = .ok key) : Makes now terms (.add draft) (Table.insert terms key e)
  | update {caseSensitive : Bool} {term key : Json} {e : Entry} (revision : Revision)
      (hkey : keyOf caseSensitive term = .ok key) (hfind : Table.find? terms key = some e) :
      Makes now terms (.update caseSensitive term revision)
        (Table.insert terms key (revision.apply now e))
  | delete {caseSensitive : Bool} {term key : Json} (hkey : keyOf caseSensitive term = .ok key)
      (hhas : Table.has terms key = true) :
      Makes now terms (.delete caseSensitive term) (Table.erase terms key)
  | clear : Makes now terms .clear []
  | save : Makes now terms .save terms

/-- What becomes of an act before anything is written: it leaves the glossary as it is, and the only
error it then reports is that of an empty term; or it makes a glossary and saves that one. -/
inductive Act.Comes (now : Nat) (g : Glossary) (act : Act) : Prop
  | nothing (r : Except Failure Unit) (hr : ∀ e, r = .error (.error e) → e = Error.emptyTerm)
      (hsaves : ∀ v, act.saves now (g, v) = false) (hrun : ∀ v, act.run now (g, v) = (r, g, v))
  | saving (made : Glossary) (hmakes : act.Makes now g.terms made.terms)
      (hpath : made.path = g.path)
      (hheader : made.header = g.header ∨
        made.header = Table.insert g.header "lastModified".toList (.nat now))
      (hsaves : ∀ v, act.saves now (g, v) = true)
      (hrun : ∀ v, act.run now (g, v) = made.saved now v ())

/-- All that a glossary can be asked to do. -/
inductive Task where
  | start
  | load
  | save
  | ofCall (call : Call)
  | exportTo (target : Text)

namespace Task

def perform (now : Nat) (s : State) : Task → Except Failure Unit × State
  | .start => s.1.start now s.2
  | .load => s.1.load now s.2
  | .save => s.1.saved now s.2 ()
  | .ofCall (.add draft) => valueless (s.1.add now s.2 draft)
  | .ofCall (.update caseSensitive term revision) =>
    valueless (s.1.update now s.2 caseSensitive term revision)
  | .ofCall (.delete caseSensitive term) => valueless (s.1.delete now s.2 caseSensitive term)
  | .ofCall .clear => s.1.clear now s.2
  | .ofCall (.importFrom origin) => valueless (s.1.importFrom now s.2 origin)
  | .exportTo target =>
    let (result, v) := s.1.exportTo now s.2 target
    valueless (result, s.1, v)

/-- The volume with the folders that a task makes first. -/
def prepared (s : State) : Task → Volume
  | .start => (s.1.path.bind fun path => s.2.makeFolder? path.parent).getD s.2
  | _ => s.2

end Task

/-- The acts of a call if none of them fails; which ones an import has depends on the document. -/
def Call.plan (v : Volume) : Call → List Act
  | .add draft => [.add draft]
  | .update caseSensitive term revision => [.update caseSensitive term revision]
  | .delete caseSensitive term => [.delete caseSensitive term]
  | .clear => [.clear]
  | .importFrom origin =>
    match v.readJson (.ofText origin) with
    | .ok (some document) =>
      match Json.elementsOrNone (document.field? "terms".toList) with
      | .ok items => (items.filterMap Draft.ofItem?).map .add
      | .error _ => []
    | _ => []

variable {g g' : Glossary} {v v' : Volume} {s : State} {now : Nat}

theorem saved_glossary {α : Type} (a : α) : (g.saved now v a).2.1 = g := by
  unfold saved
  rcases g.save now v with ⟨r, v'⟩
  cases r <;> rfl

theorem valueless_saved {α : Type} (a : α) : valueless (g.saved now v a) = g.saved now v () := by
  unfold saved
  rcases g.save now v with ⟨r, v'⟩
  cases r <;> rfl

/-- The only error that a draft is turned down with. -/
theorem eq_emptyTerm_of_entry {draft : Draft} {e : Error}
    (h : draft.entry now = .error (.error e)) : e = Error.emptyTerm := by
  unfold Draft.entry at h
  split at h
  · split at h
    · cases h
      rfl
    · split at h
      · cases h
      · cases h
  · cases h
    rfl

/-- The glossary with other terms, changed at a time. -/
def withTerms (g : Glossary) (now : Nat) (terms : Table Json Entry) : Glossary :=
  { g with terms }.setHeader "lastModified" (.nat now)

theorem Act.comes_add (now : Nat) (g : Glossary) (draft : Draft) :
    (Act.add draft).Comes now g := by
  cases hentry : draft.entry now with
  | error failure =>
    refine .nothing (.error failure) ?_ (fun v => ?_) fun v => ?_
    · intro e hfailure
      rw [Except.error.inj hfailure] at hentry
      exact eq_emptyTerm_of_entry hentry
    · simp only [saves, hentry]
      rfl
    · simp only [run, Glossary.add, hentry]
      rfl
  | ok e =>
    cases hkey : e.key with
    | error fault =>
      refine .nothing (.error (.fault fault)) (by rintro _ ⟨⟩) (fun v => ?_) fun v => ?_
      · simp only [saves, hentry, Except.toOption, Option.map_some, hkey]
        rfl
      · simp only [run, Glossary.add, hentry, hkey]
        rfl
    | ok key =>
      refine .saving (g.withTerms now _) (.add hentry hkey) rfl (.inr rfl) (fun v => ?_)
        fun v => ?_
      · simp only [saves, hentry, Except.toOption, Option.map_some, hkey]
        rfl
      · simp only [run, Glossary.add, hentry, hkey]
        exact valueless_saved e

theorem Act.comes_update (now : Nat) (g : Glossary) (caseSensitive : Bool) (term : Json)
    (revision : Revision) : (Act.update caseSensitive term revision).Comes now g := by
  cases hkey : keyOf caseSensitive term with
  | error fault =>
    refine .nothing (.error (.fault fault)) (by rintro _ ⟨⟩) (fun v => ?_) fun v => ?_
    · simp only [saves, hkey]
      rfl
    · simp only [run, Glossary.update, hkey]
      rfl
  | ok key =>
    cases hfind : Table.find? g.terms key with
    | none =>
      refine .nothing (.ok ()) (by rintro _ ⟨⟩) (fun v => ?_) fun v => ?_
      · simp only [saves, hkey, Except.toOption, Option.map_some, Table.has, hfind]
        rfl
      · simp only [run, Glossary.update, hkey, hfind]
        rfl
    | some e =>
      refine .saving (g.withTerms now _) (.update revision hkey hfind) rfl (.inr rfl)
        (fun v => ?_) fun v => ?_
      · simp only [saves, hkey, Except.toOption, Option.map_some, Table.has, hfind]
        rfl
      · simp only [run, Glossary.update, hkey, hfind]
        exact valueless_saved true

theorem Act.comes_delete (now : Nat) (g : Glossary) (caseSensitive : Bool) (term : Json) :
    (Act.delete caseSensitive term).Comes now g := by
  cases hkey : keyOf caseSensitive term with
  | error fault =>
    refine .nothing (.error (.fault fault)) (by rintro _ ⟨⟩) (fun v => ?_) fun v => ?_
    · simp only [saves, hkey]
      rfl
    · simp only [run, Glossary.delete, hkey]
      rfl
  | ok key =>
    cases hhas : Table.has g.terms key with
    | false =>
      refine .nothing (.ok ()) (by rintro _ ⟨⟩) (fun v => ?_) fun v => ?_
      · simp only [saves, hkey, Except.toOption, Option.map_some, hhas]
        rfl
      · simp only [run, Glossary.delete, hkey, hhas, Bool.false_eq_true, if_false]
        rfl
    | true =>
      refine .saving (g.withTerms now _) (.delete hkey hhas) rfl (.inr rfl) (fun v => ?_)
        fun v => ?_
      · simp only [saves, hkey, Except.toOption, Option.map_some, hhas]
        rfl
      · simp only [run, Glossary.delete, hkey, hhas, if_true]
        exact valueless_saved true

theorem Act.comes (act : Act) (now : Nat) (g : Glossary) : act.Comes now g := by
  cases act with
  | add draft => exact comes_add now g draft
  | update caseSensitive term revision => exact comes_update now g caseSensitive term revision
  | delete caseSensitive term => exact comes_delete now g caseSensitive term
  | clear => exact .saving (g.withTerms now []) .clear rfl (.inr rfl) (fun v => rfl) fun v => rfl
  | save => exact .saving g .save rfl (.inl rfl) (fun v => rfl) fun v => rfl

theorem saved_writes {α : Type} (g : Glossary) (now : Nat) (v : Volume) (a : α) :
    Writes ((g.saved now v a).2.1.writing? now).toList v (g.saved now v a).1
      (g.saved now v a).2.2 := by
  rw [saved_glossary]
  unfold saved save writing?
  cases g.path with
  | none => exact .nothing v _
  | some path =>
    simp only
    rcases hwrite : v.writeJson path (g.document now) with ⟨result, v₁⟩
    cases result with
    | ok done => exact .one hwrite fun _ he => nomatch he
    | error e => exact .one hwrite fun e he => by cases he; rfl

/-- An act that comes to saving writes the glossary that is saved. -/
theorem Act.run_writes_of_saved {α : Type} {act : Act} {a : α}
    (hrun : act.run now s = valueless (g.saved now s.2 a)) (hsaves : act.saves now s = true) :
    Writes (act.writing? now s).toList s.2 (act.run now s).1 (act.run now s).2.2 := by
  have hwriting : act.writing? now s = (g.saved now s.2 a).2.1.writing? now := by
    rw [writing?, hsaves, if_pos rfl, hrun]
    rfl
  rw [hwriting, hrun]
  exact (saved_writes g now s.2 a).of_error fun failure he => by rw [valueless, he]; rfl

/-- An act that leaves everything as it is writes nothing. -/
theorem Act.run_writes_of_same {act : Act} {r : Except Failure Unit}
    (hrun : act.run now s = (r, s)) (hsaves : act.saves now s = false) :
    Writes (act.writing? now s).toList s.2 (act.run now s).1 (act.run now s).2.2 := by
  rw [writing?, hsaves, hrun]
  exact .nothing s.2 r

/-- An act writes the glossary as it leaves it, or nothing. -/
theorem Act.run_writes (act : Act) (now : Nat) (s : State) :
    Writes (act.writing? now s).toList s.2 (act.run now s).1 (act.run now s).2.2 := by
  obtain ⟨g, v⟩ := s
  cases act.comes now g with
  | nothing r _ hsaves hrun => exact run_writes_of_same (hrun v) (hsaves v)
  | saving made _ _ _ hsaves hrun =>
    exact run_writes_of_saved ((hrun v).trans (valueless_unit _).symm) (hsaves v)

theorem importItems_inTurn (count : Nat) (items : List Json) :
    valueless (g.importItems now v count items) =
      inTurn (Act.run now) (g, v) ((items.filterMap Draft.ofItem?).map .add) := by
  induction items generalizing g v count with
  | nil => rfl
  | cons item items ih =>
    rw [importItems, List.filterMap_cons]
    cases Draft.ofItem? item with
    | none => exact ih count
    | some draft =>
      simp only
      rw [List.map_cons, inTurn, Act.run]
      rcases g.add now v draft with ⟨r, g₁, v₁⟩
      cases r with
      | ok e => exact ih (count + 1)
      | error failure => rfl

/-- Every call is its acts in turn. -/
theorem Call.agrees (call : Call) (now : Nat) (s : State) :
    Agrees ((Task.ofCall call).perform now s) (inTurn (Act.run now) s (call.plan s.2)) := by
  obtain ⟨g, v⟩ := s
  cases call with
  | add draft | update caseSensitive term revision | delete caseSensitive term | clear =>
    rw [plan, inTurn_single]
    exact .refl _
  | importFrom origin =>
    simp only [Task.perform, plan, Glossary.importFrom]
    cases hread : v.readJson (.ofText origin) with
    | error failure => exact .nothing _ _
    | ok document =>
      cases document with
      | none => exact .nothing _ _
      | some document =>
        simp only
        cases hitems : Json.elementsOrNone (document.field? "terms".toList) with
        | error fault => exact .nothing _ _
        | ok items =>
          simp only
          rw [importItems_inTurn]
          exact .refl _

/-! ### What a task writes -/

/-- A glossary without a file writes its first one when it is loaded. -/
def loadWriting? (now : Nat) (s : State) : Option Writing :=
  s.1.path.bind fun path =>
    match s.2.readJson path with
    | .ok none => (s.1.load now s.2).2.1.writing? now
    | _ => none

namespace Task

/-- The documents that a task asks to write, in turn. -/
def writings (now : Nat) (s : State) : Task → List Writing
  | .start =>
    match s.1.path.bind fun path => s.2.makeFolder? path.parent with
    | some v => (loadWriting? now (s.1, v)).toList
    | none => []
  | .load => (loadWriting? now s).toList
  | .save => (s.1.writing? now).toList
  | .ofCall call => writingsInTurn (Act.run now) (Act.writing? now) s (call.plan s.2)
  | .exportTo target => [⟨.ofText target, s.1.exportDocument now⟩]

end Task

theorem load_writes (now : Nat) (s : State) :
    Writes (loadWriting? now s).toList s.2 (s.1.load now s.2).1 (s.1.load now s.2).2.2 := by
  have hsilent {r : Except Failure Unit} {g : Glossary} (hload : s.1.load now s.2 = (r, g, s.2))
      (hnone : loadWriting? now s = none) :
      Writes (loadWriting? now s).toList s.2 (s.1.load now s.2).1 (s.1.load now s.2).2.2 := by
    rw [hload, hnone]
    exact .nothing s.2 r
  cases hpath : s.1.path with
  | none =>
    refine hsilent (r := .ok ()) (g := s.1) ?_ ?_
    · simp only [load, hpath]
    · simp only [loadWriting?, hpath, Option.bind_none]
  | some path =>
    cases hread : s.2.readJson path with
    | error failure =>
      refine hsilent (r := .error failure) (g := s.1) ?_ ?_
      · simp only [load, hpath, hread]
      · simp only [loadWriting?, hpath, hread, Option.bind_some]
    | ok document =>
      cases document with
      | none =>
        have hload : s.1.load now s.2 =
            (s.1.setHeader "created" (.nat now)).saved now s.2 () := by
          simp only [load, hpath, hread]
        have hwriting : loadWriting? now s = (s.1.load now s.2).2.1.writing? now := by
          simp only [loadWriting?, hpath, hread, Option.bind_some]
        rw [hwriting, hload]
        exact saved_writes _ now s.2 ()
      | some value =>
        cases value with
        | obj fields =>
          refine hsilent (r := (s.1.addDocument path now fields).1)
            (g := (s.1.addDocument path now fields).2) ?_ ?_
          · simp only [load, hpath, hread]
          · simp only [loadWriting?, hpath, hread, Option.bind_some]
        | _ =>
          refine hsilent (r := .error (Error.storeNotObject .glossary path)) (g := s.1) ?_ ?_
          · simp only [load, hpath, hread]
          · simp only [loadWriting?, hpath, hread, Option.bind_some]

theorem exportTo_writes (target : Text) :
    Writes [⟨.ofText target, g.exportDocument now⟩] v (g.exportTo now v target).1
      (g.exportTo now v target).2 := by
  unfold exportTo
  split
  · next hwrite => exact .one hwrite fun _ he => nomatch he
  · next hwrite => exact .one hwrite fun e he => by cases he; rfl

/-- Starting is loading behind the folder, if the glossary has a path and its folder can be made. -/
theorem start_cases (now : Nat) (s : State) :
    (∃ v, (s.1.path.bind fun path => s.2.makeFolder? path.parent) = some v ∧
        s.1.start now s.2 = s.1.load now v) ∨
      (s.1.path.bind fun path => s.2.makeFolder? path.parent) = none ∧
        ∃ r, s.1.start now s.2 = (r, s) := by
  cases hpath : s.1.path with
  | none => exact .inr ⟨rfl, .ok (), by simp only [start, hpath]⟩
  | some path =>
    cases hmade : s.2.makeFolder? path.parent with
    | none =>
      refine .inr ⟨hmade, .error (Error.folderNotMade .glossary path.parent), ?_⟩
      simp only [start, hpath, hmade]
    | some v => exact .inl ⟨v, hmade, by simp only [start, hpath, hmade]⟩

namespace Task

/-- Whatever a glossary is asked to do, it makes folders at most and then writes what it tells. -/
theorem writes (task : Task) (now : Nat) (s : State) :
    Writes (task.writings now s) (task.prepared s) (task.perform now s).1
      (task.perform now s).2.2 := by
  cases task with
  | start =>
    rcases start_cases now s with ⟨v, hmade, hstart⟩ | ⟨hmade, r, hstart⟩
    · simp only [perform, writings, prepared, hmade, hstart, Option.getD_some]
      exact load_writes now (s.1, v)
    · simp only [perform, writings, prepared, hmade, hstart, Option.getD_none]
      exact .nothing s.2 r
  | load => exact load_writes now s
  | save =>
    have hwrites := saved_writes s.1 now s.2 ()
    rwa [saved_glossary] at hwrites
  | ofCall call =>
    have hagrees := call.agrees now s
    have hwrites : Writes ((Task.ofCall call).writings now s) s.2
        (inTurn (Act.run now) s (call.plan s.2)).1 (inTurn (Act.run now) s (call.plan s.2)).2.2 :=
      inTurn_writes Prod.snd (fun act s => act.run_writes now s) s (call.plan s.2)
    rw [hagrees.leaves]
    exact hwrites.of_error hagrees.fails
  | exportTo target =>
    refine (exportTo_writes target).of_error fun failure he => ?_
    have he : (s.1.exportTo now s.2 target).1 = .error failure := he
    change (s.1.exportTo now s.2 target).1.map _ = _
    rw [he]
    rfl

end Task

/-! ### Where a task writes -/

theorem Act.run_path (act : Act) (now : Nat) (s : State) :
    (act.run now s).2.1.path = s.1.path := by
  obtain ⟨g, v⟩ := s
  cases act.comes now g with
  | nothing r _ _ hrun => rw [hrun]
  | saving made _ hpath _ _ hrun => rw [hrun, saved_glossary, hpath]

theorem Call.path (call : Call) (now : Nat) (s : State) :
    (inTurn (Act.run now) s (call.plan s.2)).2.1.path = s.1.path ∧
      ∀ s' ∈ statesInTurn (Act.run now) s (call.plan s.2), s'.1.path = s.1.path :=
  eq_of_inTurn (f := fun s => s.1.path) (fun act s => act.run_path now s) s _

namespace Task

end Task

end Localize.Glossary
