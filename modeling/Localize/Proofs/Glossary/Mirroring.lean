import Localize.Proofs.Glossary.Reading

/-!
# The file mirrors the glossary

Every call that changes the terms writes the file, and a call that does not change them leaves the
file alone. So a glossary that starts on the same path has the same terms in the same order. A time
that a file does not give is the exception as long as no call has written the file: it is put in by
whoever reads.
-/

namespace Localize.Glossary

/-! ### Calls -/

/-- A call that can change a glossary. -/
inductive Call where
  | add (draft : Draft)
  | update (caseSensitive : Bool) (term : Json) (revision : Revision)
  | delete (caseSensitive : Bool) (term : Json)
  | clear
  | importFrom (origin : Text)

/-- What a call gives that succeeds. -/
inductive Outcome where
  | added (e : Entry)
  | changed (done : Bool)
  | cleared
  | imported (count : Nat)

/-- The call has written the file. -/
def Outcome.rewrites : Outcome → Bool
  | .added _ | .cleared => true
  | .changed done => done
  | .imported count => count ≠ 0

/-- A glossary and the volume with its file. -/
abbrev State := Glossary × Volume

/-- The outcome of a call with what it leaves, if it succeeds. -/
def succeeded {α : Type} (f : α → Outcome) (r : Except Failure α × State) :
    Except Failure (Outcome × State) :=
  r.1.map fun a => (f a, r.2)

def Call.perform (now : Nat) (s : State) : Call → Except Failure (Outcome × State)
  | .add draft => succeeded .added (s.1.add now s.2 draft)
  | .update caseSensitive term revision =>
    succeeded .changed (s.1.update now s.2 caseSensitive term revision)
  | .delete caseSensitive term => succeeded .changed (s.1.delete now s.2 caseSensitive term)
  | .clear => succeeded (fun _ => .cleared) (s.1.clear now s.2)
  | .importFrom origin => succeeded .imported (s.1.importFrom now s.2 origin)

/-- Calls at their times that all succeed. -/
def run (s : State) : List (Nat × Call) → Except Failure (List Outcome × State)
  | [] => .ok ([], s)
  | (now, call) :: rest => do
    let (outcome, s) ← call.perform now s
    let (outcomes, s) ← run s rest
    return (outcome :: outcomes, s)

/-- The values given with a call are values that a document can hold. -/
def Call.Sound : Call → Prop
  | .add draft => draft.Sound
  | .update _ _ revision => revision.Sound
  | _ => True

/-! ### What calls leave -/

/-- The file holds the glossary as it is. -/
def Filed (path : Path) (s : State) : Prop :=
  ∃ saved, s.2.content? path = some (.text (s.1.document saved).document)

/-- A glossary that has been written, or not touched. -/
structure Leaves (path : Path) (s : State) (rewritten : Bool) (s' : State) : Prop where
  lasting : s'.1.Lasting
  located : s'.1.path = some path
  same : rewritten = false → s' = s
  filed : rewritten = true → Filed path s'

variable {g g' : Glossary} {v v' : Volume} {s s' s'' : State} {now : Nat} {path folder : Path}
  {name : Text} {rewritten rewritten' : Bool}

theorem Leaves.refl (h : s.1.Lasting) (hpath : s.1.path = some path) : Leaves path s false s :=
  ⟨h, hpath, fun _ => rfl, fun h => nomatch h⟩

theorem Leaves.trans (h : Leaves path s rewritten s') (h' : Leaves path s' rewritten' s'') :
    Leaves path s (rewritten || rewritten') s'' where
  lasting := h'.lasting
  located := h'.located
  same hnone := by
    rw [Bool.or_eq_false_iff] at hnone
    rw [h'.same hnone.2, h.same hnone.1]
  filed hsome := by
    cases rewritten' with
    | true => exact h'.filed rfl
    | false =>
      rw [h'.same rfl]
      exact h.filed (by simpa using hsome)

theorem filed_of_save (hname : Path.IsName name) (hpath : g.path = some (folder.child name))
    (h : g.save now v = (.ok (), v')) : Filed (folder.child name) (g, v') :=
  ⟨now, (Volume.written_writeJson hname ((save_eq_ok_iff hpath).mp h)).done rfl⟩

theorem leaves_of_saved {α : Type} {a b : α} (hname : Path.IsName name) (h : g.Lasting)
    (hpath : g.path = some (folder.child name)) (hsaved : g.saved now v a = (.ok b, s'))
    (s : State) :
    Leaves (folder.child name) s true s' := by
  obtain ⟨-, hg, hsave⟩ := saved_eq_ok_iff.mp hsaved
  obtain ⟨g', v'⟩ := s'
  cases hg
  exact ⟨h, hpath, (fun h => nomatch h), fun _ => filed_of_save hname hpath hsave⟩

theorem succeeded_eq_ok {α : Type} {f : α → Outcome} {r : Except Failure α × State}
    {outcome : Outcome} (h : succeeded f r = .ok (outcome, s')) :
    ∃ a, r = (.ok a, s') ∧ outcome = f a := by
  obtain ⟨result, s⟩ := r
  cases result with
  | error failure => cases h
  | ok a =>
    cases h
    exact ⟨a, rfl, rfl⟩

section

variable (hname : Path.IsName name) (h : g.Lasting) (hpath : g.path = some (folder.child name))
include hname h hpath

theorem add_leaves {draft : Draft} (hdraft : draft.Sound) (hnow : 0 < now) {e : Entry}
    (hadd : g.add now v draft = (.ok e, s')) : Leaves (folder.child name) (g, v) true s' := by
  unfold add at hadd
  split at hadd
  · cases hadd
  · next hentry =>
    split at hadd
    · cases hadd
    · next hkey =>
      exact leaves_of_saved hname
        ((h.insert (lasting_draft hdraft hnow hentry) hkey).setHeader _ (.int _)) hpath hadd _

theorem update_leaves {caseSensitive done : Bool} {term : Json} {revision : Revision}
    (hrevision : revision.Sound) (hnow : 0 < now)
    (hupdate : g.update now v caseSensitive term revision = (.ok done, s')) :
    Leaves (folder.child name) (g, v) done s' := by
  unfold update at hupdate
  split at hupdate
  · cases hupdate
  · next key _ =>
    split at hupdate
    · cases hupdate
      exact .refl h hpath
    · next e hfind =>
      have hmem := Table.mem_of_find? hfind
      -- the key is that of the term and its case, which a revision does not touch
      have hkey : (revision.apply now e).key = .ok key := h.keyed _ hmem
      have hchanged := (h.insert ((h.entries _ hmem).revise hrevision hnow) hkey).setHeader
        "lastModified" (.int now)
      obtain ⟨rfl, -, -⟩ := saved_eq_ok_iff.mp hupdate
      exact leaves_of_saved hname hchanged hpath hupdate _

theorem delete_leaves {caseSensitive done : Bool} {term : Json}
    (hdelete : g.delete now v caseSensitive term = (.ok done, s')) :
    Leaves (folder.child name) (g, v) done s' := by
  unfold delete at hdelete
  split at hdelete
  · cases hdelete
  · next key _ =>
    split_ifs at hdelete
    · obtain ⟨rfl, -, -⟩ := saved_eq_ok_iff.mp hdelete
      exact leaves_of_saved hname ((h.erase key).setHeader _ (.int _)) hpath hdelete _
    · cases hdelete
      exact .refl h hpath

theorem importItems_leaves {items : List Json} (hitems : ∀ item ∈ items, item.Sound)
    (hnow : 0 < now) {count total : Nat}
    (himport : g.importItems now v count items = (.ok total, s')) :
    count ≤ total ∧ Leaves (folder.child name) (g, v) (decide (total ≠ count)) s' := by
  induction items generalizing g v count with
  | nil =>
    cases himport
    exact ⟨le_rfl, by simpa using Leaves.refl h hpath⟩
  | cons item items ih =>
    obtain ⟨hitem, hitems⟩ := List.forall_mem_cons.mp hitems
    rw [importItems] at himport
    split at himport
    · exact ih h hpath hitems himport
    · next draft hdraft =>
      split at himport
      · cases himport
      · next e g₁ v₁ hadd =>
        have hfirst := add_leaves hname h hpath (sound_ofItem? hitem hdraft) hnow hadd
        obtain ⟨hcount, hrest⟩ := ih hfirst.lasting hfirst.located hitems himport
        refine ⟨Nat.le_of_succ_le hcount, ?_⟩
        have hne : total ≠ count := by omega
        simpa [hne] using hfirst.trans hrest

theorem importFrom_leaves (hnow : 0 < now) {origin : Text} {count : Nat}
    (himport : g.importFrom now v origin = (.ok count, s')) :
    Leaves (folder.child name) (g, v) (decide (count ≠ 0)) s' := by
  unfold importFrom at himport
  split at himport
  · cases himport
  · cases himport
  · next document hread =>
    split at himport
    · cases himport
    · next items hitems =>
      have hsound := Json.sound_elementsOrNone (fun _ => (Json.sound_readJson hread).field?) hitems
      exact (importItems_leaves hname h hpath hsound hnow himport).2

/-- A call that succeeds writes the file or leaves everything as it is. -/
theorem Call.leaves {call : Call} (hcall : call.Sound) (hnow : 0 < now) {outcome : Outcome}
    (hperform : call.perform now (g, v) = .ok (outcome, s')) :
    Leaves (folder.child name) (g, v) outcome.rewrites s' := by
  cases call with
  | add draft =>
    obtain ⟨e, hadd, rfl⟩ := succeeded_eq_ok hperform
    exact add_leaves hname h hpath hcall hnow hadd
  | update caseSensitive term revision =>
    obtain ⟨done, hupdate, rfl⟩ := succeeded_eq_ok hperform
    exact update_leaves hname h hpath hcall hnow hupdate
  | delete caseSensitive term =>
    obtain ⟨done, hdelete, rfl⟩ := succeeded_eq_ok hperform
    exact delete_leaves hname h hpath hdelete
  | clear =>
    obtain ⟨_, hclear, rfl⟩ := succeeded_eq_ok hperform
    exact leaves_of_saved hname (h.clear.setHeader "lastModified" (.int now)) hpath hclear _
  | importFrom origin =>
    obtain ⟨count, himport, rfl⟩ := succeeded_eq_ok hperform
    exact importFrom_leaves hname h hpath hnow himport

/-- Calls that succeed leave everything as it is, or the file as the last of them that wrote it. -/
theorem run_leaves {calls : List (Nat × Call)} (hcalls : ∀ c ∈ calls, 0 < c.1 ∧ c.2.Sound)
    {outcomes : List Outcome} (hrun : run (g, v) calls = .ok (outcomes, s')) :
    Leaves (folder.child name) (g, v) (outcomes.any Outcome.rewrites) s' := by
  induction calls generalizing g v outcomes with
  | nil =>
    cases hrun
    exact .refl h hpath
  | cons c calls ih =>
    obtain ⟨now, call⟩ := c
    obtain ⟨⟨hnow, hcall⟩, hcalls⟩ := List.forall_mem_cons.mp hcalls
    obtain ⟨⟨outcome, s₁⟩, hperform, hrun⟩ := bind_ok_iff.mp hrun
    obtain ⟨⟨rest, s₂⟩, hrest, hrun⟩ := bind_ok_iff.mp hrun
    cases hrun
    have hfirst := Call.leaves hname h hpath hcall hnow hperform
    exact hfirst.trans (ih hfirst.lasting hfirst.located hcalls hrest)

end

/-! ### Starting and starting again -/

/-- A glossary that has started has been written, or has been read from the file that was there. -/
theorem start_ok (hname : Path.IsName name) (hnow : 0 < now)
    (hstart : (Glossary.empty (some (folder.child name))).start now v = (.ok (), g, v')) :
    (g.Lasting ∧ g.path = some (folder.child name)) ∧
      (Filed (folder.child name) (g, v') ∨
        ∃ fields, v.readJson (folder.child name) = .ok (some (.obj fields)) ∧
          v'.readJson (folder.child name) = .ok (some (.obj fields)) ∧
          (Glossary.empty (some (folder.child name))).addDocument (folder.child name) now fields =
            (.ok (), g)) := by
  have hempty := lasting_empty (some (folder.child name))
  obtain ⟨v₁, hmade, ⟨-, rfl, hsave⟩ | ⟨fields, hread, hadd, rfl⟩⟩ := start_eq_ok_iff.mp hstart
  · exact ⟨⟨hempty.setHeader _ (.int _), rfl⟩, .inl (filed_of_save hname rfl hsave)⟩
  · have hlasting := hempty.addDocument (Json.sound_readJson hread) hnow hadd
    refine ⟨hlasting, .inr ⟨fields, ?_, hread, hadd⟩⟩
    rw [Volume.readJson_eq_some_iff] at hread ⊢
    simpa only [Volume.content?_makeFolder? hmade] using hread

/-- Whatever calls succeed on a glossary that has started on a path: every term is under its own
key, and a glossary that starts on the same path has the same terms in the same order, equal in
everything but, as long as no call has written the file, the times that the file found at the start
does not give. -/
theorem mirrored_of_start {given : Text} (hnow : 0 < now) {g₀ : Glossary} {v₀ : Volume}
    (hstart : (Glossary.empty (some (.ofText given))).start now v = (.ok (), g₀, v₀))
    {calls : List (Nat × Call)} (hcalls : ∀ c ∈ calls, 0 < c.1 ∧ c.2.Sound)
    {outcomes : List Outcome} (hrun : run (g₀, v₀) calls = .ok (outcomes, g, v')) (again : Nat) :
    (∀ key e, Table.find? g.terms key = some e → e.key = .ok key) ∧
      ∃ g' v'', (Glossary.empty (some (.ofText given))).start again v' = (.ok (), g', v'') ∧
        List.Forall₂ (SameTerm fun time e =>
          outcomes.any Outcome.rewrites = false ∧ Untimed v (.ofText given) now time e)
          g.terms g'.terms := by
  obtain ⟨folder, name, hname, hgiven⟩ := child_of_start hstart
  rw [hgiven] at hstart ⊢
  obtain ⟨⟨hlasting, hpath⟩, hfile⟩ := start_ok hname hnow hstart
  have hleaves := run_leaves hname hlasting hpath hcalls hrun
  refine ⟨fun key e hfind => hleaves.lasting.keyed _ (Table.mem_of_find? hfind), ?_⟩
  have hreload (hfiled : Filed (folder.child name) (g, v')) :
      ∃ g' v'', (Glossary.empty (some (folder.child name))).start again v' = (.ok (), g', v'') ∧
        List.Forall₂ (SameTerm fun time e => outcomes.any Outcome.rewrites = false ∧
          Untimed v (folder.child name) now time e) g.terms g'.terms := by
    obtain ⟨saved, hcontent⟩ := hfiled
    obtain ⟨g', v'', hagain, hterms⟩ := start_filed hname hleaves.lasting hcontent again
    exact ⟨g', v'', hagain, hterms ▸ forall₂_sameTerm_refl _ _⟩
  cases hrewritten : outcomes.any Outcome.rewrites with
  | true =>
    rw [hrewritten] at hreload
    exact hreload (hleaves.filed hrewritten)
  | false =>
    rw [hrewritten] at hreload
    cases hleaves.same hrewritten
    rcases hfile with hfiled | ⟨fields, hfound, hread, hadd⟩
    · exact hreload hfiled
    · obtain ⟨g', v'', hagain, hsame⟩ := start_again hname hread hadd again
      refine ⟨g', v'', hagain, hsame.imp fun p p' hp => ⟨hp.1, hp.2.mono ?_⟩⟩
      rintro time ⟨document, items, hdocument, hitems⟩
      rw [hread] at hdocument
      cases hdocument
      exact ⟨rfl, .obj fields, items, hfound, hitems⟩

/-- A glossary without times, and a document without terms. -/
def untimed : Volume := .ofEntries [
  ("glossary.json".toList,
    .file (.text "\x7b\"terms\": [\x7b\"term\": \"Dashboard\"\x7d]\x7d".toList)),
  ("none.json".toList, .file (.text "\x7b\"terms\": []\x7d".toList))]

/-- A term is added and changed, another one removed, and a document without terms taken over. -/
def revisions : List (Nat × Call) :=
  [(2, .add {
      term := Json.lit " Sign in "
      translations := .obj [("es".toList, Json.lit "Entrar")]
      caseSensitive := .bool false }),
    (3, .update false (Json.lit "Sign In") {
      translations := [("de".toList, Json.lit "Anmelden")] }),
    (4, .delete true (Json.lit "Dashboard")),
    (5, .importFrom "none.json".toList)]

theorem sound_revisions : ∀ c ∈ revisions, 0 < c.1 ∧ c.2.Sound := by
  simp only [revisions, List.forall_mem_cons, List.not_mem_nil, false_implies, implies_true,
    and_true]
  refine ⟨⟨by decide, ⟨.obj (by simp [Table.keys]) ?_, .null, .str [], .str []⟩⟩,
    ⟨by decide, ⟨?_, .null, .null, .null⟩⟩, ⟨by decide, trivial⟩, by decide, trivial⟩
  · exact List.forall_mem_singleton.mpr (.str _)
  · exact List.forall_mem_singleton.mpr (.str _)

theorem mirrored_of_start_revisions :
    ∃ g₀ v₀ outcomes g v',
      (Glossary.empty (some (.ofText "glossary.json".toList))).start 1 untimed = (.ok (), g₀, v₀) ∧
      run (g₀, v₀) revisions = .ok (outcomes, g, v') ∧
      (∀ key e, Table.find? g.terms key = some e → e.key = .ok key) ∧
      ∃ g' v'', (Glossary.empty (some (.ofText "glossary.json".toList))).start 6 v' =
          (.ok (), g', v'') ∧
        List.Forall₂ (SameTerm fun time e => outcomes.any Outcome.rewrites = false ∧
          Untimed untimed (.ofText "glossary.json".toList) 1 time e) g.terms g'.terms := by
  have hok : ((Glossary.empty (some (.ofText "glossary.json".toList))).start 1 untimed).1.isOk =
      true := by decide +kernel
  have hrun : (run ((Glossary.empty (some (.ofText "glossary.json".toList))).start 1 untimed).2
      revisions).toOption.any (fun _ => true) = true := by decide +kernel
  obtain ⟨⟨outcomes, g, v'⟩, hrun, -⟩ := exists_ok_of_any hrun
  cases hstart : (Glossary.empty (some (.ofText "glossary.json".toList))).start 1 untimed with
  | mk result s =>
    obtain ⟨g₀, v₀⟩ := s
    rw [hstart] at hok hrun
    cases result with
    | error failure => cases hok
    | ok done =>
      exact ⟨g₀, v₀, outcomes, g, v', rfl, hrun,
        mirrored_of_start (by decide) hstart sound_revisions hrun 6⟩

/-- The times that a file does not give differ from reader to reader, if no call writes the file. -/
theorem not_mirrored_untimed :
    ¬ ∀ (given : Text) (now again : Nat) (v v₀ v' : Volume) (g₀ g : Glossary)
      (calls : List (Nat × Call)) (outcomes : List Outcome), 0 < now →
      (Glossary.empty (some (.ofText given))).start now v = (.ok (), g₀, v₀) →
      (∀ c ∈ calls, 0 < c.1 ∧ c.2.Sound) → run (g₀, v₀) calls = .ok (outcomes, g, v') →
      ∃ g' v'', (Glossary.empty (some (.ofText given))).start again v' = (.ok (), g', v'') ∧
        g'.terms = g.terms := by
  intro hall
  have hok : ((Glossary.empty (some (.ofText "glossary.json".toList))).start 1 untimed).1.isOk =
      true := by decide +kernel
  have hrun : (run ((Glossary.empty (some (.ofText "glossary.json".toList))).start 1 untimed).2
      [(2, .importFrom "none.json".toList)]).toOption.any (fun r => decide
        (((Glossary.empty (some (.ofText "glossary.json".toList))).start 3 r.2.2).2.1.terms ≠
          r.2.1.terms)) = true := by decide +kernel
  obtain ⟨⟨outcomes, g, v'⟩, hrun, hdiffer⟩ := exists_ok_of_any hrun
  cases hstart : (Glossary.empty (some (.ofText "glossary.json".toList))).start 1 untimed with
  | mk result s =>
    obtain ⟨g₀, v₀⟩ := s
    rw [hstart] at hok hrun
    cases result with
    | error failure => cases hok
    | ok done =>
      have hcalls : ∀ c ∈ [(2, Call.importFrom "none.json".toList)], 0 < c.1 ∧ c.2.Sound :=
        List.forall_mem_singleton.mpr ⟨by decide, trivial⟩
      obtain ⟨g', v'', hagain, hterms⟩ := hall _ 1 3 _ _ _ _ _ _ _ (by decide) hstart hcalls hrun
      rw [decide_eq_true_eq, hagain] at hdiffer
      exact hdiffer hterms

end Localize.Glossary
