import Localize.Proofs.Glossary.Lasting

/-!
# Reading a glossary again

A glossary that has been written is read back as it is. One that has been loaded and not written
since is read from the same file again: the terms are the same in the same order, and so is all that
is fixed about them but the times that the file does not give, for which the time of reading stands.
-/

namespace Localize.Glossary

/-- The same entry, but for times of some names. -/
structure Entry.Same (exempt : String → Prop) (e e' : Entry) : Prop where
  fields : e' = { e with createdAt := e'.createdAt, updatedAt := e'.updatedAt }
  createdAt : ¬ exempt "createdAt" → e'.createdAt = e.createdAt
  updatedAt : ¬ exempt "updatedAt" → e'.updatedAt = e.updatedAt

/-- An entry has been read from one of the items, which gives no time of this name. -/
def UntimedIn (items : List Json) (now : Nat) (name : String) (e : Entry) : Prop :=
  ∃ item ∈ items, Entry.ofValue now item = .ok e ∧ (given item name).isSomething = false

/-- An entry has been read from a file that gives no time of this name for it. -/
def Untimed (v : Volume) (path : Path) (now : Nat) (name : String) (e : Entry) : Prop :=
  ∃ document items, v.readJson path = .ok (some document) ∧
    Json.elementsOrNone (document.field? "terms".toList) = .ok items ∧
    UntimedIn items now name e

/-- The same entry under the same key, but for times of some names. -/
def SameTerm (exempt : String → Entry → Prop) (p p' : Json × Entry) : Prop :=
  p'.1 = p.1 ∧ p.2.Same (fun name => exempt name p.2) p'.2

variable {g g' g₁ : Glossary} {v v' : Volume} {now again : Nat} {path : Path}

theorem Entry.same_refl (exempt : String → Prop) (e : Entry) : e.Same exempt e :=
  ⟨rfl, fun _ => rfl, fun _ => rfl⟩

theorem Entry.Same.mono {exempt exempt' : String → Prop} {e e' : Entry} (h : e.Same exempt e')
    (himp : ∀ name, exempt name → exempt' name) : e.Same exempt' e' :=
  ⟨h.fields, fun hnot => h.createdAt (mt (himp _) hnot), fun hnot => h.updatedAt (mt (himp _) hnot)⟩

theorem forall₂_sameTerm_refl (exempt : String → Entry → Prop) (terms : Table Json Entry) :
    List.Forall₂ (SameTerm exempt) terms terms :=
  List.forall₂_same.mpr fun p _ => ⟨rfl, p.2.same_refl _⟩

/-! ### Items -/

/-- An item is read as the same entry at any time, but for the times that it does not give. -/
theorem entryIn_same (item term : Json) (translations : Fields) (now again : Nat) :
    (entryIn item term translations now).Same (fun name => (given item name).isSomething = false)
      (entryIn item term translations again) := by
  have htime (name : String) (h : ¬ (given item name).isSomething = false) :
      (given item name).orElse (.nat again) = (given item name).orElse (.nat now) := by
    rw [Bool.not_eq_false] at h
    rw [Json.orElse, Json.orElse, if_pos h, if_pos h]
  exact ⟨rfl, htime _, htime _⟩

/-- Items that are read once are read again, as the same entries. -/
theorem addItems_again {items all : List Json} (hsub : items ⊆ all)
    (h : g.addItems path now items = (.ok (), g₁))
    (hsame : List.Forall₂ (SameTerm (UntimedIn all now)) g.terms g'.terms) (again : Nat) :
    ∃ g₂, g'.addItems path again items = (.ok (), g₂) ∧
      List.Forall₂ (SameTerm (UntimedIn all now)) g₁.terms g₂.terms := by
  induction items generalizing g g' with
  | nil =>
    cases h
    exact ⟨g', rfl, hsame⟩
  | cons item items ih =>
    obtain ⟨hitem, hitems⟩ := List.cons_subset.mp hsub
    rw [Glossary.addItems] at h
    split at h
    · cases h
    · next key e hread =>
      obtain ⟨hvalue, hkey⟩ := readItem_eq_ok_iff.mp hread
      obtain ⟨term, translations, hterm, htranslations, rfl⟩ := ofValue_eq_ok_iff.mp hvalue
      have hvalue' := ofValue_eq_ok_iff.mpr
        ⟨term, translations, hterm, htranslations, (rfl : entryIn item term translations again = _)⟩
      have hread' := readItem_eq_ok_iff.mpr ⟨hvalue', hkey⟩
      have hterm' : SameTerm (UntimedIn all now) (key, entryIn item term translations now)
          (key, entryIn item term translations again) :=
        ⟨rfl, (entryIn_same item term translations now again).mono fun name hnone =>
          ⟨item, hitem, hvalue, hnone⟩⟩
      rw [Glossary.addItems, hread']
      exact ih hitems h (Table.forall₂_insert (fun _ _ hp => hp.1) hsame hterm')

/-! ### Documents -/

theorem addDocument_eq_ok_iff {fields : Fields} :
    g.addDocument path now fields = (.ok (), g') ↔ ∃ header items,
      Json.overlay g.header (Table.find? fields "metadata".toList) = .ok header ∧
        Json.elementsOrNone (Table.find? fields "terms".toList) = .ok items ∧
        Glossary.addItems { g with header } path now items = (.ok (), g') := by
  unfold Glossary.addDocument
  cases Json.overlay g.header (Table.find? fields "metadata".toList) with
  | error fault => simp
  | ok header =>
    cases Json.elementsOrNone (Table.find? fields "terms".toList) with
    | error fault => simp
    | ok items => simp

theorem Lasting.addDocument (h : g.Lasting) {fields : Fields} (hfields : (Json.obj fields).Sound)
    (hnow : 0 < now) (hadd : g.addDocument path now fields = (.ok (), g')) :
    g'.Lasting ∧ g'.path = g.path := by
  obtain ⟨header, items, hheader, hitems, hadd⟩ := addDocument_eq_ok_iff.mp hadd
  have hoverlay : (Json.obj header).Sound :=
    Json.sound_overlay h.header (fun _ => hfields.find?) hheader
  exact Lasting.addItems (Json.sound_elementsOrNone (fun _ => hfields.find?) hitems) hnow
    (g := { g with header }) { h with header := hoverlay } hadd

/-! ### The file -/

theorem save_eq_ok_iff (hpath : g.path = some path) :
    g.save now v = (.ok (), v') ↔ v.writeJson path (g.document now) = (.ok (), v') := by
  unfold save
  simp only [hpath]
  cases v.writeJson path (g.document now) with
  | mk result v₁ =>
    cases result with
    | ok done => simp
    | error e => simp

theorem saved_eq_ok_iff {α : Type} {a b : α} :
    g.saved now v a = (.ok b, g', v') ↔ b = a ∧ g' = g ∧ g.save now v = (.ok (), v') := by
  unfold saved
  cases g.save now v with
  | mk outcome v₁ =>
    cases outcome with
    | error failure => simp
    | ok done =>
      simp only [Prod.mk.injEq, Except.ok.injEq, true_and]
      exact ⟨fun ⟨ha, hg, hv⟩ => ⟨ha.symm, hg.symm, hv⟩, fun ⟨ha, hg, hv⟩ => ⟨ha.symm, hg.symm, hv⟩⟩

/-- A glossary starts by writing its first file, or by reading the one that is there. -/
theorem start_eq_ok_iff :
    (Glossary.empty (some path)).start now v = (.ok (), g, v') ↔
      ∃ v₁, v.makeFolder? path.parent = some v₁ ∧
        (v₁.readJson path = .ok none ∧
            g = (Glossary.empty (some path)).setHeader "created" (.nat now) ∧
            g.save now v₁ = (.ok (), v') ∨
          ∃ fields, v₁.readJson path = .ok (some (.obj fields)) ∧
            (Glossary.empty (some path)).addDocument path now fields = (.ok (), g) ∧ v' = v₁) := by
  have hpath : (Glossary.empty (some path)).path = some path := rfl
  unfold start load
  simp only [hpath]
  cases v.makeFolder? path.parent with
  | none => simp
  | some v₁ =>
    simp only [Option.some.injEq, exists_eq_left']
    cases v₁.readJson path with
    | error failure => simp
    | ok document =>
      cases document with
      | none =>
        simp only [saved_eq_ok_iff, true_and, Except.ok.injEq, reduceCtorEq, false_and,
          exists_false, or_false]
        constructor
        · rintro ⟨rfl, hsave⟩
          exact ⟨rfl, hsave⟩
        · rintro ⟨rfl, hsave⟩
          exact ⟨rfl, hsave⟩
      | some document =>
        cases document with
        | obj fields =>
          cases hadd : (Glossary.empty (some path)).addDocument path now fields with
          | mk result g₁ =>
            simp only [Except.ok.injEq, Option.some.injEq, reduceCtorEq, false_and, false_or,
              Json.obj.injEq, exists_eq_left', hadd, Prod.mk.injEq, and_assoc, eq_comm (a := v₁)]
        | null | bool _ | int _ | float _ | str _ | arr _ => simp

/-- A file that is there can be read again. -/
theorem exists_readJson {folder : Path} {name : Text} (hname : Path.IsName name) {document : Json}
    (hread : v.readJson (folder.child name) = .ok (some document)) :
    ∃ v', v.makeFolder? (folder.child name).parent = some v' ∧
      v'.readJson (folder.child name) = .ok (some document) := by
  obtain ⟨t, hcontent, ht⟩ := Volume.readJson_eq_some_iff.mp hread
  obtain ⟨v', hmade⟩ := Volume.exists_makeFolder? hname hcontent
  refine ⟨v', ?_, Volume.readJson_eq_some_iff.mpr ⟨t, ?_, ht⟩⟩
  · rwa [Path.parent_child hname]
  · rwa [Volume.content?_makeFolder? hmade]

/-- A path on which a glossary starts names a file in a folder. -/
theorem child_of_start {given : Text}
    (h : (Glossary.empty (some (.ofText given))).start now v = (.ok (), g, v')) :
    ∃ (folder : Path) (name : Text), Path.IsName name ∧ Path.ofText given = folder.child name := by
  obtain ⟨v₁, hmade, hstart⟩ := start_eq_ok_iff.mp h
  rcases Volume.child_of_makeFolder? hmade with hchild | hnowhere | ⟨inner, hfolder⟩
  · exact hchild
  · rcases hstart with ⟨-, rfl, hsave⟩ | ⟨fields, hread, -, -⟩
    · have hwrite := (save_eq_ok_iff rfl).mp hsave
      simp [Volume.writeJson, Volume.replaceFile, hnowhere] at hwrite
    · obtain ⟨t, hcontent, -⟩ := Volume.readJson_eq_some_iff.mp hread
      rw [Volume.content?_eq, hnowhere] at hcontent
      cases hcontent
  · have hunread : v₁.readJson (.ofText given) = .error (Error.unreadable (.ofText given)) := by
      rw [Volume.readJson, hfolder]
    rw [hunread] at hstart
    rcases hstart with ⟨hread, -⟩ | ⟨_, hread, -⟩
    · cases hread
    · cases hread

/-- A glossary that has been written is read back. -/
theorem start_filed {folder : Path} {name : Text} (hname : Path.IsName name) (h : g.Lasting)
    {saved : Nat}
    (hfile : v.content? (folder.child name) = some (.text (g.document saved).document)) (now : Nat) :
    ∃ g' v', (Glossary.empty (some (folder.child name))).start now v = (.ok (), g', v') ∧
      g'.terms = g.terms := by
  have hread : v.readJson (folder.child name) = .ok (some (g.document saved)) :=
    Volume.readJson_eq_some_iff.mpr ⟨_, hfile, Json.read_document (h.sound_document saved)⟩
  obtain ⟨v', hmade, hread'⟩ := exists_readJson hname hread
  have hadd := addItems_toJson h.keyed h.entries
    { Glossary.empty (some (folder.child name)) with
      header := Table.merge (Glossary.empty none).header
        (Table.insert g.header "lastModified".toList (.nat saved)) } (folder.child name) now
  refine ⟨_, v', start_eq_ok_iff.mpr ⟨v', hmade, .inr ⟨_, hread',
    addDocument_eq_ok_iff.mpr ⟨_, _, rfl, Json.elementsOrNone_arr _, hadd⟩, rfl⟩⟩, ?_⟩
  exact Table.ofPairs_of_nodup h.distinct

/-- A glossary that has been read is read again from the same file. -/
theorem start_again {folder : Path} {name : Text} (hname : Path.IsName name) {fields : Fields}
    (hread : v.readJson (folder.child name) = .ok (some (.obj fields)))
    (hadd : (Glossary.empty (some (folder.child name))).addDocument (folder.child name) now fields =
      (.ok (), g)) (again : Nat) :
    ∃ g' v', (Glossary.empty (some (folder.child name))).start again v = (.ok (), g', v') ∧
      List.Forall₂ (SameTerm (Untimed v (folder.child name) now)) g.terms g'.terms := by
  obtain ⟨v', hmade, hread'⟩ := exists_readJson hname hread
  obtain ⟨header, items, hheader, hitems, hadd⟩ := addDocument_eq_ok_iff.mp hadd
  have hempty := forall₂_sameTerm_refl (UntimedIn items now)
    { Glossary.empty (some (folder.child name)) with header }.terms
  obtain ⟨g', hadd', hsame⟩ := addItems_again (List.Subset.refl items) hadd hempty again
  refine ⟨g', v', start_eq_ok_iff.mpr ⟨v', hmade, .inr ⟨fields, hread',
    addDocument_eq_ok_iff.mpr ⟨header, items, hheader, hitems, hadd'⟩, rfl⟩⟩, ?_⟩
  exact hsame.imp fun p p' hp => ⟨hp.1, hp.2.mono fun name huntimed =>
    ⟨.obj fields, items, hread, hitems, huntimed⟩⟩

end Localize.Glossary
