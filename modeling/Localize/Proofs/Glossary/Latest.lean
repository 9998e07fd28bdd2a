import Localize.Proofs.Glossary.Acts

/-!
# The latest entry under a key

A glossary is a finite map from keys to entries. The key of an entry is its term, in small letters
if the letter case does not matter; a term is looked for, changed and deleted under the key of the
text that is given. After any acts a look-up gives the entry that was added last under the key,
with the changes made to it since, unless it has been deleted or all terms have been cleared. Terms
with and without letter case share the keys.
-/

namespace Localize.Glossary

/-- The key of a term as a text. -/
def keyText (caseSensitive : Bool) (t : Text) : Text := if caseSensitive then t else Text.lower t

theorem keyOf_str (caseSensitive : Bool) (t : Text) :
    keyOf caseSensitive (.str t) = .ok (.str (keyText caseSensitive t)) := by
  cases caseSensitive <;> rfl

/-- Only a text has a text for its key. -/
theorem keyOf_eq_str_iff {caseSensitive : Bool} {term : Json} {key : Text} :
    keyOf caseSensitive term = .ok (.str key) ↔
      ∃ t, term = .str t ∧ keyText caseSensitive t = key := by
  cases term with
  | str t => simp [keyOf_str]
  | null | bool _ | int _ | float _ | arr _ | obj _ =>
    cases caseSensitive <;> simp [keyOf, Json.canName]

/-- A draft that can be added gives an entry under the key of its trimmed term. -/
theorem key_of_entry {draft : Draft} {now : Nat} {e : Entry} (h : draft.entry now = .ok e) :
    ∃ t, draft.term = .str t ∧ e.key = .ok (.str (keyText e.caseSensitive (Text.strip t))) := by
  unfold Draft.entry at h
  split at h
  · next t hterm =>
    split at h
    · cases h
    · split at h
      · cases h
      · cases h
        exact ⟨t, hterm, keyOf_str _ _⟩
  · cases h

/-- The acts that a glossary is put through, each at its time and whatever it comes to. -/
def after (s : State) (acts : List (Nat × Act)) : State :=
  acts.foldl (fun s a => (a.2.run a.1 s).2) s

namespace Act

/-- The act adds an entry under a key. -/
def Adds (now : Nat) (key : Text) (e : Entry) (act : Act) : Prop :=
  ∃ draft, act = .add draft ∧ draft.entry now = .ok e ∧ e.key = .ok (.str key)

/-- The act puts an end to an entry under a key: another one is added under the key, the one there
is deleted, or all are. -/
inductive Ends (now : Nat) (key : Text) : Act → Prop
  | add {e : Entry} {act : Act} (h : act.Adds now key e) : Ends now key act
  | delete {caseSensitive : Bool} {t : Text} (h : keyText caseSensitive t = key) :
      Ends now key (.delete caseSensitive (.str t))
  | clear : Ends now key .clear

/-- An entry under a key as the act leaves it if it does not put an end to it. -/
def revise (now : Nat) (key : Text) (e : Entry) : Act → Entry
  | .update caseSensitive (.str t) revision =>
    if keyText caseSensitive t = key then revision.apply now e else e
  | _ => e

end Act

/-- An entry was added under a key, nothing has put an end to it since, and it has been changed to
what it is. -/
def Stands (acts : List (Nat × Act)) (key : Text) (e : Entry) : Prop :=
  ∃ before now act later first, acts = before ++ (now, act) :: later ∧ act.Adds now key first ∧
    (∀ a ∈ later, ¬ a.2.Ends a.1 key) ∧
    e = later.foldl (fun e a => a.2.revise a.1 key e) first

variable {acts : List (Nat × Act)} {key : Text} {e : Entry} {now : Nat} {act : Act} {s : State}

theorem not_stands_nil : ¬ Stands [] key e := by
  rintro ⟨before, now, act, later, first, h, -⟩
  exact absurd h.symm (by simp)

theorem stands_concat_iff : Stands (acts ++ [(now, act)]) key e ↔
    act.Adds now key e ∨
      ¬ act.Ends now key ∧ ∃ e', Stands acts key e' ∧ e = act.revise now key e' := by
  constructor
  · rintro ⟨before, now', act', later, first, h, hadds, hlater, he⟩
    rcases List.eq_nil_or_concat' later with rfl | ⟨later, last, rfl⟩
    · cases List.append_inj_right' h rfl
      exact .inl (he ▸ hadds)
    · rw [← List.cons_append, ← List.append_assoc] at h
      obtain ⟨rfl, hlast⟩ := List.append_inj' h rfl
      cases hlast
      rw [List.foldl_append] at he
      exact .inr ⟨hlater (now, act) (by simp), _, ⟨before, now', act', later, first, rfl, hadds,
        fun a ha => hlater a (List.mem_append_left _ ha), rfl⟩, he⟩
  · rintro (hadds | ⟨hends, e', ⟨before, now', act', later, first, rfl, hadds, hlater, rfl⟩, rfl⟩)
    · exact ⟨acts, now, act, [], e, rfl, hadds, by simp, rfl⟩
    · refine ⟨before, now', act', later ++ [(now, act)], first, by simp, hadds, ?_, ?_⟩
      · intro a ha
        rcases List.mem_append.mp ha with ha | ha
        · exact hlater a ha
        · rw [List.mem_singleton.mp ha]
          exact hends
      · rw [List.foldl_append]
        rfl

/-! ### Terms behind one act -/

section

variable {g : Glossary} {v : Volume} {caseSensitive : Bool} {term : Json} {k : Json}

theorem terms_add {draft : Draft} (hentry : draft.entry now = .ok e) (hkey : e.key = .ok k) :
    (g.add now v draft).2.1.terms = Table.insert g.terms k e := by
  unfold add
  simp only [hentry, hkey, saved_glossary]
  rfl

theorem terms_add_error {draft : Draft} {failure : Failure}
    (hentry : draft.entry now = .error failure) : (g.add now v draft).2.1.terms = g.terms := by
  unfold add
  simp only [hentry]

theorem terms_update (hkey : keyOf caseSensitive term = .ok k) (revision : Revision) :
    (g.update now v caseSensitive term revision).2.1.terms =
      match Table.find? g.terms k with
      | none => g.terms
      | some e => Table.insert g.terms k (revision.apply now e) := by
  unfold update
  simp only [hkey]
  cases Table.find? g.terms k with
  | none => rfl
  | some e => exact congrArg Glossary.terms (saved_glossary true)

theorem terms_delete (hkey : keyOf caseSensitive term = .ok k) :
    (g.delete now v caseSensitive term).2.1.terms = Table.erase g.terms k := by
  unfold delete
  simp only [hkey]
  cases hhas : Table.has g.terms k with
  | false =>
    have habsent : k ∉ Table.keys g.terms := fun hmem => by
      rw [Table.has, Table.mem_keys_iff.mp hmem] at hhas
      cases hhas
    exact (Table.erase_of_notMem habsent).symm
  | true => exact congrArg Glossary.terms (saved_glossary true)

theorem terms_update_error {fault : Fault} (hkey : keyOf caseSensitive term = .error fault)
    (revision : Revision) : (g.update now v caseSensitive term revision).2.1.terms = g.terms := by
  unfold update
  simp only [hkey]

theorem terms_delete_error {fault : Fault} (hkey : keyOf caseSensitive term = .error fault) :
    (g.delete now v caseSensitive term).2.1.terms = g.terms := by
  unfold delete
  simp only [hkey]

end

/-! ### One act -/

theorem after_concat (s : State) (acts : List (Nat × Act)) (now : Nat) (act : Act) :
    after s (acts ++ [(now, act)]) = (act.run now (after s acts)).2 := by
  rw [after, List.foldl_append]
  rfl

/-- What every act preserves holds behind any acts. -/
theorem after_preserves {P : State → Prop} (h : P s)
    (hacts : ∀ a ∈ acts, ∀ s, P s → P (a.2.run a.1 s).2) : P (after s acts) := by
  induction acts generalizing s with
  | nil => exact h
  | cons a acts ih =>
    obtain ⟨ha, hacts⟩ := List.forall_mem_cons.mp hacts
    exact ih (ha s h) hacts

/-- What holds of every entry and is kept by every act holds of every entry behind the acts. -/
theorem forall_values_after {P : Entry → Prop} (h : ∀ e ∈ s.1.terms.values, P e)
    (hacts : ∀ a ∈ acts, a.2.Keeps P a.1) : ∀ e ∈ (after s acts).1.terms.values, P e :=
  after_preserves (P := fun s => ∀ e ∈ s.1.terms.values, P e) h fun a ha _ h => (hacts a ha).run h

namespace Act

/-- What an act leaves under a key where something or nothing was before. -/
def Moves (now : Nat) (key : Text) (before found : Option Entry) (act : Act) : Prop :=
  ∀ e, found = some e ↔ act.Adds now key e ∨
    ¬ act.Ends now key ∧ ∃ e', before = some e' ∧ e = act.revise now key e'

theorem Adds.unique {e' : Entry} (h : act.Adds now key e) (h' : act.Adds now key e') : e = e' := by
  obtain ⟨draft, rfl, hentry, -⟩ := h
  obtain ⟨_, hact, hentry', -⟩ := h'
  cases hact
  exact Except.ok.inj (hentry.symm.trans hentry')

variable {before found : Option Entry}

theorem moves_added (h : act.Adds now key e) : act.Moves now key before (some e) := by
  intro e'
  constructor
  · rintro ⟨⟩
    exact .inl h
  · rintro (h' | ⟨hends, -⟩)
    · rw [h.unique h']
    · exact absurd (.add h) hends

theorem moves_nothing (hends : act.Ends now key) (hadds : ∀ e, ¬ act.Adds now key e) :
    act.Moves now key before none := by
  intro e
  constructor
  · rintro ⟨⟩
  · rintro (h | ⟨h, -⟩)
    · exact absurd h (hadds e)
    · exact absurd hends h

theorem moves_revised (hends : ¬ act.Ends now key) :
    act.Moves now key before (before.map (act.revise now key)) := by
  intro e
  have hadds : ¬ act.Adds now key e := fun h => hends (.add h)
  rw [or_iff_right hadds, and_iff_right hends, Option.map_eq_some_iff]
  exact exists_congr fun e' => and_congr_right fun _ => eq_comm

theorem moves_same (hends : ¬ act.Ends now key) (hrevise : ∀ e, act.revise now key e = e) :
    act.Moves now key before before := by
  have hsame : before.map (act.revise now key) = before := by
    rw [funext hrevise]
    exact Option.map_id'
  have hmoves : act.Moves now key before _ := moves_revised hends
  rwa [hsame] at hmoves

section

variable {g : Glossary} {v : Volume} {caseSensitive : Bool} {term : Json}

theorem moves_add (g : Glossary) (now : Nat) (v : Volume) (draft : Draft) (key : Text) :
    (add draft).Moves now key (Table.find? g.terms (.str key))
      (Table.find? (g.add now v draft).2.1.terms (.str key)) := by
  cases hentry : draft.entry now with
  | error failure =>
    rw [terms_add_error hentry]
    refine moves_same ?_ fun e => rfl
    rintro (⟨_, hact, hentry', -⟩ | _)
    cases hact
    cases hentry.symm.trans hentry'
  | ok e =>
    obtain ⟨t, -, hkey⟩ := key_of_entry hentry
    rw [terms_add hentry hkey, Table.find?_insert]
    split
    · next heq => exact moves_added ⟨draft, rfl, hentry, heq ▸ hkey⟩
    · next hne =>
      refine moves_same ?_ fun e => rfl
      rintro (⟨_, hact, hentry', hkey'⟩ | _)
      cases hact
      cases hentry.symm.trans hentry'
      exact hne (Except.ok.inj (hkey.symm.trans hkey'))

theorem not_ends_update {revision : Revision} :
    ¬ (update caseSensitive term revision).Ends now key := by
  rintro (⟨_, hact, -⟩ | _)
  cases hact

theorem revise_update (h : keyOf caseSensitive term = .ok (.str key)) (revision : Revision)
    (e : Entry) :
    (update caseSensitive term revision).revise now key e = revision.apply now e := by
  obtain ⟨t, rfl, ht⟩ := keyOf_eq_str_iff.mp h
  exact if_pos ht

theorem revise_update_other (h : keyOf caseSensitive term ≠ .ok (.str key)) (revision : Revision)
    (e : Entry) : (update caseSensitive term revision).revise now key e = e := by
  cases term with
  | str t =>
    rw [keyOf_str] at h
    exact if_neg fun ht => h (by rw [ht])
  | null | bool _ | int _ | float _ | arr _ | obj _ => rfl

theorem moves_update (g : Glossary) (now : Nat) (v : Volume) (caseSensitive : Bool) (term : Json)
    (revision : Revision) (key : Text) :
    (update caseSensitive term revision).Moves now key (Table.find? g.terms (.str key))
      (Table.find? (g.update now v caseSensitive term revision).2.1.terms (.str key)) := by
  have hends : ¬ (update caseSensitive term revision).Ends now key := not_ends_update
  cases hkey : keyOf caseSensitive term with
  | error fault =>
    rw [terms_update_error hkey]
    refine moves_same hends (revise_update_other ?_ revision)
    rw [hkey]
    nofun
  | ok k =>
    rw [terms_update hkey]
    by_cases hk : k = .str key
    · subst hk
      have hmoves : (update caseSensitive term revision).Moves now key
          (Table.find? g.terms (.str key)) _ := moves_revised hends
      rw [funext (revise_update hkey revision)] at hmoves
      cases hfind : Table.find? g.terms (.str key) with
      | none =>
        rw [hfind] at hmoves ⊢
        exact hmoves
      | some e =>
        rw [hfind] at hmoves
        simp only
        rw [Table.find?_insert, if_pos rfl]
        exact hmoves
    · have hsame : Table.find? (match Table.find? g.terms k with
          | none => g.terms
          | some e => Table.insert g.terms k (revision.apply now e)) (.str key) =
            Table.find? g.terms (.str key) := by
        cases Table.find? g.terms k with
        | none => rfl
        | some e => rw [Table.find?_insert, if_neg hk]
      rw [hsame]
      refine moves_same hends (revise_update_other ?_ revision)
      rw [hkey]
      exact fun h => hk (Except.ok.inj h)

theorem moves_delete (h : (Table.keys g.terms).Nodup) (now : Nat) (v : Volume)
    (caseSensitive : Bool) (term : Json) (key : Text) :
    (delete caseSensitive term).Moves now key (Table.find? g.terms (.str key))
      (Table.find? (g.delete now v caseSensitive term).2.1.terms (.str key)) := by
  have hadds : ∀ e, ¬ (delete caseSensitive term).Adds now key e := by
    rintro e ⟨_, hact, -⟩
    cases hact
  have hother (hne : keyOf caseSensitive term ≠ .ok (.str key)) :
      ¬ (delete caseSensitive term).Ends now key := by
    rintro (hadd | ht)
    · exact hadds _ hadd
    · exact hne (by rw [keyOf_str, ht])
  cases hkey : keyOf caseSensitive term with
  | error fault =>
    rw [terms_delete_error hkey]
    refine moves_same (hother ?_) fun e => rfl
    rw [hkey]
    nofun
  | ok k =>
    rw [terms_delete hkey]
    by_cases hk : k = .str key
    · subst hk
      obtain ⟨t, rfl, ht⟩ := keyOf_eq_str_iff.mp hkey
      rw [Table.find?_erase_self h]
      exact moves_nothing (.delete ht) hadds
    · rw [Table.find?_erase_ne _ hk]
      refine moves_same (hother ?_) fun e => rfl
      rw [hkey]
      exact fun h => hk (Except.ok.inj h)

end

theorem moves_clear (g : Glossary) (now : Nat) (v : Volume) (key : Text) :
    clear.Moves now key (Table.find? g.terms (.str key))
      (Table.find? (g.clear now v).2.1.terms (.str key)) := by
  rw [Glossary.clear, saved_glossary]
  refine moves_nothing .clear ?_
  rintro e ⟨_, hact, -⟩
  cases hact

/-- What is under a key behind an act is told by what was there before. -/
theorem moves_run (h : (Table.keys s.1.terms).Nodup) (act : Act) (now : Nat) (key : Text) :
    act.Moves now key (Table.find? s.1.terms (.str key))
      (Table.find? (act.run now s).2.1.terms (.str key)) := by
  cases act with
  | add draft => exact moves_add s.1 now s.2 draft key
  | update caseSensitive term revision =>
    exact moves_update s.1 now s.2 caseSensitive term revision key
  | delete caseSensitive term => exact moves_delete h now s.2 caseSensitive term key
  | clear => exact moves_clear s.1 now s.2 key
  | save =>
    rw [run, saved_glossary]
    refine moves_same ?_ fun e => rfl
    rintro (⟨_, hact, -⟩ | _)
    cases hact

end Act

/-! ### Any acts -/

/-- Every term is under its own key, and no key has two terms. -/
structure Keyed (terms : Table Json Entry) : Prop where
  distinct : (Table.keys terms).Nodup
  keyed : ∀ p ∈ terms, p.2.key = .ok p.1

namespace Keyed

variable {terms : Table Json Entry} {k : Json}

theorem nil : Keyed [] := ⟨List.nodup_nil, fun _ hp => absurd hp List.not_mem_nil⟩

theorem insert (h : Keyed terms) (hkey : e.key = .ok k) : Keyed (Table.insert terms k e) where
  distinct := Table.nodup_keys_insert h.distinct k e
  keyed p hp := by
    rcases Table.of_mem_insert hp with rfl | hp
    · exact hkey
    · exact h.keyed p hp

theorem erase (h : Keyed terms) (k : Json) : Keyed (Table.erase terms k) where
  distinct := Table.nodup_keys_erase h.distinct k
  keyed p hp := h.keyed p ((Table.erase_sublist terms k).subset hp)

/-- A changed entry has the key that it had. -/
theorem revise (h : Keyed terms) (hfind : Table.find? terms k = some e) (revision : Revision)
    (now : Nat) : Keyed (Table.insert terms k (revision.apply now e)) :=
  h.insert (h.keyed (k, e) (Table.mem_of_find? hfind))

theorem makes {made : Table Json Entry} (h : Keyed terms) (hmakes : act.Makes now terms made) :
    Keyed made := by
  cases hmakes with
  | add _ hkey => exact h.insert hkey
  | update revision _ hfind => exact h.revise hfind revision now
  | delete _ _ => exact h.erase _
  | clear => exact nil
  | save => exact h

theorem run (h : Keyed s.1.terms) (now : Nat) (act : Act) : Keyed (act.run now s).2.1.terms := by
  rcases act.terms_run now s with hsame | hmakes
  · rwa [hsame]
  · exact h.makes hmakes

end Keyed

theorem keyed_after (path : Option Path) (v : Volume) (acts : List (Nat × Act)) :
    Keyed (after (Glossary.empty path, v) acts).1.terms :=
  after_preserves (P := fun s => Keyed s.1.terms) .nil fun a _ _ h => h.run a.1 a.2

theorem find?_after (path : Option Path) (v : Volume) (acts : List (Nat × Act)) (key : Text)
    (e : Entry) : Table.find? (after (Glossary.empty path, v) acts).1.terms (.str key) = some e ↔
      Stands acts key e := by
  induction acts using List.reverseRecOn generalizing e with
  | nil => exact iff_of_false nofun not_stands_nil
  | append_singleton acts a ih =>
    rw [after_concat, a.2.moves_run (keyed_after path v acts).distinct a.1 key e,
      stands_concat_iff]
    simp only [ih]

theorem delete_ok_false_iff {g : Glossary} {v : Volume} {caseSensitive : Bool} {term k : Json}
    (hkey : keyOf caseSensitive term = .ok k) :
    (g.delete now v caseSensitive term).1 = .ok false ↔ Table.find? g.terms k = none := by
  have hhas : Table.has g.terms k = false ↔ Table.find? g.terms k = none := by
    rw [Table.has, Option.isSome_eq_false_iff, Option.isNone_iff_eq_none]
  rw [← hhas]
  unfold delete
  simp only [hkey]
  cases Table.has g.terms k with
  | false => simp
  | true =>
    simp only [if_true, reduceCtorEq, iff_false]
    unfold saved
    split <;> simp

/-- Whatever a glossary is put through, looking for a text gives the entry that stands under its
key, if there is one. Deleting it takes away this entry and no other, and tells whether there was
one. -/
theorem latest_after (path : Option Path) (v : Volume) (acts : List (Nat × Act))
    (caseSensitive : Bool) (t : Text) :
    let s := after (Glossary.empty path, v) acts
    let key := keyText caseSensitive t
    Keyed s.1.terms ∧
    (∃ found, s.1.get? caseSensitive (.str t) = .ok found ∧
      ∀ e, found = some e ↔ Stands acts key e) ∧
    ∀ now, let deletion := s.1.delete now s.2 caseSensitive (.str t)
      deletion.2.1.terms = s.1.terms.filter (fun p => p.1 ≠ .str key) ∧
      (deletion.1 = .ok false ↔ ∀ e, ¬ Stands acts key e) := by
  intro s key
  have hkeyed : Keyed s.1.terms := keyed_after path v acts
  have hfind := find?_after path v acts key
  have hkey : keyOf caseSensitive (.str t) = .ok (.str key) := keyOf_str caseSensitive t
  refine ⟨hkeyed, ⟨Table.find? s.1.terms (.str key), ?_, hfind⟩, fun now => ⟨?_, ?_⟩⟩
  · rw [get?, hkey]
    rfl
  · rw [terms_delete hkey, Table.erase_eq_filter hkeyed.distinct]
  · rw [delete_ok_false_iff hkey, Option.eq_none_iff_forall_ne_some]
    exact forall_congr' fun e => not_congr (hfind e)

/-- A term whose letter case matters. -/
def strictTerm : Draft where
  term := Json.lit "acme"
  translations := .obj [("es".toList, Json.lit "uno")]

/-- The same term in capitals, whose letter case does not matter. -/
def looseTerm : Draft where
  term := Json.lit "ACME"
  translations := .obj [("es".toList, Json.lit "dos")]
  caseSensitive := .bool false

/-- A term whose letter case does not matter takes the place of one whose letter case does. -/
theorem strict_term_shadowed :
    let s := after (Glossary.empty none, ⟨[], []⟩) [(1, .add strictTerm), (2, .add looseTerm)]
    s.1.terms.length = 1 ∧
      (s.1.get? true (Json.lit "acme")).toOption.map
        (Option.map fun e => (e.term, e.caseSensitive)) =
          some (some (Json.lit "ACME", false)) := by
  decide +kernel

end Localize.Glossary
