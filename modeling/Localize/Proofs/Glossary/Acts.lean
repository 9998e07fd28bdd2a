import Localize.Proofs.Glossary.Atomic

/-!
# What an act makes of the terms

Before anything is written an act either leaves the glossary as it is or makes other terms of it,
with the time of the change in the header; then it saves what it has made. So the glossary behind an
act does not depend on the files, and what holds of every term is carried along by looking at the
terms that an act adds and at those that it changes.
-/

namespace Localize.Glossary

variable {s : State} {now : Nat} {act : Act}

theorem Act.terms_run (act : Act) (now : Nat) (s : State) :
    (act.run now s).2.1.terms = s.1.terms ∨
      act.Makes now s.1.terms (act.run now s).2.1.terms := by
  obtain ⟨g, v⟩ := s
  cases act.comes now g with
  | nothing r _ _ hrun =>
    rw [hrun]
    exact .inl rfl
  | saving made hmakes _ _ _ hrun =>
    rw [hrun, saved_glossary]
    exact .inr hmakes

theorem Act.header_run (act : Act) (now : Nat) (s : State) :
    (act.run now s).2.1.header = s.1.header ∨
      (act.run now s).2.1.header = Table.insert s.1.header "lastModified".toList (.nat now) := by
  obtain ⟨g, v⟩ := s
  cases act.comes now g with
  | nothing r _ _ hrun =>
    rw [hrun]
    exact .inl rfl
  | saving made _ _ hheader _ hrun =>
    rw [hrun, saved_glossary]
    exact hheader

/-! ### What holds of every entry -/

variable {P : Entry → Prop} {terms made : Table Json Entry}

theorem forall_values_insert {e : Entry} (h : ∀ e ∈ terms.values, P e) (he : P e) (key : Json) :
    ∀ e' ∈ (Table.insert terms key e).values, P e' := by
  intro e' he'
  obtain ⟨p, hp, rfl⟩ := List.mem_map.mp he'
  rcases Table.of_mem_insert hp with hnew | hp
  · rw [hnew]
    exact he
  · exact h _ (List.mem_map_of_mem hp)

/-- The property holds of an entry that the act adds, and still holds of one that it changes. -/
structure Act.Keeps (P : Entry → Prop) (now : Nat) (act : Act) : Prop where
  added : ∀ draft e, act = .add draft → draft.entry now = .ok e → P e
  revised : ∀ caseSensitive term revision e, act = .update caseSensitive term revision → P e →
    P (revision.apply now e)

theorem Act.Keeps.makes (hkeeps : act.Keeps P now) (hmakes : act.Makes now terms made)
    (h : ∀ e ∈ terms.values, P e) : ∀ e ∈ made.values, P e := by
  cases hmakes with
  | add hentry _ => exact forall_values_insert h (hkeeps.added _ _ rfl hentry) _
  | update revision _ hfind =>
    have hfound := h _ (List.mem_map_of_mem (Table.mem_of_find? hfind))
    exact forall_values_insert h (hkeeps.revised _ _ revision _ rfl hfound) _
  | @delete _ _ key _ _ =>
    have hsub : (Table.erase terms key).values.Sublist terms.values :=
      (Table.erase_sublist terms key).map _
    exact fun e he => h e (hsub.subset he)
  | clear => exact fun e he => absurd he List.not_mem_nil
  | save => exact h

theorem Act.Keeps.run (hkeeps : act.Keeps P now) (h : ∀ e ∈ s.1.terms.values, P e) :
    ∀ e ∈ (act.run now s).2.1.terms.values, P e := by
  rcases act.terms_run now s with hsame | hmakes
  · rwa [hsame]
  · exact hkeeps.makes hmakes h

end Localize.Glossary
