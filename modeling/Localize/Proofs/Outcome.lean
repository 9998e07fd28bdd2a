import Mathlib.Data.List.Forall2

/-!
# Outcomes of several steps

Two steps succeed together when the first gives a value with which the second succeeds. An operation
that is done for every element of a list succeeds exactly when it succeeds for each of them, and
then gives their results in order.
-/

namespace Localize

variable {ε α β : Type}

theorem bind_ok_iff {x : Except ε α} {f : α → Except ε β} {r : β} :
    (x >>= f) = .ok r ↔ ∃ a, x = .ok a ∧ f a = .ok r := by
  cases x with
  | error e => simp [bind, Except.bind]
  | ok a => simp [bind, Except.bind]

/-- What is seen of an outcome by running it. -/
theorem exists_ok_of_any {x : Except ε α} {P : α → Bool} (h : x.toOption.any P = true) :
    ∃ a, x = .ok a ∧ P a = true := by
  cases x with
  | error e => cases h
  | ok a => exact ⟨a, rfl, h⟩

theorem mapM_ok_iff {f : α → Except ε β} {items : List α} {results : List β} :
    items.mapM f = .ok results ↔ List.Forall₂ (fun a b => f a = .ok b) items results := by
  induction items generalizing results with
  | nil =>
    rw [List.mapM_nil, List.forall₂_nil_left_iff]
    exact ⟨fun h => (Except.ok.inj h).symm, fun h => by rw [h]; rfl⟩
  | cons a items ih =>
    rw [List.mapM_cons, bind_ok_iff]
    constructor
    · rintro ⟨b, hb, h⟩
      obtain ⟨rest, hrest, h⟩ := bind_ok_iff.mp h
      cases h
      exact .cons hb (ih.mp hrest)
    · intro h
      cases h with
      | cons hb hrest => exact ⟨_, hb, bind_ok_iff.mpr ⟨_, ih.mpr hrest, rfl⟩⟩

/-- A list gone through up to an element that stops, behind elements that let pass. -/
def Halts (passes stops : α → Prop) (items : List α) : Prop :=
  ∃ before a after, items = before ++ a :: after ∧ (∀ b ∈ before, passes b) ∧ stops a

theorem halts_nil {passes stops : α → Prop} : ¬Halts passes stops [] := by
  rintro ⟨before, a, after, h, -, -⟩
  exact List.append_ne_nil_of_right_ne_nil before (List.cons_ne_nil a after) h.symm

theorem halts_cons {passes stops : α → Prop} {a : α} {items : List α} :
    Halts passes stops (a :: items) ↔ stops a ∨ passes a ∧ Halts passes stops items := by
  constructor
  · rintro ⟨before, b, after, h, hpasses, hstops⟩
    cases before with
    | nil =>
      cases h
      exact .inl hstops
    | cons c before =>
      cases h
      obtain ⟨hfirst, hbefore⟩ := List.forall_mem_cons.mp hpasses
      exact .inr ⟨hfirst, before, b, after, rfl, hbefore, hstops⟩
  · rintro (hstops | ⟨hfirst, before, b, after, rfl, hbefore, hstops⟩)
    · exact ⟨[], a, items, rfl, fun b hb => absurd hb List.not_mem_nil, hstops⟩
    · exact ⟨a :: before, b, after, rfl, List.forall_mem_cons.mpr ⟨hfirst, hbefore⟩, hstops⟩

/-- An operation for every element fails as it does for the first element it fails for. -/
theorem mapM_error_iff {f : α → Except ε β} {items : List α} {e : ε} :
    items.mapM f = .error e ↔
      Halts (fun a => ∃ b, f a = .ok b) (fun a => f a = .error e) items := by
  induction items with
  | nil => simp [halts_nil, pure, Except.pure]
  | cons a items ih =>
    rw [List.mapM_cons, halts_cons, ← ih]
    cases f a with
    | error e' => simp [bind, Except.bind]
    | ok b =>
      cases items.mapM f with
      | error e' => simp [bind, Except.bind]
      | ok rest => simp [bind, Except.bind, pure, Except.pure]

theorem exists_mapM_ok {f : α → Except ε β} {items : List α}
    (h : ∀ a ∈ items, ∃ b, f a = .ok b) : ∃ results, items.mapM f = .ok results := by
  induction items with
  | nil => exact ⟨[], rfl⟩
  | cons a items ih =>
    obtain ⟨b, hb⟩ := h a List.mem_cons_self
    obtain ⟨rest, hrest⟩ := ih fun c hc => h c (List.mem_cons_of_mem _ hc)
    exact ⟨b :: rest, mapM_ok_iff.mpr (.cons hb (mapM_ok_iff.mp hrest))⟩

theorem exists_of_mem_right {R : α → β → Prop} {items : List α} {results : List β}
    (h : List.Forall₂ R items results) {b : β} (hb : b ∈ results) : ∃ a ∈ items, R a b := by
  induction h with
  | nil => cases hb
  | @cons a b' items results hab _ ih =>
    rcases List.mem_cons.mp hb with rfl | hb
    · exact ⟨a, List.mem_cons_self, hab⟩
    · obtain ⟨c, hc, hr⟩ := ih hb
      exact ⟨c, List.mem_cons_of_mem _ hc, hr⟩

theorem exists_of_mem_left {R : α → β → Prop} {items : List α} {results : List β}
    (h : List.Forall₂ R items results) {a : α} (ha : a ∈ items) : ∃ b ∈ results, R a b :=
  exists_of_mem_right h.flip ha

/-- Elements gone through in order, up to the first that ends it: some are passed over, the others
give something that is taken. -/
inductive Sifted (Judged : α → Except ε (Option β) → Prop) : List α → List β → Option ε → Prop
  | done : Sifted Judged [] [] none
  | passed {a : α} {items : List α} {taken : List β} {ending : Option ε}
      (ha : Judged a (.ok none)) (hrest : Sifted Judged items taken ending) :
      Sifted Judged (a :: items) taken ending
  | taken {a : α} {b : β} {items : List α} {taken : List β} {ending : Option ε}
      (ha : Judged a (.ok (some b))) (hrest : Sifted Judged items taken ending) :
      Sifted Judged (a :: items) (b :: taken) ending
  | ended {a : α} {items : List α} {e : ε} (ha : Judged a (.error e)) :
      Sifted Judged (a :: items) [] (some e)

theorem exists_sifted {Judged : α → Except ε (Option β) → Prop} (h : ∀ a, ∃ r, Judged a r)
    (items : List α) : ∃ taken ending, Sifted Judged items taken ending := by
  induction items with
  | nil => exact ⟨[], none, .done⟩
  | cons a items ih =>
    obtain ⟨taken, ending, hrest⟩ := ih
    obtain ⟨r, hr⟩ := h a
    rcases r with e | _ | b
    · exact ⟨[], some e, .ended hr⟩
    · exact ⟨taken, ending, .passed hr hrest⟩
    · exact ⟨b :: taken, ending, .taken hr hrest⟩

/-- Elements that are each taken or passed over, as a test tells. -/
theorem sifted_filter {ι : Type} {Judged : α → Except ε (Option β) → Prop} {f : ι → α} {g : ι → β}
    {P : ι → Bool} {items : List ι}
    (htaken : ∀ i ∈ items, P i = true → Judged (f i) (.ok (some (g i))))
    (hpassed : ∀ i ∈ items, P i = false → Judged (f i) (.ok none)) :
    Sifted Judged (items.map f) ((items.filter P).map g) none := by
  induction items with
  | nil => exact .done
  | cons i items ih =>
    obtain ⟨hi, htaken⟩ := List.forall_mem_cons.mp htaken
    obtain ⟨hi', hpassed⟩ := List.forall_mem_cons.mp hpassed
    cases hP : P i with
    | true =>
      rw [List.map_cons, List.filter_cons_of_pos hP, List.map_cons]
      exact .taken (hi hP) (ih htaken hpassed)
    | false =>
      rw [List.map_cons, List.filter_cons_of_neg (by simp [hP])]
      exact .passed (hi' hP) (ih htaken hpassed)

/-- Elements that all give something are all taken. -/
theorem sifted_map {ι : Type} {Judged : α → Except ε (Option β) → Prop} {f : ι → α} {g : ι → β}
    {items : List ι} (h : ∀ i ∈ items, Judged (f i) (.ok (some (g i)))) :
    Sifted Judged (items.map f) (items.map g) none := by
  have hall : Sifted Judged (items.map f) ((items.filter fun _ => true).map g) none :=
    sifted_filter (fun i hi _ => h i hi) fun _ _ hP => nomatch hP
  rwa [List.filter_true] at hall

end Localize
