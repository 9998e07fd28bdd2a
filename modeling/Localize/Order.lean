/-!
# Sorting

A stable sort by a relation: elements that neither precedes the other keep the order in which they
were given.
-/

namespace Localize

variable {α : Type}

/-- Inserts an element behind those that precede it. -/
def insertBy (precedes : α → α → Bool) (x : α) : List α → List α
  | [] => [x]
  | y :: rest => if precedes y x then y :: insertBy precedes x rest else x :: y :: rest

def sortBy (precedes : α → α → Bool) (items : List α) : List α :=
  items.foldr (insertBy precedes) []

theorem insertBy_perm (precedes : α → α → Bool) (x : α) (items : List α) :
    (insertBy precedes x items).Perm (x :: items) := by
  induction items with
  | nil => exact .refl _
  | cons y rest ih =>
    unfold insertBy
    split
    · exact (ih.cons y).trans (.swap x y rest)
    · exact .refl _

theorem sortBy_perm (precedes : α → α → Bool) (items : List α) :
    (sortBy precedes items).Perm items := by
  induction items with
  | nil => exact .refl _
  | cons x rest ih => exact (insertBy_perm precedes x _).trans (ih.cons x)

/-- Sorting puts elements into an order that the relation decides. -/
theorem pairwise_insertBy {precedes : α → α → Bool} {R : α → α → Prop}
    (hbefore : ∀ x y, precedes x y = true → R x y)
    (hbehind : ∀ x y, precedes x y = false → R y x)
    (htrans : ∀ x y z, R x y → R y z → R x z) (x : α) {items : List α}
    (h : items.Pairwise R) : (insertBy precedes x items).Pairwise R := by
  induction items with
  | nil => exact List.pairwise_singleton R x
  | cons y rest ih =>
    obtain ⟨hy, hrest⟩ := List.pairwise_cons.mp h
    unfold insertBy
    split
    · next hp =>
      refine List.pairwise_cons.mpr ⟨?_, ih hrest⟩
      intro z hz
      rcases List.mem_cons.mp ((insertBy_perm precedes x rest).mem_iff.mp hz) with hz | hz
      · subst hz
        exact hbefore y z hp
      · exact hy z hz
    · next hp =>
      have hxy : R x y := hbehind y x (Bool.not_eq_true _ ▸ hp)
      refine List.pairwise_cons.mpr ⟨?_, h⟩
      intro z hz
      rcases List.mem_cons.mp hz with hz | hz
      · subst hz
        exact hxy
      · exact htrans x y z hxy (hy z hz)

theorem pairwise_sortBy {precedes : α → α → Bool} {R : α → α → Prop}
    (hbefore : ∀ x y, precedes x y = true → R x y)
    (hbehind : ∀ x y, precedes x y = false → R y x)
    (htrans : ∀ x y z, R x y → R y z → R x z) (items : List α) :
    (sortBy precedes items).Pairwise R := by
  induction items with
  | nil => exact .nil
  | cons x rest ih => exact pairwise_insertBy hbefore hbehind htrans x ih

/-! Elements that agree in what decides the order keep the order in which they were given. -/

theorem filter_insertBy {precedes : α → α → Bool} {P : α → Bool} {x : α} {items : List α}
    (h : ∀ y ∈ items, P x = true → P y = true → precedes y x = false) :
    (insertBy precedes x items).filter P = (x :: items).filter P := by
  induction items with
  | nil => rfl
  | cons y rest ih =>
    unfold insertBy
    split
    · next hp =>
      have hrest := ih fun z hz => h z (List.mem_cons_of_mem y hz)
      cases hx : P x with
      | false => simp only [List.filter_cons, hx, hrest, Bool.false_eq_true, if_false]
      | true =>
        have hy : P y = false := Bool.eq_false_iff.mpr fun hy => by
          rw [h y List.mem_cons_self hx hy] at hp
          cases hp
        simp only [List.filter_cons, hx, hy, hrest, Bool.false_eq_true, if_false, if_true]
    · rfl

theorem filter_sortBy {precedes : α → α → Bool} {P : α → Bool} {items : List α}
    (h : ∀ x ∈ items, ∀ y ∈ items, P x = true → P y = true → precedes y x = false) :
    (sortBy precedes items).filter P = items.filter P := by
  induction items with
  | nil => rfl
  | cons x rest ih =>
    have hrest := ih fun y hy z hz =>
      h y (List.mem_cons_of_mem x hy) z (List.mem_cons_of_mem x hz)
    have hx : ∀ y ∈ sortBy precedes rest, P x = true → P y = true → precedes y x = false := by
      intro y hy
      have hmem : y ∈ rest := (sortBy_perm precedes rest).mem_iff.mp hy
      exact h x List.mem_cons_self y (List.mem_cons_of_mem x hmem)
    change (insertBy precedes x (sortBy precedes rest)).filter P = _
    rw [filter_insertBy hx, List.filter_cons, List.filter_cons, hrest]

end Localize
