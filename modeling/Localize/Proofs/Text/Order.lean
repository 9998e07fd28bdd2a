import Localize.Order
import Localize.Text.Basic
import Localize.Volume.Tree
import Mathlib.Data.Char
import Mathlib.Data.List.Lex

/-!
# The order of texts

Texts by code point are in the linear order of lists of characters. A sorted set is in strict order.
Sorting by name and leaving entries out can be done in either order.
-/

namespace Localize

section

variable {α : Type} {precedes : α → α → Bool} {P : α → Bool} {x : α} {items : List α}

theorem insertBy_front (h : ∀ y ∈ items, precedes y x = false) :
    insertBy precedes x items = x :: items := by
  cases items with
  | nil => rfl
  | cons y rest => simp [insertBy, h y List.mem_cons_self]

/-- An element goes to the same place among those of a sorted list that are kept. -/
theorem filter_insertBy_sorted
    (htrans : ∀ x y z, precedes y x = false → precedes z y = false → precedes z x = false)
    (h : items.Pairwise fun y z => precedes z y = false) :
    (insertBy precedes x items).filter P =
      if P x then insertBy precedes x (items.filter P) else items.filter P := by
  induction items with
  | nil => simp [insertBy, List.filter_cons]
  | cons y rest ih =>
    obtain ⟨hy, hrest⟩ := List.pairwise_cons.mp h
    rw [insertBy]
    split_ifs with hp hx hx
    · rw [List.filter_cons, ih hrest, if_pos hx, List.filter_cons]
      split_ifs
      · rw [insertBy, if_pos hp]
      · rfl
    · rw [List.filter_cons, ih hrest, if_neg hx, List.filter_cons]
    · have hfirst : precedes y x = false := Bool.eq_false_iff.mpr hp
      have hall : ∀ z ∈ y :: rest, precedes z x = false := by
        rw [List.forall_mem_cons]
        exact ⟨hfirst, fun z hz => htrans x y z hfirst (hy z hz)⟩
      rw [List.filter_cons, if_pos hx, insertBy_front]
      exact fun z hz => hall z (List.mem_filter.mp hz).1
    · rw [List.filter_cons, if_neg hx]

theorem sortBy_filter
    (hasymm : ∀ x y, precedes x y = true → precedes y x = false)
    (htrans : ∀ x y z, precedes y x = false → precedes z y = false → precedes z x = false)
    (items : List α) : sortBy precedes (items.filter P) = (sortBy precedes items).filter P := by
  induction items with
  | nil => rfl
  | cons x rest ih =>
    have hsorted : (sortBy precedes rest).Pairwise fun y z => precedes z y = false :=
      pairwise_sortBy hasymm (fun _ _ h => h) htrans rest
    change _ = (insertBy precedes x (sortBy precedes rest)).filter P
    rw [filter_insertBy_sorted htrans hsorted, ← ih, List.filter_cons]
    split_ifs
    · rfl
    · rfl

end

namespace Text

variable {t u w : Text} {texts : List Text}

/-- The order of texts is that of lists of characters. -/
theorem before_iff_lt : before t u = true ↔ t < u := by
  induction t generalizing u with
  | nil => cases u <;> simp [before]
  | cons c t ih =>
    cases u with
    | nil => simp [before]
    | cons d u =>
      rw [before, List.cons_lt_cons_iff]
      by_cases hc : c = d
      · simp [hc, ih]
      · simp [hc, Char.lt_def, UInt32.lt_iff_toNat_lt]

theorem before_eq_false_iff_le : before t u = false ↔ u ≤ t := by
  rw [← not_lt, ← before_iff_lt, Bool.not_eq_true]

theorem pairwise_insertSorted (t : Text) (h : texts.Pairwise (· < ·)) :
    (insertSorted t texts).Pairwise (· < ·) := by
  induction texts with
  | nil => exact List.pairwise_singleton _ t
  | cons u rest ih =>
    obtain ⟨hu, hrest⟩ := List.pairwise_cons.mp h
    unfold insertSorted
    split_ifs with hsame hbefore
    · exact h
    · have htu : t < u := before_iff_lt.mp hbefore
      refine List.pairwise_cons.mpr ⟨?_, h⟩
      rw [List.forall_mem_cons]
      exact ⟨htu, fun w hw => htu.trans (hu w hw)⟩
    · have hut : u < t :=
        lt_of_le_of_ne (before_eq_false_iff_le.mp (Bool.eq_false_iff.mpr hbefore)) (Ne.symm hsame)
      refine List.pairwise_cons.mpr ⟨fun w hw => ?_, ih hrest⟩
      obtain rfl | hw := mem_insertSorted.mp hw
      · exact hut
      · exact hu w hw

theorem pairwise_sortedSet (texts : List Text) : (sortedSet texts).Pairwise (· < ·) := by
  induction texts with
  | nil => exact .nil
  | cons t rest ih => exact pairwise_insertSorted t ih

end Text

theorem sortByName_filter {β : Type} (P : Text × β → Bool) (entries : List (Text × β)) :
    sortByName (entries.filter P) = (sortByName entries).filter P := by
  apply sortBy_filter
  · intro e f h
    rw [Text.before_iff_lt] at h
    exact Text.before_eq_false_iff_le.mpr h.le
  · intro e f g hfirst hsecond
    rw [Text.before_eq_false_iff_le] at hfirst hsecond ⊢
    exact hfirst.trans hsecond

/-- Entries of different names are in strict order when they are sorted by name. -/
theorem pairwise_sortByName {β : Type} {entries : List (Text × β)}
    (h : (entries.map (·.1)).Nodup) : (sortByName entries).Pairwise fun e f => e.1 < f.1 := by
  have hsorted : (sortByName entries).Pairwise fun e f => e.1 ≤ f.1 := by
    apply pairwise_sortBy
    · intro e f hbefore
      exact (Text.before_iff_lt.mp hbefore).le
    · intro e f hbehind
      exact Text.before_eq_false_iff_le.mp hbehind
    · intro e f g hfirst hsecond
      exact hfirst.trans hsecond
  have hdistinct : (sortByName entries).Pairwise fun e f => e.1 ≠ f.1 :=
    List.pairwise_map.mp (((sortBy_perm _ entries).map _).nodup_iff.mpr h)
  exact (hsorted.and hdistinct).imp fun hboth => lt_of_le_of_ne hboth.1 hboth.2

end Localize
