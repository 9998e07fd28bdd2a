import Localize.Proofs.Markup.Plain

/-!
# Expressions in braces

An expression ends at its first closing brace, so it holds none. A brace that stands behind a front is
the beginning of an expression if every brace of the front is closed in it; if not, it is within the
expression that the first of the others begins.
-/

namespace Localize.Markup

variable {α : Type} {inside front t u y z : Text} {code : Text} {x : Exclusion}

/-- An expression ends at its first closing brace. -/
theorem expression?_closed (h : '\x7d' ∉ inside) (rest : Text) :
    expression? ('\x7b' :: (inside ++ '\x7d' :: rest)) =
      if inside = [] then none else some (inside, inside.length + 2) := by
  simp only [expression?, takeWhile_ne_append h, List.length_append, List.length_cons]
  by_cases hne : inside = []
  · simp [hne]
  · simp [hne]

theorem expression?_open (h : '\x7d' ∉ t) : expression? ('\x7b' :: t) = none := by
  simp only [expression?, takeWhile_ne_of_notMem h, decide_true, Bool.or_true, if_true]

/-- What stands behind the closing brace does not matter. -/
theorem expression?_append_of_mem (h : '\x7d' ∈ t) (u : Text) :
    expression? ('\x7b' :: (t ++ u)) = expression? ('\x7b' :: t) := by
  obtain ⟨inside, rest, rfl, hinside⟩ := List.eq_append_cons_of_mem h
  rw [List.append_assoc, List.cons_append, expression?_closed hinside, expression?_closed hinside]

/-- What is read as an expression is there, and no closing brace is in it. -/
theorem length_le_of_expression? {n : Nat} (h : expression? y = some (inside, n)) :
    n ≤ y.length := by
  unfold expression? at h
  split at h
  · rename_i rest
    have hle := (List.takeWhile_prefix (· ≠ '\x7d') (l := rest)).length_le
    simp only [Option.ite_none_left_eq_some, Option.some.injEq, Prod.mk.injEq, Bool.or_eq_true,
      decide_eq_true_eq, not_or] at h
    obtain ⟨⟨-, hne⟩, -, rfl⟩ := h
    rw [List.length_cons]
    omega
  · cases h

theorem notMem_of_expression? {n : Nat} (h : expression? y = some (inside, n)) : '\x7d' ∉ inside := by
  unfold expression? at h
  split at h
  · simp only [Option.ite_none_left_eq_some, Option.some.injEq, Prod.mk.injEq] at h
    obtain ⟨-, rfl, -⟩ := h
    intro hmem
    have hne := List.mem_takeWhile_imp hmem
    simp at hne
  · cases h

theorem notMem_of_mem_expressions (h : inside ∈ visibleMatches x expression? code) :
    '\x7d' ∉ inside := by
  obtain ⟨f, hf, rfl⟩ := List.mem_map.mp h
  exact notMem_of_expression? (Text.matcher_of_mem_scan (List.mem_filter.mp hf).1).2

/-! ### Braces that are open -/

/-- Every brace is closed. -/
def Closed (t : Text) : Prop := ∀ x y, t = x ++ '\x7b' :: y → '\x7d' ∈ y

theorem closed_of_notMem (h : '\x7b' ∉ t) : Closed t := by
  rintro x y rfl
  exact absurd (by simp) h

/-- What begins in a text whose braces are closed ends there. -/
theorem Closed.expression?_append (h : Closed t) (hsplit : t = z ++ y) (hy : y ≠ []) (u : Text) :
    expression? (y ++ u) = expression? y := by
  obtain ⟨c, y, rfl⟩ := List.exists_cons_of_ne_nil hy
  by_cases hc : c = '\x7b'
  · subst hc
    exact expression?_append_of_mem (h z y hsplit) u
  · rw [List.cons_append, expression?_of_ne hc, expression?_of_ne hc]

theorem Closed.matchesFrom_append (h : Closed t) (pos : Nat) (u : Text) :
    Text.matchesFrom expression? pos (t ++ u) =
      Text.matchesFrom expression? pos t ++ Text.matchesFrom expression? (pos + t.length) u :=
  Text.matchesFrom_append_of_settled rfl (fun _ _ _ => length_le_of_expression?)
    fun _ _ hsplit hy => h.expression?_append hsplit hy u

/-- A brace behind a front belongs to the expression that the first open brace begins, which is the
brace itself if those of the front are closed. -/
theorem exists_outermost (front : Text) : ∃ outer inner,
    front ++ ['\x7b'] = outer ++ '\x7b' :: inner ∧ Closed outer ∧ '\x7d' ∉ inner := by
  induction front with
  | nil => exact ⟨[], [], rfl, fun x y h => absurd h (by simp), List.not_mem_nil⟩
  | cons c front ih =>
    by_cases hopen : c = '\x7b' ∧ '\x7d' ∉ front
    · obtain ⟨rfl, hfront⟩ := hopen
      refine ⟨[], front ++ ['\x7b'], rfl, fun x y h => absurd h (by simp), ?_⟩
      simp [hfront]
    · obtain ⟨outer, inner, hsplit, houter, hinner⟩ := ih
      refine ⟨c :: outer, inner, by rw [List.cons_append, hsplit, List.cons_append], ?_, hinner⟩
      intro x y h
      cases x with
      | nil =>
        obtain ⟨rfl, rfl⟩ := List.cons.inj h
        rw [not_and, not_not] at hopen
        have hmem : '\x7d' ∈ front ++ ['\x7b'] := List.mem_append_left _ (hopen rfl)
        rw [hsplit] at hmem
        simpa [hinner] using hmem
      | cons d x => exact houter x y (List.cons.inj h).2

/-- If every brace of the front is closed, the first open brace is the one behind the front. -/
theorem Closed.outermost {outer inner : Text} (h : Closed front)
    (hsplit : front ++ ['\x7b'] = outer ++ '\x7b' :: inner) (hinner : '\x7d' ∉ inner) :
    outer = front ∧ inner = [] := by
  rcases List.eq_nil_or_concat inner with rfl | ⟨inner, c, rfl⟩
  · exact ⟨(List.append_inj_left' hsplit rfl).symm, rfl⟩
  · have hfront : front = outer ++ '\x7b' :: inner := by
      rw [List.concat_eq_append, ← List.cons_append, ← List.append_assoc] at hsplit
      exact List.append_inj_left' hsplit rfl
    exact absurd (by simp [h outer inner hfront]) hinner

end Localize.Markup
