import Localize.Text.Search

/-!
# Erasing

What is erased in front of a place depends on what stands behind it only as far as a stretch reaches
over the place. So the front of a text can be erased by itself, given how far the last stretch
reaches, and two texts with the same front are erased alike there if the same stretches reach over
the place.
-/

namespace Localize.Text

variable {lengthAt : Text → Nat} {t u v : Text}

/-- Text in which nothing to erase begins stays. -/
theorem eraseFrom_append_of_zero (h : ∀ x y, t = x ++ y → y ≠ [] → lengthAt (y ++ u) = 0) :
    eraseFrom lengthAt 0 (t ++ u) = t ++ eraseFrom lengthAt 0 u := by
  induction t with
  | nil => rfl
  | cons c t ih =>
    have hfirst : lengthAt (c :: (t ++ u)) = 0 := h [] (c :: t) rfl (List.cons_ne_nil c t)
    rw [List.cons_append, eraseFrom, hfirst, List.cons_append,
      ih fun x y hxy hy => h (c :: x) y (by rw [hxy]; rfl) hy]

theorem eraseFrom_skip (lengthAt : Text → Nat) (t u : Text) :
    eraseFrom lengthAt t.length (t ++ u) = eraseFrom lengthAt 0 u := by
  induction t with
  | nil => rfl
  | cons c t ih => exact ih

/-- What is left of a text with another behind it, and how far a stretch reaches into that one; the
next `skip` characters belong to a stretch already found. -/
def eraseUpTo (lengthAt : Text → Nat) (u : Text) : Nat → Text → Text × Nat
  | skip, [] => ([], skip)
  | skip + 1, _ :: rest => eraseUpTo lengthAt u skip rest
  | 0, c :: rest =>
    match lengthAt (c :: (rest ++ u)) with
    | 0 =>
      let (left, reach) := eraseUpTo lengthAt u 0 rest
      (c :: left, reach)
    | length + 1 => eraseUpTo lengthAt u length rest

theorem eraseFrom_append (lengthAt : Text → Nat) (skip : Nat) (t u : Text) :
    eraseFrom lengthAt skip (t ++ u) = (eraseUpTo lengthAt u skip t).1 ++
      eraseFrom lengthAt (eraseUpTo lengthAt u skip t).2 u := by
  induction t generalizing skip with
  | nil => rfl
  | cons c t ih =>
    cases skip with
    | succ skip => exact ih skip
    | zero =>
      rw [List.cons_append, eraseFrom, eraseUpTo]
      cases lengthAt (c :: (t ++ u)) with
      | zero => exact congrArg (c :: ·) (ih 0)
      | succ length => exact ih length

/-- The stretches within a text are the same with either of two texts behind it, and those that reach
over its end are as `reaches` says. -/
def ReachesAlike (lengthAt : Text → Nat) (t u v : Text) (reaches : Nat → Nat → Prop) : Prop :=
  ∀ x y, t = x ++ y → y ≠ [] →
    (lengthAt (y ++ u) ≤ y.length ∧ lengthAt (y ++ v) = lengthAt (y ++ u)) ∨
      ∃ m n, lengthAt (y ++ u) = y.length + m ∧ lengthAt (y ++ v) = y.length + n ∧ reaches m n

/-- Where the stretches reach alike the same is left, and a stretch reaches into both texts or into
none of them. -/
theorem eraseUpTo_alike {reaches : Nat → Nat → Prop} (h : ReachesAlike lengthAt t u v reaches)
    {k l : Nat}
    (hskip : (k ≤ t.length ∧ l = k) ∨ ∃ m n, k = t.length + m ∧ l = t.length + n ∧ reaches m n) :
    (eraseUpTo lengthAt u k t).1 = (eraseUpTo lengthAt v l t).1 ∧
      (((eraseUpTo lengthAt u k t).2 = 0 ∧ (eraseUpTo lengthAt v l t).2 = 0) ∨
        reaches (eraseUpTo lengthAt u k t).2 (eraseUpTo lengthAt v l t).2) := by
  induction t generalizing k l with
  | nil =>
    refine ⟨by cases k <;> cases l <;> rfl, ?_⟩
    rcases hskip with ⟨hk, rfl⟩ | ⟨m, n, rfl, rfl, hreaches⟩
    · obtain rfl : l = 0 := Nat.le_zero.mp hk
      exact .inl ⟨rfl, rfl⟩
    · simpa [eraseUpTo] using Or.inr hreaches
  | cons c t ih =>
    have hrest : ReachesAlike lengthAt t u v reaches := fun x y hxy hy =>
      h (c :: x) y (by rw [hxy]; rfl) hy
    have hfirst := h [] (c :: t) rfl (List.cons_ne_nil c t)
    simp only [List.cons_append, List.length_cons] at hfirst hskip
    rcases hskip with ⟨hk, rfl⟩ | ⟨m, n, rfl, rfl, hreaches⟩
    · cases l with
      | succ l => exact ih hrest (.inl ⟨Nat.le_of_succ_le_succ hk, rfl⟩)
      | zero =>
        rcases hfirst with ⟨hle, hsame⟩ | ⟨m, n, hu, hv, hreaches⟩
        · cases hlength : lengthAt (c :: (t ++ u)) with
          | zero =>
            obtain ⟨hleft, hreach⟩ := ih hrest (.inl ⟨Nat.zero_le _, rfl⟩)
            simp only [eraseUpTo, hsame.trans hlength, hlength]
            exact ⟨congrArg (c :: ·) hleft, hreach⟩
          | succ length =>
            simp only [eraseUpTo, hsame.trans hlength, hlength]
            exact ih hrest (.inl ⟨by omega, rfl⟩)
        · rw [Nat.add_right_comm] at hu hv
          simp only [eraseUpTo, hu, hv]
          exact ih hrest (.inr ⟨m, n, rfl, rfl, hreaches⟩)
    · rw [Nat.add_right_comm t.length 1 m, Nat.add_right_comm t.length 1 n]
      exact ih hrest (.inr ⟨m, n, rfl, rfl, hreaches⟩)

end Localize.Text
