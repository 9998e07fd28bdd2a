import Localize.Glossary.Placeholder
import Localize.Proofs.Text.Basic
import Localize.Proofs.Text.Search
import Mathlib.Data.List.Basic

/-!
# Tokens in texts

Every token holds the mark once, and nowhere else can the mark reach into a token: it begins with
a letter that comes only once in a token, and the underscores around it are no letters of it. So in
a text that is woven of tokens and of parts without the mark, every token is found exactly where it
was put.
-/

namespace Localize.Placeholder

/-- The part of a token that no text to be protected may hold. -/
def mark : Text := ['G', 'L', 'O', 'S', 'S', 'A', 'R', 'Y']

theorem token_eq (n : Nat) :
    token n = ['_', '_'] ++ (mark ++ '_' :: (Text.ofNat n ++ ['_', '_'])) := by
  have ho : opening = ['_', '_'] ++ mark ++ ['_'] := rfl
  have hc : closing = ['_', '_'] := rfl
  rw [token, ho, hc]
  simp only [List.append_assoc, List.cons_append, List.nil_append]

theorem token_ne_nil (n : Nat) : token n ≠ [] := by
  rw [token_eq]
  exact List.cons_ne_nil _ _

theorem mark_infix_token (n : Nat) : mark <:+: token n := by
  rw [token_eq]
  exact ⟨_, _, (List.append_assoc _ _ _)⟩

theorem underscore_not_mem_ofNat (n : Nat) : '_' ∉ Text.ofNat n := fun h =>
  absurd (Text.isDigit_of_mem_ofNat h) (by decide)

theorem initial_not_mem_ofNat (n : Nat) : 'G' ∉ Text.ofNat n := fun h =>
  absurd (Text.isDigit_of_mem_ofNat h) (by decide)

/-- What follows the mark in a token tells the number. -/
theorem ofNat_append_inj {m n : Nat} {y z : Text}
    (h : Text.ofNat m ++ '_' :: y = Text.ofNat n ++ '_' :: z) : m = n ∧ y = z := by
  rw [List.append_eq_append_iff] at h
  rcases h with ⟨a, ha, hb⟩ | ⟨a, ha, hb⟩
  · cases a with
    | nil =>
      rw [List.append_nil] at ha
      exact ⟨(Text.ofNat_injective ha).symm, (List.cons.inj hb).2⟩
    | cons c a =>
      have hc : c = '_' := (List.cons.inj hb).1.symm
      refine (underscore_not_mem_ofNat n ?_).elim
      rw [ha, hc]
      simp
  · cases a with
    | nil =>
      rw [List.append_nil] at ha
      exact ⟨Text.ofNat_injective ha, (List.cons.inj hb).2.symm⟩
    | cons c a =>
      have hc : c = '_' := (List.cons.inj hb).1.symm
      refine (underscore_not_mem_ofNat m ?_).elim
      rw [ha, hc]
      simp

/-! ### Where the mark can stand -/

/-- The mark stands before the first underscore that follows its beginning. -/
theorem mark_prefix_of_append_eq {a y r : Text} (h : mark ++ y = a ++ '_' :: r) :
    ∃ b, a = mark ++ b ∧ y = b ++ '_' :: r := by
  rw [List.append_eq_append_iff] at h
  rcases h with ⟨b, ha, hy⟩ | ⟨b, hm, hr⟩
  · exact ⟨b, ha, hy⟩
  · cases b with
    | nil =>
      rw [List.append_nil] at hm
      exact ⟨[], by rw [List.append_nil, hm], hr.symm⟩
    | cons c b =>
      have hc : c = '_' := (List.cons.inj hr).1.symm
      have hmem : '_' ∈ mark := by
        rw [hm, hc]
        simp
      exact absurd hmem (by decide)

/-- The mark does not begin in a stretch without its first letter. -/
theorem append_mark_of_not_mem {x y p r : Text} (hp : 'G' ∉ p) (h : x ++ mark ++ y = p ++ r) :
    ∃ z, x = p ++ z ∧ z ++ mark ++ y = r := by
  rw [List.append_assoc, List.append_eq_append_iff] at h
  rcases h with ⟨a, ha, hm⟩ | ⟨a, ha, hr⟩
  · cases a with
    | nil =>
      rw [List.append_nil] at ha
      exact ⟨[], by rw [ha, List.append_nil], by simpa using hm⟩
    | cons c a =>
      have hc : c = 'G' := (List.cons.inj hm).1.symm
      refine (hp ?_).elim
      rw [ha, hc]
      simp
  · exact ⟨a, ha, by rw [hr, List.append_assoc]⟩

/-- In a text that ends with a token and a part without the mark, the mark stands before the token
or is the one in the token. -/
theorem append_mark_eq_append_token {x y u c : Text} {n : Nat} (hc : ¬ mark <:+: c)
    (h : x ++ mark ++ y = u ++ token n ++ c) :
    (∃ z, u = x ++ mark ++ z ∧ y = z ++ token n ++ c) ∨
      (x = u ++ ['_', '_'] ∧ y = '_' :: (Text.ofNat n ++ '_' :: '_' :: c)) := by
  have hu : x ++ (mark ++ y) =
      u ++ ('_' :: '_' :: (mark ++ '_' :: (Text.ofNat n ++ '_' :: '_' :: c))) := by
    simpa [token_eq] using h
  rw [List.append_eq_append_iff] at hu
  rcases hu with ⟨a, ha, hm⟩ | ⟨a, ha, hr⟩
  · obtain ⟨z, hz, hy⟩ := mark_prefix_of_append_eq hm
    refine .inl ⟨z, by rw [ha, hz, List.append_assoc], ?_⟩
    rw [hy, token_eq]
    simp
  · have ht : a ++ mark ++ y =
        ['_', '_'] ++ (mark ++ '_' :: (Text.ofNat n ++ '_' :: '_' :: c)) := by
      rw [List.append_assoc, ← hr]
      rfl
    obtain ⟨b, hb, hm⟩ := append_mark_of_not_mem (by decide) ht
    cases b with
    | nil =>
      have hy : y = '_' :: (Text.ofNat n ++ '_' :: '_' :: c) := List.append_cancel_left hm
      exact .inr ⟨by rw [ha, hb, List.append_nil], hy⟩
    | cons d b =>
      have hrest : b ++ mark ++ y =
          (mark.tail ++ '_' :: (Text.ofNat n ++ ['_', '_'])) ++ c := by
        have ht : b ++ mark ++ y = mark.tail ++ '_' :: (Text.ofNat n ++ '_' :: '_' :: c) :=
          (List.cons.inj hm).2
        simpa only [List.append_assoc, List.cons_append, List.nil_append] using ht
      have hg : 'G' ∉ mark.tail ++ '_' :: (Text.ofNat n ++ ['_', '_']) := by
        simp only [List.mem_append, List.mem_cons, not_or]
        exact ⟨by decide, by decide, initial_not_mem_ofNat n, by decide, by decide, by simp⟩
      obtain ⟨z, -, hz⟩ := append_mark_of_not_mem hg hrest
      exact (hc ⟨z, y, hz⟩).elim

/-! ### Woven texts -/

/-- A text of parts without the mark and of `k` tokens between them, numbered upwards from `n` from
the right to the left. -/
inductive Woven : Nat → Nat → Text → Prop
  | plain {n : Nat} {t : Text} : ¬ mark <:+: t → Woven n 0 t
  | weave {n k : Nat} {u c : Text} : Woven (n + 1) k u → ¬ mark <:+: c →
      Woven n (k + 1) (u ++ token n ++ c)

/-- The mark stands in a woven text only in a token. -/
theorem Woven.mark_in_token {n k : Nat} {t x y : Text} (hw : Woven n k t)
    (h : x ++ mark ++ y = t) :
    ∃ m z, n ≤ m ∧ m < n + k ∧ y = '_' :: (Text.ofNat m ++ '_' :: '_' :: z) := by
  induction hw generalizing y with
  | plain ht => exact (ht ⟨x, y, h⟩).elim
  | @weave n k u c _ hc ih =>
    rcases append_mark_eq_append_token hc h with ⟨z, hu, hy⟩ | ⟨_, hy⟩
    · obtain ⟨m, z', hn, hm, hz⟩ := ih hu.symm
      refine ⟨m, z' ++ token n ++ c, by omega, by omega, ?_⟩
      rw [hy, hz]
      simp
    · exact ⟨n, c, Nat.le_refl n, by omega, hy⟩

/-- A token in a text that ends with a token is that one, or it stands before it. -/
theorem Woven.token_before {n k m : Nat} {u c x y : Text} (hw : Woven (n + 1) k u)
    (hc : ¬ mark <:+: c) (h : x ++ token m ++ y = u ++ token n ++ c) :
    (m = n ∧ x = u ∧ y = c) ∨
      (n < m ∧ m < n + 1 + k ∧ ∃ z, u = x ++ token m ++ z ∧ y = z ++ token n ++ c) := by
  have hx : (x ++ ['_', '_']) ++ mark ++ ('_' :: (Text.ofNat m ++ '_' :: '_' :: y)) =
      u ++ token n ++ c := by
    rw [← h, token_eq]
    simp
  rcases append_mark_eq_append_token hc hx with ⟨z, hu, hy⟩ | ⟨hu, hy⟩
  · obtain ⟨m', z', hn, hm, hz⟩ := hw.mark_in_token hu.symm
    rw [hz, List.cons_append, List.cons_append, List.append_assoc, List.append_assoc] at hy
    obtain ⟨rfl, hy⟩ := ofNat_append_inj (List.cons.inj hy).2
    refine .inr ⟨hn, hm, z', ?_, ?_⟩
    · rw [hu, hz, token_eq]
      simp
    · simpa using hy
  · obtain ⟨hm, hy⟩ := ofNat_append_inj (List.cons.inj hy).2
    exact .inl ⟨hm, List.append_cancel_right hu, (List.cons.inj hy).2⟩

theorem Woven.number_of_token {n k m : Nat} {t x y : Text} (hw : Woven n k t)
    (h : x ++ token m ++ y = t) : n ≤ m ∧ m < n + k := by
  cases hw with
  | plain ht =>
    refine (ht ((mark_infix_token m).trans ?_)).elim
    exact ⟨x, y, h⟩
  | weave hu hc =>
    rcases hu.token_before hc h with ⟨hm, _⟩ | ⟨hn, hm, _⟩ <;> omega

/-- A token stands in a woven text at one place only. -/
theorem Woven.token_unique {n k m : Nat} {t x y x' y' : Text} (hw : Woven n k t)
    (h : x ++ token m ++ y = t) (h' : x' ++ token m ++ y' = t) : x = x' ∧ y = y' := by
  induction hw generalizing y y' with
  | plain ht =>
    refine (ht ((mark_infix_token m).trans ?_)).elim
    exact ⟨x, y, h⟩
  | weave hu hc ih =>
    rcases hu.token_before hc h with ⟨hm, hx, hy⟩ | ⟨hn, _, z, hx, hy⟩ <;>
      rcases hu.token_before hc h' with ⟨hm', hx', hy'⟩ | ⟨hn', _, z', hx', hy'⟩
    · exact ⟨hx.trans hx'.symm, hy.trans hy'.symm⟩
    · omega
    · omega
    · obtain ⟨hxx, hzz⟩ := ih hx.symm hx'.symm
      exact ⟨hxx, by rw [hy, hy', hzz]⟩

/-- Every token woven in stands in the text. -/
theorem Woven.exists_token {n k m : Nat} {t : Text} (hw : Woven n k t) (hn : n ≤ m)
    (hm : m < n + k) : ∃ x y, x ++ token m ++ y = t := by
  induction hw with
  | plain _ => omega
  | @weave n k u c _ _ ih =>
    rcases Nat.lt_or_ge n m with h | h
    · obtain ⟨x, y, hu⟩ := ih h (by omega)
      exact ⟨x, y ++ token n ++ c, by rw [← hu]; simp⟩
    · obtain rfl : m = n := by omega
      exact ⟨u, c, rfl⟩

theorem Woven.token_not_infix {n k m : Nat} {t : Text} (hw : Woven n k t)
    (h : m < n ∨ n + k ≤ m) : ¬ token m <:+: t := by
  rintro ⟨x, y, hxy⟩
  have hm := hw.number_of_token hxy
  omega

theorem token_not_infix_of_mark {t : Text} (ht : ¬ mark <:+: t) (m : Nat) : ¬ token m <:+: t :=
  fun h => ht ((mark_infix_token m).trans h)

end Localize.Placeholder
