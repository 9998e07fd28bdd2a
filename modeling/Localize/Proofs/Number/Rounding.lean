import Localize.Number.Binary64
import Mathlib.Algebra.Order.Field.Power
import Mathlib.Algebra.Order.Floor.Semifield
import Mathlib.Data.Int.Log
import Mathlib.Data.Rat.Floor
import Mathlib.Tactic.FieldSimp
import Mathlib.Tactic.Linarith
import Mathlib.Tactic.Positivity

/-!
# Rounding to double precision

`roundFraction` works on a numerator and a denominator. Here it is told as a function of the
rational number alone: the exponent is read off the binary logarithm and the significand is the
nearest whole number of units of that exponent. From it follow which pairs of significand and
exponent are results of rounding, and how near to such a number a fraction has to be to round to it.
-/

namespace Localize.Binary64

/-! ### The nearest whole number -/

/-- The natural number nearest to a rational number that is not negative, a tie to the even one. -/
def nearest (x : ℚ) : ℕ :=
  if x - ⌊x⌋₊ < 1 / 2 then ⌊x⌋₊
  else if 1 / 2 < x - ⌊x⌋₊ then ⌊x⌋₊ + 1
  else if ⌊x⌋₊ % 2 = 0 then ⌊x⌋₊ else ⌊x⌋₊ + 1

theorem roundQuotient_eq_nearest {num den : ℕ} (hden : 0 < den) :
    roundQuotient num den = nearest (num / den) := by
  have hpos : (0 : ℚ) < den := by exact_mod_cast hden
  have hfloor : ⌊(num / den : ℚ)⌋₊ = num / den := Nat.floor_div_eq_div num den
  have hrest : (num / den : ℚ) - (num / den : ℕ) = (num % den : ℕ) / den := by
    have hnum : (num : ℚ) = den * (num / den : ℕ) + (num % den : ℕ) := by
      exact_mod_cast (Nat.div_add_mod num den).symm
    rw [div_sub' hpos.ne', hnum, add_sub_cancel_left]
  have hless : ((num % den : ℕ) / den : ℚ) < 1 / 2 ↔ 2 * (num % den) < den := by
    rw [div_lt_div_iff₀ hpos (by norm_num), one_mul, mul_comm]
    exact_mod_cast Iff.rfl
  have hmore : (1 / 2 : ℚ) < (num % den : ℕ) / den ↔ den < 2 * (num % den) := by
    rw [div_lt_div_iff₀ (by norm_num) hpos, one_mul, mul_comm]
    exact_mod_cast Iff.rfl
  simp only [roundQuotient, nearest, hfloor, hrest, hless, hmore]

theorem abs_sub_nearest_le {x : ℚ} (hx : 0 ≤ x) : |x - nearest x| ≤ 1 / 2 := by
  have hlow : (⌊x⌋₊ : ℚ) ≤ x := Nat.floor_le hx
  have hhigh : x < ⌊x⌋₊ + 1 := Nat.lt_floor_add_one x
  unfold nearest
  split_ifs <;> rw [abs_le] <;> constructor <;> push_cast <;> linarith

theorem nearest_eq {x : ℚ} {n : ℕ} (hx : 0 ≤ x) (h : |x - n| < 1 / 2) : nearest x = n := by
  have hnear : |((nearest x : ℤ) - n : ℚ)| < 1 := by
    calc |((nearest x : ℤ) - n : ℚ)| = |(x - n) - (x - nearest x)| := by
          congr 1
          push_cast
          ring
      _ ≤ |x - n| + |x - nearest x| := abs_sub _ _
      _ < 1 := by linarith [abs_sub_nearest_le hx]
  have hzero : (nearest x : ℤ) - n = 0 := by
    rw [← Int.abs_lt_one_iff]
    exact_mod_cast hnear
  omega

theorem le_nearest {x : ℚ} {n : ℕ} (h : n ≤ x) : n ≤ nearest x := by
  have hx : (0 : ℚ) ≤ x := le_trans n.cast_nonneg h
  have hhalf := (abs_le.mp (abs_sub_nearest_le hx)).2
  have : (n : ℚ) < nearest x + 1 := by linarith
  exact Nat.lt_succ_iff.mp (by exact_mod_cast this)

theorem nearest_le {x : ℚ} {n : ℕ} (hx : 0 ≤ x) (h : x ≤ n) : nearest x ≤ n := by
  have hhalf := (abs_le.mp (abs_sub_nearest_le hx)).1
  have : (nearest x : ℚ) < n + 1 := by linarith
  exact Nat.lt_succ_iff.mp (by exact_mod_cast this)

/-! ### The exponent -/

theorem shiftDown_pos {num den : ℕ} (hden : 0 < den) (e : ℤ) : 0 < (shiftDown num den e).2 := by
  cases e with
  | ofNat e => exact Nat.mul_pos hden (Nat.pow_pos (by decide))
  | negSucc e => exact hden

theorem shiftDown_ratio (num den : ℕ) (e : ℤ) :
    ((shiftDown num den e).1 / (shiftDown num den e).2 : ℚ) = num / den / 2 ^ e := by
  cases e with
  | ofNat e =>
    simp only [shiftDown, Int.ofNat_eq_natCast, zpow_natCast, Nat.pow_eq]
    push_cast
    rw [div_div]
  | negSucc e =>
    simp only [shiftDown, zpow_negSucc, Nat.pow_eq]
    push_cast
    rw [div_inv_eq_mul, div_mul_eq_mul_div]

/-- The exponent a positive number is rounded at: it leaves 53 digits before the point, where the
range of the exponents allows it. -/
def roundingExponent (q : ℚ) : ℤ := max (-1074) (Int.log 2 q - 52)

theorem log_two_eq {q : ℚ} {e : ℤ} (hlow : 2 ^ e ≤ q) (hhigh : q < 2 ^ (e + 1)) :
    Int.log 2 q = e := by
  have hpos : (0 : ℚ) < q := lt_of_lt_of_le (by positivity) hlow
  have h₁ := (Int.zpow_le_iff_le_log (b := 2) (by decide) hpos).mp (by exact_mod_cast hlow)
  have h₂ := (Int.lt_zpow_iff_log_lt (b := 2) (by decide) hpos).mp (by exact_mod_cast hhigh)
  omega

/-- A fraction lies within a factor of two of the estimate that the lengths of its two numbers
give. -/
theorem log_ratio {num den : ℕ} (hnum : num ≠ 0) (hden : 0 < den) :
    Int.log 2 (num / den : ℚ) =
      if (num / den : ℚ) < 2 ^ ((Nat.log2 num : ℤ) - Nat.log2 den) then
        (Nat.log2 num : ℤ) - Nat.log2 den - 1
      else (Nat.log2 num : ℤ) - Nat.log2 den := by
  have hdenpos : (0 : ℚ) < den := by exact_mod_cast hden
  have hnumlow : (2 : ℚ) ^ (Nat.log2 num : ℤ) ≤ num := by
    exact_mod_cast Nat.log2_self_le hnum
  have hnumhigh : (num : ℚ) < 2 ^ ((Nat.log2 num : ℤ) + 1) := by
    exact_mod_cast Nat.lt_log2_self
  have hdenlow : (2 : ℚ) ^ (Nat.log2 den : ℤ) ≤ den := by
    exact_mod_cast Nat.log2_self_le hden.ne'
  have hdenhigh : (den : ℚ) < 2 ^ ((Nat.log2 den : ℤ) + 1) := by
    exact_mod_cast Nat.lt_log2_self
  generalize (Nat.log2 num : ℤ) = a at *
  generalize (Nat.log2 den : ℤ) = b at *
  have hlow : (2 : ℚ) ^ (a - b - 1) ≤ num / den := by
    rw [le_div_iff₀ hdenpos]
    calc (2 : ℚ) ^ (a - b - 1) * den ≤ 2 ^ (a - b - 1) * 2 ^ (b + 1) := by gcongr
      _ = 2 ^ a := by rw [← zpow_add₀ two_ne_zero]; congr 1; ring
      _ ≤ num := hnumlow
  have hhigh : (num / den : ℚ) < 2 ^ (a - b + 1) := by
    rw [div_lt_iff₀ hdenpos]
    calc (num : ℚ) < 2 ^ (a + 1) := hnumhigh
      _ = 2 ^ (a - b + 1) * 2 ^ b := by rw [← zpow_add₀ two_ne_zero]; congr 1; ring
      _ ≤ 2 ^ (a - b + 1) * den := by gcongr
  split_ifs with hsmall
  · exact log_two_eq hlow (by simpa using hsmall)
  · exact log_two_eq (not_lt.mp hsmall) hhigh

/-! ### Rounding a rational number -/

/-- The double precision number nearest to a rational number that is not negative. -/
def ofRatio (negative : Bool) (q : ℚ) : Binary64 :=
  if q = 0 then .finite negative 0 0
  else if nearest (q / 2 ^ roundingExponent q) = 0 then .finite negative 0 0
  else if nearest (q / 2 ^ roundingExponent q) = 2 ^ 53 then
    if roundingExponent q + 1 > 971 then .infinite negative
    else .finite negative (2 ^ 52) (roundingExponent q + 1)
  else if roundingExponent q > 971 then .infinite negative
  else .finite negative (nearest (q / 2 ^ roundingExponent q)) (roundingExponent q)

/-- Rounding a fraction depends on its value alone. -/
theorem roundFraction_eq_ofRatio (negative : Bool) (num : ℕ) {den : ℕ} (hden : 0 < den) :
    roundFraction negative num den = ofRatio negative (num / den) := by
  have hdenpos : (0 : ℚ) < den := by exact_mod_cast hden
  by_cases hnum : num = 0
  · simp [roundFraction, ofRatio, hnum]
  have hvalue : (num / den : ℚ) ≠ 0 := div_ne_zero (by exact_mod_cast hnum) hdenpos.ne'
  have hsmall (e : ℤ) : (shiftDown num den (e - 52)).1 < 2 ^ 52 * (shiftDown num den (e - 52)).2 ↔
      (num / den : ℚ) < 2 ^ e := by
    have hpos : (0 : ℚ) < (shiftDown num den (e - 52)).2 := by
      exact_mod_cast shiftDown_pos hden (e - 52)
    have hunit : (2 : ℚ) ^ 52 * 2 ^ (e - 52) = 2 ^ e := by
      rw [← zpow_natCast, ← zpow_add₀ two_ne_zero]
      congr 1
      norm_num
    rw [← hunit, ← div_lt_iff₀ (by positivity), ← shiftDown_ratio, div_lt_iff₀ hpos]
    exact_mod_cast Iff.rfl
  have hexponent : max (-1074) (if (shiftDown num den
        ((Nat.log2 num : ℤ) - Nat.log2 den - 52)).1 <
          2 ^ 52 * (shiftDown num den ((Nat.log2 num : ℤ) - Nat.log2 den - 52)).2 then
        (Nat.log2 num : ℤ) - Nat.log2 den - 52 - 1
      else (Nat.log2 num : ℤ) - Nat.log2 den - 52) = roundingExponent (num / den) := by
    simp only [roundingExponent, log_ratio hnum hden, hsmall]
    split_ifs <;> omega
  have hrounded (e : ℤ) : roundQuotient (shiftDown num den e).1 (shiftDown num den e).2 =
      nearest (num / den / 2 ^ e) := by
    rw [roundQuotient_eq_nearest (shiftDown_pos hden e), shiftDown_ratio]
  simp only [roundFraction, ofRatio, hnum, hvalue, if_false, Nat.pow_eq, hexponent, hrounded]

/-! ### Results of rounding -/

/-- A double precision number as rounding gives it: the significand has 53 digits, or fewer at the
least exponent, and zero has the exponent zero. -/
def Canonical : Binary64 → Prop
  | .finite _ significand exponent =>
    significand = 0 ∧ exponent = 0 ∨
      0 < significand ∧ significand < 2 ^ 53 ∧ -1074 ≤ exponent ∧ exponent ≤ 971 ∧
        (2 ^ 52 ≤ significand ∨ exponent = -1074)
  | .infinite _ | .notANumber => True

theorem lt_zpow_roundingExponent (q : ℚ) : q / 2 ^ roundingExponent q < 2 ^ 53 := by
  have hlog : q < 2 ^ (Int.log 2 q + 1) := by
    exact_mod_cast Int.lt_zpow_succ_log_self (b := 2) (by decide) q
  rw [div_lt_iff₀ (by positivity), ← zpow_natCast, ← zpow_add₀ two_ne_zero]
  refine lt_of_lt_of_le hlog (zpow_le_zpow_right₀ (by norm_num) ?_)
  have := le_max_right (-1074) (Int.log 2 q - 52)
  unfold roundingExponent
  push_cast
  omega

theorem le_zpow_roundingExponent {q : ℚ} (hq : 0 < q) (h : roundingExponent q ≠ -1074) :
    2 ^ 52 ≤ q / 2 ^ roundingExponent q := by
  have hlog : (2 : ℚ) ^ Int.log 2 q ≤ q := by
    exact_mod_cast Int.zpow_log_le_self (b := 2) (by decide) hq
  rw [le_div_iff₀ (by positivity), ← zpow_natCast, ← zpow_add₀ two_ne_zero]
  refine le_trans (zpow_le_zpow_right₀ (by norm_num) ?_) hlog
  unfold roundingExponent at h ⊢
  push_cast
  omega

theorem canonical_ofRatio (negative : Bool) {q : ℚ} (hq : 0 ≤ q) :
    (ofRatio negative q).Canonical := by
  obtain rfl | hpos := hq.eq_or_lt
  · exact .inl ⟨rfl, rfl⟩
  have hle : nearest (q / 2 ^ roundingExponent q) ≤ 2 ^ 53 :=
    nearest_le (by positivity) (by exact_mod_cast (lt_zpow_roundingExponent q).le)
  have hge : 2 ^ 52 ≤ nearest (q / 2 ^ roundingExponent q) ∨ roundingExponent q = -1074 := by
    by_cases h : roundingExponent q = -1074
    · exact .inr h
    · exact .inl (le_nearest (by exact_mod_cast le_zpow_roundingExponent hpos h))
  have hleast : -1074 ≤ roundingExponent q := le_max_left _ _
  unfold ofRatio
  split_ifs with hzero hnone hfull hfar hfar
  · exact .inl ⟨rfl, rfl⟩
  · exact .inl ⟨rfl, rfl⟩
  · trivial
  · exact .inr ⟨by norm_num, by norm_num, by omega, by omega, .inl le_rfl⟩
  · trivial
  · exact .inr ⟨by omega, by omega, hleast, by omega, hge⟩

theorem zpow_le_iff_le_div {q : ℚ} {e : ℤ} (n : ℕ) : 2 ^ n ≤ q / 2 ^ e ↔ 2 ^ (n + e) ≤ q := by
  rw [le_div_iff₀ (by positivity), ← zpow_natCast, ← zpow_add₀ two_ne_zero]

/-- The exponent of a number that is in the range of the significands of an exponent. -/
theorem roundingExponent_eq {q : ℚ} {e : ℤ} (hleast : -1074 ≤ e) (hlow : 2 ^ 52 ≤ q / 2 ^ e)
    (hhigh : q / 2 ^ e < 2 ^ 53) : roundingExponent q = e := by
  have hlog : Int.log 2 q = 52 + e := by
    refine log_two_eq ?_ ?_
    · exact (zpow_le_iff_le_div 52).mp hlow
    · rw [show (52 : ℤ) + e + 1 = (53 : ℕ) + e by push_cast; ring, ← not_le,
        ← zpow_le_iff_le_div, not_le]
      exact hhigh
  rw [roundingExponent, hlog]
  omega

theorem roundingExponent_of_small {q : ℚ} (hq : 0 < q) (h : q / 2 ^ (-1074 : ℤ) < 2 ^ 52) :
    roundingExponent q = -1074 := by
  by_contra hne
  have hlow := le_zpow_roundingExponent hq hne
  have hexponent : (-1074 : ℤ) < roundingExponent q :=
    lt_of_le_of_ne (le_max_left _ _) (Ne.symm hne)
  rw [← not_le, zpow_le_iff_le_div] at h
  rw [zpow_le_iff_le_div] at hlow
  exact h (le_trans (zpow_le_zpow_right₀ (by norm_num) (by omega)) hlow)

/-- A number nearer to a canonical one than a quarter of a unit in its last place is rounded to it.
Half a unit would do but for the numbers just below a power of two, where the units are half as
large. -/
theorem ofRatio_eq {negative : Bool} {significand : ℕ} {exponent : ℤ} {q : ℚ}
    (hcanonical : (finite negative significand exponent).Canonical) (hsignificand : 0 < significand)
    (h : |q / 2 ^ exponent - significand| < 1 / 4) :
    ofRatio negative q = .finite negative significand exponent := by
  obtain ⟨hzero, -⟩ | ⟨-, hlt, hleast, hmost, hfull⟩ := hcanonical
  · omega
  obtain ⟨hbelow, habove⟩ := abs_lt.mp h
  have hone : (1 : ℚ) ≤ significand := by exact_mod_cast hsignificand
  have hmostQ : (significand : ℚ) + 1 ≤ 2 ^ 53 := by exact_mod_cast hlt
  have hvalue : 0 < q / 2 ^ exponent := by linarith
  have hq : 0 < q := by
    have := mul_pos hvalue (zpow_pos (two_pos (α := ℚ)) exponent)
    rwa [div_mul_cancel₀ _ (by positivity)] at this
  by_cases hsame : roundingExponent q = exponent
  · have hnearest : nearest (q / 2 ^ exponent) = significand :=
      nearest_eq hvalue.le (by linarith)
    rw [ofRatio, hsame, hnearest, if_neg hq.ne', if_neg hsignificand.ne', if_neg hlt.ne,
      if_neg (by omega)]
  · -- only a number below a power of two is rounded at another exponent
    have hless : q / 2 ^ exponent < 2 ^ 52 := by
      by_contra hge
      exact hsame (roundingExponent_eq hleast (not_lt.mp hge) (by linarith))
    have hgreater : -1074 < exponent := by
      refine lt_of_le_of_ne hleast ?_
      rintro rfl
      exact hsame (roundingExponent_of_small hq hless)
    have hpower : significand = 2 ^ 52 := by
      have hge : 2 ^ 52 ≤ significand := hfull.resolve_right hgreater.ne'
      have : (significand : ℚ) < 2 ^ 52 + 1 := by linarith
      have : significand < 2 ^ 52 + 1 := by exact_mod_cast this
      omega
    subst hpower
    push_cast at hbelow habove
    have hdouble : q / 2 ^ (exponent - 1) = 2 * (q / 2 ^ exponent) := by
      rw [zpow_sub_one₀ two_ne_zero]
      field_simp
    have hexponent : roundingExponent q = exponent - 1 := by
      refine roundingExponent_eq (by omega) ?_ ?_ <;> rw [hdouble] <;> linarith
    have hnearest : nearest (q / 2 ^ (exponent - 1)) = 2 ^ 53 := by
      refine nearest_eq (by positivity) ?_
      rw [hdouble, abs_lt]
      constructor <;> push_cast <;> linarith
    simp [ofRatio, hexponent, hnearest, hq.ne', not_lt.mpr hmost]

end Localize.Binary64
