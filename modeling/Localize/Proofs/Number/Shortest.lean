import Localize.Number.Shortest
import Localize.Proofs.Number.Rounding
import Mathlib.Data.Nat.Cast.Order.Field

/-!
# Decimals read back

A decimal is read as the double precision number nearest to it, and the bounds on its size decide
nothing that rounding would not decide. The digits that `shortest` finds are read as the number they
were found for: a grid is taken only when its decimal reads back, and on the last grid, of eighteen
digits, the nearest decimal is nearer than a quarter of a unit in the last place.
-/

namespace Localize

/-! ### Sizes of numerals -/

namespace Text

theorem lt_pow_length_toDigits (n : ℕ) : n < 10 ^ (Nat.toDigits 10 n).length :=
  (Nat.length_toDigits_le_iff (by decide) Nat.length_toDigits_pos).mp le_rfl

theorem pow_length_toDigits_le {n : ℕ} (hn : n ≠ 0) :
    10 ^ ((Nat.toDigits 10 n).length - 1) ≤ n := by
  by_contra hlt
  have hlength : 0 < (Nat.toDigits 10 n).length - 1 := by
    by_contra hzero
    rw [Nat.eq_zero_of_not_pos hzero, pow_zero] at hlt
    omega
  have := (Nat.length_toDigits_le_iff (by decide) hlength).mpr (not_le.mp hlt)
  omega

end Text

/-! ### Very small and very large numbers -/

namespace Binary64

/-- The powers of ten behind which a decimal is not rounded lie behind the least and the greatest
number. -/
theorem two_pow_lt_ten_pow : 2 ^ 1076 < 10 ^ 330 := by decide +kernel

theorem ofRatio_of_small (negative : Bool) {q : ℚ} (hq : 0 ≤ q) (h : q < 10 ^ (-330 : ℤ)) :
    ofRatio negative q = .finite negative 0 0 := by
  obtain rfl | hpos := hq.eq_or_lt
  · rfl
  have hquarter : q / 2 ^ (-1074 : ℤ) < 1 / 4 := by
    have hpow : (2 : ℚ) ^ 1076 < 10 ^ 330 := by exact_mod_cast two_pow_lt_ten_pow
    have hquarter : (2 : ℚ) ^ (-2 : ℤ) = 1 / 4 := by norm_num
    rw [div_lt_iff₀ (by positivity)]
    calc q < (10 ^ 330)⁻¹ := h
      _ < (2 ^ 1076)⁻¹ := by gcongr
      _ = 2 ^ (-2 + -1074 : ℤ) := rfl
      _ = 1 / 4 * 2 ^ (-1074 : ℤ) := by rw [zpow_add₀ two_ne_zero, hquarter]
  have hexponent : roundingExponent q = -1074 :=
    roundingExponent_of_small hpos (lt_trans hquarter (by norm_num))
  have hvalue : 0 < q / 2 ^ (-1074 : ℤ) := by positivity
  have hnearest : nearest (q / 2 ^ (-1074 : ℤ)) = 0 := by
    refine nearest_eq hvalue.le ?_
    rw [Nat.cast_zero, sub_zero, abs_of_pos hvalue]
    exact lt_trans hquarter (by norm_num)
  rw [ofRatio, hexponent, hnearest, if_neg hpos.ne', if_pos rfl]

theorem ofRatio_of_large (negative : Bool) {q : ℚ} (h : 10 ^ (330 : ℤ) ≤ q) :
    ofRatio negative q = .infinite negative := by
  have hpos : 0 < q := lt_of_lt_of_le (by positivity) h
  have hlog : 1025 ≤ Int.log 2 q := by
    have hpow : (2 : ℚ) ^ 1025 ≤ 10 ^ 330 :=
      le_trans (pow_le_pow_right₀ (by norm_num) (show 1025 ≤ 1076 by norm_num))
        (by exact_mod_cast two_pow_lt_ten_pow.le)
    exact (Int.zpow_le_iff_le_log (b := 2) (by decide) hpos).mp (le_trans hpow h)
  have hexponent : 972 < roundingExponent q := by
    unfold roundingExponent
    omega
  have hnearest : 2 ^ 52 ≤ nearest (q / 2 ^ roundingExponent q) :=
    le_nearest (by exact_mod_cast le_zpow_roundingExponent hpos (by omega))
  have habove : roundingExponent q > 971 := by omega
  have hcarried : roundingExponent q + 1 > 971 := by omega
  rw [ofRatio, if_neg hpos.ne', if_neg (by omega), if_pos hcarried, if_pos habove, ite_self]

theorem ofRatio_of_unsigned {negative : Bool} {q : ℚ} {significand : ℕ} {exponent : ℤ}
    (h : ofRatio false q = .finite false significand exponent) :
    ofRatio negative q = .finite negative significand exponent := by
  unfold ofRatio at h ⊢
  split_ifs at h ⊢ <;> cases h <;> rfl

end Binary64

/-! ### Reading decimals -/

namespace Decimal

/-- The rational number that a decimal stands for. -/
def value (d : Decimal) : ℚ := d.digits * 10 ^ d.exponent

theorem fraction_pos (d : Decimal) : 0 < d.fraction.2 := by
  unfold fraction
  split
  · exact Nat.one_pos
  · exact Nat.pow_pos (by decide)

theorem fraction_ratio (d : Decimal) : (d.fraction.1 / d.fraction.2 : ℚ) = d.value := by
  obtain ⟨digits, e⟩ := d
  cases e with
  | ofNat e => simp [fraction, value]
  | negSucc e => simp [fraction, value, zpow_negSucc, div_eq_mul_inv]

theorem value_nonneg (d : Decimal) : 0 ≤ d.value := by
  unfold value
  positivity

/-- The place of the point tells the size of a decimal. -/
theorem value_lt (d : Decimal) :
    d.value < 10 ^ ((Nat.toDigits 10 d.digits).length + d.exponent) := by
  have hdigits : (d.digits : ℚ) < 10 ^ (Nat.toDigits 10 d.digits).length := by
    exact_mod_cast Text.lt_pow_length_toDigits d.digits
  rw [zpow_add₀ (by norm_num), zpow_natCast]
  exact mul_lt_mul_of_pos_right hdigits (by positivity)

theorem le_value {d : Decimal} (h : d.digits ≠ 0) :
    10 ^ ((Nat.toDigits 10 d.digits).length + d.exponent - 1) ≤ d.value := by
  have hdigits : (10 : ℚ) ^ ((Nat.toDigits 10 d.digits).length - 1) ≤ d.digits := by
    exact_mod_cast Text.pow_length_toDigits_le h
  have hlength : 0 < (Nat.toDigits 10 d.digits).length := Nat.length_toDigits_pos
  rw [show ((Nat.toDigits 10 d.digits).length + d.exponent - 1 : ℤ) =
      ((Nat.toDigits 10 d.digits).length - 1 : ℕ) + d.exponent by omega,
    zpow_add₀ (by norm_num), zpow_natCast]
  exact mul_le_mul_of_nonneg_right hdigits (by positivity)

/-- A decimal is read by rounding the number it stands for. -/
theorem toBinary64_eq_ofRatio (negative : Bool) (d : Decimal) :
    d.toBinary64 negative = .ofRatio negative d.value := by
  by_cases hdigits : d.digits = 0
  · simp [toBinary64, hdigits, value, Binary64.ofRatio]
  unfold toBinary64
  simp only [hdigits, decide_false, Bool.false_or, decide_eq_true_eq]
  split_ifs with hsmall hlarge
  · refine (Binary64.ofRatio_of_small negative d.value_nonneg (d.value_lt.trans_le ?_)).symm
    exact zpow_le_zpow_right₀ (by norm_num) (by omega)
  · refine (Binary64.ofRatio_of_large negative (le_trans ?_ (le_value hdigits))).symm
    exact zpow_le_zpow_right₀ (by norm_num) (by omega)
  · rw [Binary64.roundFraction_eq_ofRatio negative _ d.fraction_pos, fraction_ratio]

theorem canonical_toBinary64 (negative : Bool) (d : Decimal) :
    (d.toBinary64 negative).Canonical := by
  rw [toBinary64_eq_ofRatio]
  exact Binary64.canonical_ofRatio negative d.value_nonneg

theorem toBinary64_congr {d d' : Decimal} (h : d.value = d'.value) (negative : Bool) :
    d.toBinary64 negative = d'.toBinary64 negative := by
  rw [toBinary64_eq_ofRatio, toBinary64_eq_ofRatio, h]

end Decimal

/-! ### The search for digits -/

namespace Binary64

theorem magnitude_pos (significand : ℕ) (exponent : ℤ) :
    0 < (magnitude significand exponent).2 := by
  cases exponent with
  | ofNat e => exact Nat.one_pos
  | negSucc e => exact Nat.pow_pos (by decide)

theorem magnitude_ratio (significand : ℕ) (exponent : ℤ) :
    ((magnitude significand exponent).1 / (magnitude significand exponent).2 : ℚ) =
      significand * 2 ^ exponent := by
  cases exponent with
  | ofNat e => simp [magnitude]
  | negSucc e => simp [magnitude, zpow_negSucc, div_eq_mul_inv]

theorem shiftTen_pos {num den : ℕ} (hden : 0 < den) (e : ℤ) :
    0 < (searchGrid.shiftTen num den e).2 := by
  cases e with
  | ofNat e => exact Nat.mul_pos hden (Nat.pow_pos (by decide))
  | negSucc e => exact hden

theorem shiftTen_ratio (num den : ℕ) (e : ℤ) :
    ((searchGrid.shiftTen num den e).1 / (searchGrid.shiftTen num den e).2 : ℚ) =
      num / den / 10 ^ e := by
  cases e with
  | ofNat e =>
    simp only [searchGrid.shiftTen, Int.ofNat_eq_natCast, zpow_natCast, Nat.pow_eq]
    push_cast
    rw [div_div]
  | negSucc e =>
    simp only [searchGrid.shiftTen, zpow_negSucc, Nat.pow_eq]
    push_cast
    rw [div_inv_eq_mul, div_mul_eq_mul_div]

theorem le_leadingZeros {num den fuel : ℕ} (h : den ≤ num * 10 ^ fuel) :
    den ≤ num * 10 ^ (leadingZeros num den fuel + 1) := by
  induction fuel generalizing num with
  | zero =>
    rw [pow_zero, mul_one] at h
    simp only [leadingZeros]
    omega
  | succ fuel ih =>
    unfold leadingZeros
    split_ifs with hone
    · simpa using hone
    · have hmore : den ≤ num * 10 * 10 ^ fuel := by rwa [mul_assoc, ← pow_succ']
      have hrest := ih hmore
      rwa [mul_assoc, ← pow_succ'] at hrest

/-- The power of ten before the place of the point is not above the number. -/
theorem pointPlace_le {num den : ℕ} (hden : 0 < den) (h : den ≤ num * 10 ^ 400) :
    (10 : ℚ) ^ (pointPlace num den - 1) ≤ num / den := by
  have hdenpos : (0 : ℚ) < den := by exact_mod_cast hden
  unfold pointPlace
  split_ifs with hle
  · have hwhole : num / den ≠ 0 := (Nat.div_pos hle hden).ne'
    have hlength : 0 < (Nat.toDigits 10 (num / den)).length := Nat.length_toDigits_pos
    calc (10 : ℚ) ^ (((Nat.toDigits 10 (num / den)).length : ℤ) - 1)
        = 10 ^ ((Nat.toDigits 10 (num / den)).length - 1) := by
          rw [← zpow_natCast]
          congr 1
          omega
      _ ≤ (num / den : ℕ) := by exact_mod_cast Text.pow_length_toDigits_le hwhole
      _ ≤ num / den := Nat.cast_div_le
  · have hzeros : (den : ℚ) ≤ num * 10 ^ (leadingZeros num den 400 + 1) := by
      exact_mod_cast le_leadingZeros h
    have hplace : -(leadingZeros num den 400 : ℤ) - 1 =
        -((leadingZeros num den 400 + 1 : ℕ) : ℤ) := by
      push_cast
      ring
    rw [hplace, zpow_neg, zpow_natCast, inv_eq_one_div,
      div_le_div_iff₀ (by positivity) hdenpos]
    linarith

/-- The search ends with a decimal that reads back if its last grid has one. -/
theorem searchGrid_reads {x : Binary64} {num den : ℕ} {place : ℤ} {tries count : ℕ}
    (hlast : (searchGrid x num den place 0 (count + tries)).toBinary64 false = x) :
    (searchGrid x num den place tries count).toBinary64 false = x := by
  induction tries generalizing count with
  | zero => exact hlast
  | succ tries ih =>
    have hnext : count + 1 + tries = count + (tries + 1) := by omega
    have hrest := ih (hnext ▸ hlast)
    unfold searchGrid
    dsimp only
    split_ifs with hboth hcloser hlow hhigh
    · exact of_decide_eq_true (Bool.and_eq_true_iff.mp hboth).1
    · exact of_decide_eq_true (Bool.and_eq_true_iff.mp hboth).2
    · exact hlow
    · exact hhigh
    · exact hrest

/-- The nearest decimal of a grid is at most half a step away. -/
theorem lastGrid_near {x : Binary64} (num : ℕ) {den : ℕ} (hden : 0 < den) (place : ℤ)
    (count : ℕ) :
    |(searchGrid x num den place 0 count).value - num / den| ≤ 10 ^ (place - count) / 2 := by
  have hnear := abs_sub_nearest_le (x := num / den / 10 ^ (place - count)) (by positivity)
  have hunit : (0 : ℚ) < 10 ^ (place - count) := by positivity
  have hvalue : (searchGrid x num den place 0 count).value =
      nearest (num / den / 10 ^ (place - count)) * 10 ^ (place - count) := by
    simp only [searchGrid, Decimal.value, roundQuotient_eq_nearest (shiftTen_pos hden _),
      shiftTen_ratio]
  rw [hvalue, abs_sub_comm]
  calc |(num / den : ℚ) - nearest (num / den / 10 ^ (place - count)) * 10 ^ (place - count)|
      = |(num / den / 10 ^ (place - count) : ℚ) - nearest (num / den / 10 ^ (place - count))| *
          10 ^ (place - count) := by
        rw [← abs_of_pos hunit, ← abs_mul, abs_of_pos hunit, sub_mul, div_mul_cancel₀ _ hunit.ne']
    _ ≤ 1 / 2 * 10 ^ (place - count) := by gcongr
    _ = 10 ^ (place - count) / 2 := by ring

/-- A number of the format is not so small that the search for its first digit stops early. -/
theorem magnitude_le {significand : ℕ} {exponent : ℤ} (hsignificand : 0 < significand)
    (hleast : -1074 ≤ exponent) :
    (magnitude significand exponent).2 ≤ (magnitude significand exponent).1 * 10 ^ 400 := by
  have hpow : 2 ^ 1076 ≤ 10 ^ 400 :=
    two_pow_lt_ten_pow.le.trans (pow_le_pow_right₀ (by norm_num) (show 330 ≤ 400 by norm_num))
  cases exponent with
  | ofNat e =>
    have hnum : 0 < significand * 2 ^ e := Nat.mul_pos hsignificand (Nat.pow_pos (by decide))
    exact Nat.mul_pos hnum (pow_pos (by decide) 400)
  | negSucc e =>
    calc 2 ^ (e + 1) ≤ 2 ^ 1076 := pow_le_pow_right₀ (by norm_num) (by omega)
      _ ≤ 10 ^ 400 := hpow
      _ ≤ significand * 10 ^ 400 := Nat.le_mul_of_pos_left _ hsignificand

/-- On the grid of eighteen digits the nearest decimal reads back as the number. -/
theorem lastGrid_reads {x : Binary64} {negative : Bool} {significand num den : ℕ}
    {exponent place : ℤ} (hcanonical : (finite negative significand exponent).Canonical)
    (hsignificand : 0 < significand) (hden : 0 < den)
    (hratio : (num / den : ℚ) = significand * 2 ^ exponent)
    (hplace : (10 : ℚ) ^ (place - 1) ≤ num / den) :
    (searchGrid x num den place 0 18).toBinary64 negative =
      .finite negative significand exponent := by
  have hunit : (0 : ℚ) < 2 ^ exponent := by positivity
  have hdigits : (significand : ℚ) ≤ 2 ^ 53 := by
    obtain ⟨hzero, -⟩ | ⟨-, hlt, -⟩ := hcanonical
    · omega
    · exact_mod_cast hlt.le
  have hstep : (10 : ℚ) ^ (place - 18) ≤ significand * 2 ^ exponent * 10 ^ (-17 : ℤ) := by
    rw [show place - 18 = place - 1 + -17 by ring, zpow_add₀ (by norm_num), ← hratio]
    gcongr
  have hnear := lastGrid_near (x := x) num hden place 18
  rw [Decimal.toBinary64_eq_ofRatio]
  refine ofRatio_eq hcanonical hsignificand ?_
  generalize (searchGrid x num den place 0 18).value = value at hnear ⊢
  rw [hratio] at hnear
  calc |value / 2 ^ exponent - significand|
      = |value - significand * 2 ^ exponent| / 2 ^ exponent := by
        rw [← abs_of_pos hunit, ← abs_div, abs_of_pos hunit, sub_div,
          mul_div_cancel_right₀ _ hunit.ne']
    _ ≤ significand * 2 ^ exponent * 10 ^ (-17 : ℤ) / 2 / 2 ^ exponent := by
        gcongr
        exact hnear.trans (by gcongr; exact_mod_cast hstep)
    _ = significand * (10 ^ (-17 : ℤ) / 2) := by
        field_simp
    _ ≤ 2 ^ 53 * (10 ^ (-17 : ℤ) / 2) := by gcongr
    _ < 1 / 4 := by norm_num

/-- The shortest decimal of a number reads back as the number. -/
theorem toBinary64_shortest {negative : Bool} {significand : ℕ} {exponent : ℤ}
    (hcanonical : (finite negative significand exponent).Canonical)
    (hsignificand : 0 < significand) :
    (shortest significand exponent).toBinary64 negative =
      .finite negative significand exponent := by
  have hleast : -1074 ≤ exponent := by
    obtain ⟨hzero, -⟩ | ⟨-, -, hleast, -⟩ := hcanonical
    · omega
    · exact hleast
  have hden := magnitude_pos significand exponent
  have hreads : (shortest significand exponent).toBinary64 false =
      .finite false significand exponent :=
    searchGrid_reads (lastGrid_reads hcanonical hsignificand hden
      (magnitude_ratio significand exponent)
      (pointPlace_le hden (magnitude_le hsignificand hleast)))
  rw [Decimal.toBinary64_eq_ofRatio] at hreads ⊢
  exact ofRatio_of_unsigned hreads

end Binary64

end Localize
