import Localize.Json.Printer
import Localize.Json.Reader
import Localize.Proofs.Number.Shortest
import Localize.Proofs.Text.Basic
import Mathlib.Data.List.TakeWhile

/-!
# Numbers read back

The text of a number is read as that number when a comma, a line break or nothing follows. A whole
number is read digit by digit; a double precision number is read from the layout of its shortest
digits, which may give another pair of digits and exponent but stands for the same decimal.
-/

namespace Localize.Json

/-! ### Digits -/

theorem digitsValue_eq (t : Text) : digitsValue t = Nat.ofDigitChars 10 t 0 := by
  rw [Nat.ofDigitChars_eq_foldl, digitsValue]
  congr 1
  funext n c
  rw [Nat.mul_comm]
  rfl

theorem digitsValue_ofNat (n : ℕ) : digitsValue (Text.ofNat n) = n := by
  rw [digitsValue_eq]
  exact Nat.ofDigitChars_ten_toDigits

theorem digitsValue_append (t u : Text) :
    digitsValue (t ++ u) = digitsValue t * 10 ^ u.length + digitsValue u := by
  simp only [digitsValue_eq]
  rw [Nat.ofDigitChars_append, Nat.ofDigitChars_eq_ofDigitChars_zero, Nat.mul_comm]

theorem digitsValue_zeros (n : ℕ) : digitsValue (List.replicate n '0') = 0 := by
  rw [digitsValue_eq, Nat.ofDigitChars_replicate_zero, Nat.mul_zero]

/-! ### What follows a value -/

/-- What stands behind a value of a document: a comma, a line break or nothing. -/
def Ends (rest : Text) : Prop := ∀ c ∈ rest.head?, c = ',' ∨ c = '\n'

namespace Ends

variable {rest : Text}

theorem not_isDigit (h : Ends rest) : ∀ c ∈ rest.head?, c.isDigit = false := by
  intro c hc
  obtain rfl | rfl := h c hc <;> rfl

theorem readFraction? (h : Ends rest) : readFraction? rest = none := by
  cases rest with
  | nil => rfl
  | cons c rest =>
    obtain rfl | rfl := h c rfl <;> rfl

theorem readExponent? (h : Ends rest) : readExponent? rest = none := by
  cases rest with
  | nil => rfl
  | cons c rest =>
    obtain rfl | rfl := h c rfl <;> rfl

end Ends

/-! ### Parts of a number -/

/-- The digits before the point: no zero stands before others. -/
def Whole (t : Text) : Prop :=
  (∀ c ∈ t, c.isDigit = true) ∧ t ≠ [] ∧ (t.head? = some '0' → t = ['0'])

theorem whole_ofNat (n : ℕ) : Whole (Text.ofNat n) := by
  refine ⟨fun c => Text.isDigit_of_mem_ofNat, Nat.toDigits_ne_nil, fun hzero => ?_⟩
  by_cases hn : n = 0
  · rw [hn]
    rfl
  · exact absurd hzero (Text.head?_ofNat_ne_zero hn)

theorem readFraction?_places {places rest : Text} (hne : places ≠ [])
    (hplaces : ∀ c ∈ places, c.isDigit = true) (hrest : ∀ c ∈ rest.head?, c.isDigit = false) :
    readFraction? ('.' :: (places ++ rest)) = some (places, rest) := by
  obtain ⟨d, places, rfl⟩ := List.exists_cons_of_ne_nil hne
  have hd : d.isDigit = true := hplaces d List.mem_cons_self
  have hmore : ∀ c ∈ places, c.isDigit = true := fun c hc => hplaces c (List.mem_cons_of_mem d hc)
  simp only [List.cons_append, readFraction?, hd, if_true, takeWhile_append_of_head hmore hrest,
    dropWhile_append_of_head hmore hrest]

theorem readExponent?_power {power : ℤ} {size rest : Text} (hsize : ∀ c ∈ size, c.isDigit = true)
    (hne : size ≠ []) (hvalue : digitsValue size = power.natAbs)
    (hrest : ∀ c ∈ rest.head?, c.isDigit = false) :
    readExponent? ('e' :: (if power < 0 then '-' else '+') :: (size ++ rest)) =
      some (power, rest) := by
  split_ifs with hpower <;>
    simp [readExponent?, takeWhile_append_of_head hsize hrest,
      dropWhile_append_of_head hsize hrest, hne, hvalue, -Nat.cast_natAbs] <;> omega

/-- A number is cut behind its whole digits. -/
theorem readNumber?_append (negative : Bool) {whole behind : Text} (hwhole : Whole whole)
    (hbehind : ∀ c ∈ behind.head?, c.isDigit = false) :
    readNumber? negative (whole ++ behind) =
      match readFraction? behind, readExponent? ((readFraction? behind).elim behind (·.2)) with
      | none, none =>
        some (.int (if negative then -(digitsValue whole : ℤ) else digitsValue whole), behind)
      | fraction, exponent =>
        some (.float (Decimal.toBinary64 negative ⟨digitsValue (whole ++ fraction.elim [] (·.1)),
          exponent.elim 0 (·.1) - (fraction.elim [] (·.1)).length⟩),
          exponent.elim (fraction.elim behind (·.2)) (·.2)) := by
  obtain ⟨hdigits, hne, hzero⟩ := hwhole
  obtain ⟨d, tail, rfl⟩ := List.exists_cons_of_ne_nil hne
  by_cases hd : d = '0'
  · subst hd
    obtain rfl : tail = [] := by simpa using hzero rfl
    rfl
  · have hcut := takeWhile_append_of_head hdigits hbehind
    unfold readNumber?
    split
    · next heq => exact absurd (List.cons.inj heq).1 hd
    · rw [hcut]
      dsimp only
      rw [List.drop_left]
      exact if_neg Bool.false_ne_true

section

variable {negative : Bool} {power : ℤ} {whole places size rest : Text}

theorem readNumber?_whole (negative : Bool) (hwhole : Whole whole) (hrest : Ends rest) :
    readNumber? negative (whole ++ rest) =
      some (.int (if negative then -(digitsValue whole : ℤ) else digitsValue whole), rest) := by
  rw [readNumber?_append negative hwhole hrest.not_isDigit, hrest.readFraction?]
  simp only [Option.elim_none, hrest.readExponent?]

theorem readNumber?_places (negative : Bool) (hwhole : Whole whole)
    (hplaces : ∀ c ∈ places, c.isDigit = true)
    (hne : places ≠ []) (hrest : Ends rest) :
    readNumber? negative (whole ++ '.' :: (places ++ rest)) =
      some (.float (Decimal.toBinary64 negative ⟨digitsValue (whole ++ places), -places.length⟩),
        rest) := by
  rw [readNumber?_append negative hwhole (by simp [Char.isDigit]),
    readFraction?_places hne hplaces hrest.not_isDigit]
  simp only [Option.elim_some, hrest.readExponent?, Option.elim_none, zero_sub]

theorem readNumber?_power (negative : Bool) (hwhole : Whole whole)
    (hsize : ∀ c ∈ size, c.isDigit = true)
    (hne : size ≠ []) (hvalue : digitsValue size = power.natAbs) (hrest : Ends rest) :
    readNumber? negative (whole ++ 'e' :: (if power < 0 then '-' else '+') :: (size ++ rest)) =
      some (.float (Decimal.toBinary64 negative ⟨digitsValue whole, power⟩), rest) := by
  have hnone : readFraction? ('e' :: (if power < 0 then '-' else '+') :: (size ++ rest)) = none :=
    rfl
  rw [readNumber?_append negative hwhole (by simp [Char.isDigit])]
  simp only [hnone, Option.elim_none, Option.elim_some,
    readExponent?_power hsize hne hvalue hrest.not_isDigit, List.append_nil, List.length_nil,
    Nat.cast_zero, sub_zero]

theorem readNumber?_places_power (negative : Bool) (hwhole : Whole whole)
    (hplaces : ∀ c ∈ places, c.isDigit = true)
    (hplacesne : places ≠ []) (hsize : ∀ c ∈ size, c.isDigit = true) (hne : size ≠ [])
    (hvalue : digitsValue size = power.natAbs) (hrest : Ends rest) :
    readNumber? negative
        (whole ++ '.' :: (places ++ 'e' :: (if power < 0 then '-' else '+') :: (size ++ rest))) =
      some (.float (Decimal.toBinary64 negative ⟨digitsValue (whole ++ places),
        power - places.length⟩), rest) := by
  rw [readNumber?_append negative hwhole (by simp [Char.isDigit]),
    readFraction?_places hplacesne hplaces (by simp [Char.isDigit])]
  simp only [Option.elim_some, readExponent?_power hsize hne hvalue hrest.not_isDigit]

end

/-! ### Laid out digits -/

/-- The digits of an exponent, two at least. -/
theorem padded_size (n : ℕ) {size : Text}
    (h : size = if (Text.ofNat n).length < 2 then '0' :: Text.ofNat n else Text.ofNat n) :
    (∀ c ∈ size, c.isDigit = true) ∧ size ≠ [] ∧ digitsValue size = n := by
  have hdigits : ∀ c ∈ Text.ofNat n, c.isDigit = true := fun c => Text.isDigit_of_mem_ofNat
  split_ifs at h
  · subst h
    refine ⟨List.forall_mem_cons.mpr ⟨rfl, hdigits⟩, List.cons_ne_nil _ _, ?_⟩
    rw [← List.singleton_append, digitsValue_append, digitsValue_ofNat]
    simp [digitsValue]
  · subst h
    exact ⟨hdigits, Nat.toDigits_ne_nil, digitsValue_ofNat n⟩

section

variable {negative : Bool} {digits rest : Text} {place : ℤ}

/-- Digits with an exponent behind them. -/
theorem readNumber?_layOut_exponent (hdigits : Whole digits) (hzero : digits.head? ≠ some '0')
    (hplace : ¬(-4 < place ∧ place ≤ 16)) (hrest : Ends rest) :
    readNumber? negative (Binary64.layOut digits place ++ rest) =
      some (.float (Decimal.toBinary64 negative ⟨digitsValue digits, place - digits.length⟩),
        rest) := by
  obtain ⟨hall, hne, -⟩ := hdigits
  obtain ⟨d, more, rfl⟩ := List.exists_cons_of_ne_nil hne
  obtain ⟨hd, hmore⟩ := List.forall_mem_cons.mp hall
  have hwhole : Whole [d] := ⟨by simpa using hd, List.cons_ne_nil _ _, fun h => by simpa using h⟩
  obtain ⟨hsize, hsizene, hvalue⟩ := padded_size (place - 1).natAbs rfl
  unfold Binary64.layOut
  rw [if_neg (by simpa using hplace)]
  dsimp only
  generalize (if (Text.ofNat (place - 1).natAbs).length < 2 then
    '0' :: Text.ofNat (place - 1).natAbs else Text.ofNat (place - 1).natAbs) = size at *
  cases more with
  | nil =>
    have hread := readNumber?_power negative hwhole hsize hsizene hvalue hrest
    simpa using hread
  | cons e more =>
    have hread := readNumber?_places_power negative hwhole hmore
      (List.cons_ne_nil _ _) hsize hsizene hvalue hrest
    have hexponent : place - 1 - ((e :: more).length : ℤ) = place - (d :: e :: more).length := by
      simp only [List.length_cons]
      push_cast
      ring
    rw [hexponent] at hread
    simpa using hread

/-- Digits laid out around a point stand for the decimal of that point. -/
theorem readNumber?_layOut (hdigits : Whole digits) (hzero : digits.head? ≠ some '0')
    (hrest : Ends rest) :
    readNumber? negative (Binary64.layOut digits place ++ rest) =
      some (.float (Decimal.toBinary64 negative ⟨digitsValue digits, place - digits.length⟩),
        rest) := by
  by_cases hplain : -4 < place ∧ place ≤ 16
  · obtain ⟨hall, hne, -⟩ := id hdigits
    have hzeros (n : ℕ) : ∀ c ∈ List.replicate n '0', c.isDigit = true := by
      intro c hc
      rw [List.eq_of_mem_replicate hc]
      rfl
    unfold Binary64.layOut
    rw [if_pos (by simpa using hplain)]
    split_ifs with hsmall hfits
    · -- a fraction below one
      have hplaces : ∀ c ∈ List.replicate (-place).toNat '0' ++ digits, c.isDigit = true :=
        List.forall_mem_append.mpr ⟨hzeros _, hall⟩
      have hread := readNumber?_places negative (whole_ofNat 0) hplaces (by simp [hne]) hrest
      have hvalue : digitsValue (Text.ofNat 0 ++ (List.replicate (-place).toNat '0' ++ digits)) =
          digitsValue digits := by
        rw [digitsValue_append, digitsValue_append, digitsValue_ofNat, digitsValue_zeros]
        simp only [Nat.zero_mul, Nat.zero_add]
      have hexponent : -((List.replicate (-place).toNat '0' ++ digits).length : ℤ) =
          place - digits.length := by
        rw [List.length_append, List.length_replicate]
        omega
      rw [hvalue, hexponent] at hread
      simpa [Text.ofNat] using hread
    · -- a whole number
      have hwhole : Whole (digits ++ List.replicate (place.toNat - digits.length) '0') :=
        ⟨List.forall_mem_append.mpr ⟨hall, hzeros _⟩, by simp [hne], fun h =>
          absurd ((List.head?_append_of_ne_nil _ hne).symm.trans h) hzero⟩
      have hplaces : ∀ c ∈ ['0'], c.isDigit = true := hzeros 1
      have hread := readNumber?_places negative hwhole hplaces (by simp) hrest
      have hvalue : Decimal.value ⟨digitsValue
          (digits ++ List.replicate (place.toNat - digits.length) '0' ++ ['0']), -1⟩ =
          Decimal.value ⟨digitsValue digits, place - digits.length⟩ := by
        have hexponent : place - digits.length = (place.toNat - digits.length : ℕ) := by omega
        rw [digitsValue_append, digitsValue_append, digitsValue_zeros, Decimal.value, Decimal.value,
          hexponent, zpow_natCast, List.length_replicate]
        simp [digitsValue]
      rw [show (-(['0'].length : ℤ)) = -1 from rfl, Decimal.toBinary64_congr hvalue] at hread
      simpa using hread
    · -- digits on both sides of the point
      have hcut : digits.take place.toNat ++ digits.drop place.toNat = digits :=
        List.take_append_drop _ _
      have hwhole : Whole (digits.take place.toNat) := by
        refine ⟨fun c hc => hall c (List.mem_of_mem_take hc), ?_, fun h => absurd ?_ hzero⟩
        · rw [Ne, List.take_eq_nil_iff]
          exact fun h => h.elim (by omega) hne
        · rwa [List.head?_take, if_neg (by omega)] at h
      have hplaces : ∀ c ∈ digits.drop place.toNat, c.isDigit = true :=
        fun c hc => hall c (List.mem_of_mem_drop hc)
      have hread := readNumber?_places negative hwhole hplaces (by simpa using hfits) hrest
      have hexponent : -((digits.drop place.toNat).length : ℤ) = place - digits.length := by
        rw [List.length_drop]
        omega
      rw [hcut, hexponent] at hread
      simpa using hread
  · exact readNumber?_layOut_exponent hdigits hzero hplain hrest

end

/-! ### Texts of numbers -/

/-- Zeros at the end change the length of the digits and the place of the last one alike. -/
theorem exists_trimZeros (digits : Text) :
    ∃ n, digits = Binary64.trimZeros digits ++ List.replicate n '0' := by
  refine ⟨(digits.reverse.takeWhile (· = '0')).length, ?_⟩
  have hzeros : digits.reverse.takeWhile (· = '0') =
      List.replicate (digits.reverse.takeWhile (· = '0')).length '0' := by
    refine List.eq_replicate_of_mem fun c hc => ?_
    simpa using List.mem_takeWhile_imp hc
  have hcut := congrArg List.reverse
    (List.takeWhile_append_dropWhile (p := (· = '0')) (l := digits.reverse))
  rw [List.reverse_append, List.reverse_reverse, hzeros, List.reverse_replicate] at hcut
  exact hcut.symm

/-- The digits of a decimal without the zeros at their end. -/
theorem whole_trimZeros {n : ℕ} (hn : n ≠ 0) :
    Whole (Binary64.trimZeros (Text.ofNat n)) ∧
      (Binary64.trimZeros (Text.ofNat n)).head? ≠ some '0' := by
  obtain ⟨zeros, hcut⟩ := exists_trimZeros (Text.ofNat n)
  have hhead := Text.head?_ofNat_ne_zero hn
  have hall : ∀ c ∈ Text.ofNat n, c.isDigit = true := fun c => Text.isDigit_of_mem_ofNat
  generalize hdigits : Text.ofNat n = digits at *
  have hne : Binary64.trimZeros digits ≠ [] := by
    intro hnil
    rw [hnil, List.nil_append] at hcut
    cases zeros with
    | zero => exact Nat.toDigits_ne_nil (hdigits.trans hcut)
    | succ zeros => exact hhead (by rw [hcut]; rfl)
  have hsame : (Binary64.trimZeros digits).head? ≠ some '0' := by
    rw [hcut, List.head?_append_of_ne_nil _ hne] at hhead
    exact hhead
  refine ⟨⟨fun c hc => hall c ?_, hne, fun h => absurd h hsame⟩, hsame⟩
  rw [hcut]
  exact List.mem_append_left _ hc

theorem readNumber?_finite {negative : Bool} {significand : ℕ} {exponent : ℤ} {rest : Text}
    (hcanonical : (Binary64.finite negative significand exponent).Canonical) (hrest : Ends rest) :
    readNumber? negative (Binary64.finiteText false significand exponent ++ rest) =
      some (.float (.finite negative significand exponent), rest) := by
  obtain ⟨rfl, rfl⟩ | ⟨hpos, -⟩ := id hcanonical
  · have hplaces : ∀ c ∈ ['0'], c.isDigit = true := by simp
    exact readNumber?_places negative (whole_ofNat 0) hplaces (by simp) hrest
  · have hreads := Binary64.toBinary64_shortest hcanonical hpos
    simp only [Binary64.finiteText, if_neg hpos.ne', Bool.false_eq_true, if_false,
      List.nil_append]
    generalize Binary64.shortest significand exponent = d at hreads ⊢
    have hdigits : d.digits ≠ 0 := by
      intro hzero
      rw [Decimal.toBinary64, hzero] at hreads
      simp at hreads
      omega
    obtain ⟨hwhole, hhead⟩ := whole_trimZeros hdigits
    obtain ⟨zeros, hcut⟩ := exists_trimZeros (Text.ofNat d.digits)
    rw [readNumber?_layOut hwhole hhead hrest, ← hreads]
    have hvalue : Decimal.value ⟨digitsValue (Binary64.trimZeros (Text.ofNat d.digits)),
        (Text.ofNat d.digits).length + d.exponent -
          (Binary64.trimZeros (Text.ofNat d.digits)).length⟩ = d.value := by
      have hlength : ((Text.ofNat d.digits).length : ℤ) =
          (Binary64.trimZeros (Text.ofNat d.digits)).length + zeros := by
        conv_lhs => rw [hcut, List.length_append, List.length_replicate, Nat.cast_add]
      have hvalue : d.digits =
          digitsValue (Binary64.trimZeros (Text.ofNat d.digits)) * 10 ^ zeros := by
        conv_lhs => rw [← digitsValue_ofNat d.digits, hcut, digitsValue_append, digitsValue_zeros,
          List.length_replicate, Nat.add_zero]
      have hexponent : ((Text.ofNat d.digits).length : ℤ) + d.exponent -
          (Binary64.trimZeros (Text.ofNat d.digits)).length = zeros + d.exponent := by
        omega
      rw [hexponent, Decimal.value, Decimal.value, zpow_add₀ (by norm_num), zpow_natCast,
        ← mul_assoc]
      congr 1
      exact_mod_cast hvalue.symm
    rw [Decimal.toBinary64_congr hvalue]

/-! ### Numbers as values -/

theorem find?_namedValues {c : Char} (hc : c.isDigit = true) (t : Text) :
    (namedValues.find? fun (name, _) => name.isPrefixOf (c :: t)) = none ∧
      (namedValues.find? fun (name, _) => name.isPrefixOf ('-' :: c :: t)) = none := by
  have hne {d : Char} (hd : d.isDigit = false) : (d == c) = false := by
    rw [beq_eq_false_iff_ne]
    rintro rfl
    rw [hc] at hd
    cases hd
  have hnames : (('n' == c) = false ∧ ('t' == c) = false ∧ ('f' == c) = false) ∧
      ('N' == c) = false ∧ ('I' == c) = false ∧ ('-' == c) = false :=
    ⟨⟨hne rfl, hne rfl, hne rfl⟩, hne rfl, hne rfl, hne rfl⟩
  constructor <;> simp [namedValues, List.find?, List.isPrefixOf, hnames]

theorem exists_digit_of_readNumber? {negative : Bool} {t : Text} {read : Json × Text}
    (h : readNumber? negative t = some read) : ∃ c u, t = c :: u ∧ c.isDigit = true := by
  cases t with
  | nil => cases h
  | cons c u =>
    refine ⟨c, u, rfl, ?_⟩
    by_contra hc
    have hzero : c ≠ '0' := by
      rintro rfl
      exact hc rfl
    unfold readNumber? at h
    split at h
    · next heq => exact hzero (List.cons.inj heq).1
    · simp [hc] at h

/-- What is read as a number behind its sign is read as that value. -/
theorem readScalar_number {negative : Bool} {t rest : Text} {value : Json}
    (hread : readNumber? negative t = some (value, rest)) :
    readScalar ((if negative then ['-'] else []) ++ t) = .ok (value, rest) := by
  obtain ⟨c, t, rfl, hdigit⟩ := exists_digit_of_readNumber? hread
  obtain ⟨hnone, hnoneminus⟩ := find?_namedValues hdigit t
  cases negative with
  | true =>
    change readScalar ('-' :: c :: t) = _
    rw [readScalar, hnoneminus]
    simp only [hread]
  | false =>
    change readScalar (c :: t) = _
    rw [readScalar, hnone]
    · simp only [hread]
    · intro u heq
      rw [(List.cons.inj heq).1] at hdigit
      cases hdigit

/-- A whole number is read as it is written. -/
theorem readScalar_ofInt (i : ℤ) {rest : Text} (hrest : Ends rest) :
    readScalar (Text.ofInt i ++ rest) = .ok (.int i, rest) := by
  have hread (negative : Bool) (n : ℕ) :=
    readScalar_number (readNumber?_whole negative (whole_ofNat n) hrest)
  simp only [digitsValue_ofNat] at hread
  cases i with
  | ofNat n => exact hread false n
  | negSucc n => exact hread true (n + 1)

/-- A double precision number is read as it is written. -/
theorem readScalar_writeFloat {x : Binary64} (hx : x.Canonical) {rest : Text} (hrest : Ends rest) :
    readScalar (writeFloat x ++ rest) = .ok (.float x, rest) := by
  cases x with
  | infinite negative => cases negative <;> rfl
  | notANumber => rfl
  | finite negative significand exponent =>
    have hread := readScalar_number (readNumber?_finite hx hrest)
    cases negative with
    | false => exact hread
    | true => exact hread

end Localize.Json
