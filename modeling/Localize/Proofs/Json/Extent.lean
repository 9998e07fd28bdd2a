import Localize.Number.Reading
import Localize.Proofs.Json.Roundtrip

/-!
# How far a value reaches

What has been read from the beginning of a text is read again when the text goes on, with the same
rest and what was added behind it: strings, lists and objects are closed where they end, and a
number has ended where something stands that does not continue it. The readers are turned into
equivalences here, one for each, which say what stands in the text that is read.
-/

namespace Localize.Json

/-! ### Numbers -/

/-- A text that goes on, but not as a number does. -/
def Stops (rest : Text) : Prop :=
  ∃ c more, rest = c :: more ∧ c.isDigit = false ∧ c ≠ '.' ∧ c ≠ 'e' ∧ c ≠ 'E'

theorem Stops.readFraction? {rest : Text} (h : Stops rest) : readFraction? rest = none := by
  obtain ⟨c, more, rfl, -, hpoint, -, -⟩ := h
  unfold Json.readFraction?
  split
  · next heq => exact absurd (List.cons.inj heq).1 hpoint
  · rfl

theorem Stops.readExponent? {rest : Text} (h : Stops rest) : readExponent? rest = none := by
  obtain ⟨c, more, rfl, -, -, hsmall, hcapital⟩ := h
  simp [Json.readExponent?, hsmall, hcapital]

theorem Stops.append {rest : Text} (h : Stops rest) (u : Text) : Stops (rest ++ u) := by
  obtain ⟨c, more, rfl, hc⟩ := h
  exact ⟨c, more ++ u, rfl, hc⟩

theorem Stops.ne_nil {rest : Text} (h : Stops rest) : rest ≠ [] := by
  obtain ⟨c, more, rfl, -⟩ := h
  exact List.cons_ne_nil c more

theorem consRead_eq_ok_iff {n : ℕ} {read : Reading (List ℕ)} {units : List ℕ} {rest : Text} :
    consRead n read = .ok (units, rest) ↔
      ∃ others, read = .ok (others, rest) ∧ units = n :: others := by
  cases read with
  | error e => simp [consRead]
  | ok r => simp [consRead, Prod.ext_iff, eq_comm, and_comm]

theorem readUnits_append {s rest : Text} {units : List ℕ} (h : readUnits s = .ok (units, rest))
    (u : Text) : readUnits (s ++ u) = .ok (units, rest ++ u) := by
  fun_induction readUnits s generalizing units rest with
  | case1 => cases h
  | case2 rest' =>
    cases h
    rw [List.cons_append, readUnits.eq_def]
    rfl
  | case3 => cases h
  | case4 a b c d after n hn _ ih =>
    obtain ⟨others, hread, rfl⟩ := consRead_eq_ok_iff.mp h
    simp only [List.cons_append, readUnits_hex hn, ih hread]
    rfl
  | case5 => cases h
  | case6 => cases h
  | case7 e digits hu d hd _ ih =>
    obtain ⟨others, hread, rfl⟩ := consRead_eq_ok_iff.mp h
    simp only [List.cons_append, readUnits_escape hd hu, ih hread]
    rfl
  | case8 => cases h
  | case9 => cases h
  | case10 c rest' hquote hescape hcontrol ih =>
    obtain ⟨others, hread, rfl⟩ := consRead_eq_ok_iff.mp h
    rw [List.cons_append, readUnits_plain hquote hescape hcontrol, ih hread]
    rfl

section

variable {fuel : ℕ} {inside rest : Text} {value : Json}

end

end Localize.Json
