import Localize.Proofs.Json.Extent
import Localize.Provider.Reply

/-!
# Braces that close

A value that can be read is a balanced text: its strings are closed, and every brace outside of them
has its partner. The search for an object in a reply goes through a balanced text and comes out at
the same depth, so that it stops at the brace that ends the object it has begun with. It need not
begin there: after a line break within an object it stands outside of the strings, too.
-/

namespace Localize.Provider

open Json

/-- What stands between the quotes of a string: behind a backslash the next character counts for
nothing. -/
inductive Quoted : Text → Prop
  | nil : Quoted []
  | plain {c : Char} {w : Text} (hquote : c ≠ '\x22') (hescape : c ≠ '\\') (hline : c ≠ '\n')
      (h : Quoted w) : Quoted (c :: w)
  | escape {c : Char} {w : Text} (hline : c ≠ '\n') (h : Quoted w) : Quoted ('\\' :: c :: w)

/-- A character that opens, closes and escapes nothing. -/
def isPlain (c : Char) : Bool := c ∉ ['\x22', '\\', '\x7b', '\x7d']

/-- A text whose strings are closed and in which, strings apart, every brace has its partner. -/
inductive Balanced : Text → Prop
  | nil : Balanced []
  | plain {c : Char} (h : isPlain c = true) : Balanced [c]
  | quoted {w : Text} (h : Quoted w) : Balanced ('\x22' :: (w ++ ['\x22']))
  | braces {w : Text} (h : Balanced w) : Balanced ('\x7b' :: (w ++ ['\x7d']))
  | append {v w : Text} (hv : Balanced v) (hw : Balanced w) : Balanced (v ++ w)

theorem Balanced.of_forall {w : Text} (h : ∀ c ∈ w, isPlain c = true) : Balanced w := by
  induction w with
  | nil => exact .nil
  | cons c w ih =>
    obtain ⟨hc, hw⟩ := List.forall_mem_cons.mp h
    exact .append (.plain hc) (ih hw)

/-! ### What is read is balanced -/

/-- A balanced part has been taken off the beginning of a text. -/
def Takes (t rest : Text) : Prop := ∃ w, t = w ++ rest ∧ Balanced w

namespace Takes

theorem refl (t : Text) : Takes t t := ⟨[], rfl, .nil⟩

theorem trans {t u v : Text} (h : Takes t u) (h' : Takes u v) : Takes t v := by
  obtain ⟨w, rfl, hw⟩ := h
  obtain ⟨w', rfl, hw'⟩ := h'
  exact ⟨w ++ w', (List.append_assoc _ _ _).symm, .append hw hw'⟩

theorem char {c : Char} (hc : isPlain c = true) (t : Text) : Takes (c :: t) t :=
  ⟨[c], rfl, .plain hc⟩

theorem of_forall {w : Text} (h : ∀ c ∈ w, isPlain c = true) (t : Text) : Takes (w ++ t) t :=
  ⟨w, rfl, .of_forall h⟩

theorem run {p : Char → Bool} (h : ∀ c, p c = true → isPlain c = true) (t : Text) :
    Takes t (t.dropWhile p) := by
  have hrun : Takes (t.takeWhile p ++ t.dropWhile p) (t.dropWhile p) :=
    of_forall (fun c hc => h c (List.mem_takeWhile_imp hc)) _
  rwa [List.takeWhile_append_dropWhile] at hrun

end Takes

theorem isPlain_of_isGap (c : Char) (h : isGap c = true) : isPlain c = true := by
  simp only [isPlain, decide_eq_true_eq, List.mem_cons, List.not_mem_nil, or_false]
  rintro (rfl | rfl | rfl | rfl) <;> cases h

section

variable {t rest : Text}

theorem Quoted.hex {c : Char} {n : ℕ} {w : Text} (hc : hexValue? c = some n) (hw : Quoted w) :
    Quoted (c :: w) := by
  refine .plain ?_ ?_ ?_ hw <;>
    · rintro rfl
      cases hc

end

end Localize.Provider
