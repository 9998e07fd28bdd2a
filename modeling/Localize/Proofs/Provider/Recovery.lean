import Localize.Proofs.Provider.Braces
import Localize.Proofs.Text.Blank

/-!
# Objects among other words

An object is found again when other words stand before and behind it, in whatever way the search
comes upon a text that can be read: a text that can be read begins at the first brace of the reply,
and then it reads as far as the object does. The one way to cut the reply that begins elsewhere is
to leave out a first line in which the object has begun; what is left then has a closing brace too
many.
-/

namespace Localize.Provider

open Json

variable {t p s z : Text} {fields other : Fields}

/-! ### Texts that are objects -/

theorem Balanced.object {before w behind : Text} (hw : Balanced w)
    (hbefore : ∀ c ∈ before, isGap c = true) (hbehind : ∀ c ∈ behind, isGap c = true) :
    Balanced (before ++ '\x7b' :: (w ++ '\x7d' :: behind)) := by
  have hplain : Balanced before := .of_forall fun c hc => isPlain_of_isGap c (hbefore c hc)
  have hplain' : Balanced behind := .of_forall fun c hc => isPlain_of_isGap c (hbehind c hc)
  have hobject := hplain.append ((Balanced.braces hw).append hplain')
  rwa [List.cons_append, List.append_assoc] at hobject

/-- A part of a text that begins with the text or with a line, blanks aside, and behind which no
brace is closed. -/
def Excerpt (t part : Text) : Prop :=
  ∃ lines blanks back, t = lines ++ blanks ++ part ++ back ∧
    (lines = [] ∨ ∃ before, lines = before ++ ['\n']) ∧ (∀ c ∈ blanks, isPlain c = true) ∧
    '\x7d' ∉ back

theorem Excerpt.trans {part inner : Text} (h : Excerpt t part) (h' : Excerpt part inner) :
    Excerpt t inner := by
  obtain ⟨lines, blanks, back, rfl, hlines, hblanks, hback⟩ := h
  obtain ⟨lines', blanks', back', rfl, hlines', hblanks', hback'⟩ := h'
  have hbehind : '\x7d' ∉ back' ++ back := by
    rw [List.mem_append, not_or]
    exact ⟨hback', hback⟩
  rcases hlines' with rfl | ⟨before, rfl⟩
  · refine ⟨lines, blanks ++ blanks', back' ++ back, by simp, hlines, ?_, hbehind⟩
    exact List.forall_mem_append.mpr ⟨hblanks, hblanks'⟩
  · exact ⟨lines ++ blanks ++ before ++ ['\n'], blanks', back' ++ back, by simp,
      .inr ⟨lines ++ blanks ++ before, rfl⟩, hblanks', hbehind⟩

end Localize.Provider
