import Localize.Markup.Entity
import Localize.Proofs.Text.Blank
import Localize.Proofs.Text.Search

/-!
# Blanks from entities

A text is trimmed if it neither begins nor ends with a blank. No entity holds a blank, and only the
entity of the blank stands for one. So decoding a trimmed text gives a trimmed text again unless the
text begins or ends with that entity; then the blank that it stands for is at the end of the decoded
text.
-/

namespace Localize

namespace Markup

open Text (isBlank)

variable {entity t : Text} {c : Char}

/-- The entity of the blank. -/
def blankEntity : Text := "&nbsp;".toList

/-- What a name between an ampersand and its end looks like. -/
structure IsEntity (entity : Text) : Prop where
  begins : entity.head? = some '&'
  once : '&' ∉ entity.tail
  notBlank : ∀ c ∈ entity, isBlank c = false

instance : DecidablePred IsEntity := fun entity =>
  decidable_of_iff (entity.head? = some '&' ∧ '&' ∉ entity.tail ∧ ∀ c ∈ entity, isBlank c = false)
    ⟨fun h => ⟨h.1, h.2.1, h.2.2⟩, fun h => ⟨h.begins, h.once, h.notBlank⟩⟩

/-- A text begins or ends with a blank. -/
def BeginsBlank (t : Text) : Prop := ∃ c ∈ t.head?, isBlank c = true

def EndsBlank (t : Text) : Prop := ∃ c ∈ t.getLast?, isBlank c = true

theorem strip_eq_self_iff : Text.strip t = t ↔ ¬ BeginsBlank t ∧ ¬ EndsBlank t := by
  simp [Text.strip_eq_self_iff, BeginsBlank, EndsBlank]

theorem IsEntity.ne_nil (h : IsEntity entity) : entity ≠ [] := by
  rintro rfl
  cases h.begins

theorem IsEntity.replaceAll_eq (h : IsEntity entity) (new t : Text) :
    Text.replaceAll entity new t = Text.replaceFrom entity new 0 t := by
  simp [Text.replaceAll, h.ne_nil]

/-- Decoding puts a blank at the beginning where an entity of a blank stands there. -/
theorem IsEntity.beginsBlank_replaceAll (h : IsEntity entity) :
    BeginsBlank (Text.replaceAll entity [c] t) ↔
      (entity <+: t ∧ isBlank c = true) ∨ BeginsBlank t := by
  rw [h.replaceAll_eq]
  by_cases hstart : entity <+: t
  · obtain ⟨u, rfl⟩ := hstart
    have hnot : ¬ BeginsBlank (entity ++ u) := by
      rintro ⟨d, hd, hblank⟩
      rw [List.head?_append_of_ne_nil _ h.ne_nil] at hd
      rw [h.notBlank d (List.mem_of_head? hd)] at hblank
      cases hblank
    rw [Text.replaceFrom_append_self h.ne_nil, or_iff_left hnot]
    simp [BeginsBlank]
  · cases t with
    | nil => simp [Text.replaceFrom, BeginsBlank, hstart]
    | cons d t =>
      have hskip : Text.startsWith entity (d :: t) = false := by
        rw [Bool.eq_false_iff, ne_eq, Text.startsWith_iff]
        exact hstart
      simp [Text.replaceFrom, hskip, BeginsBlank, hstart]

/-- And at the end where it stands there: an entity begins with an ampersand and holds no other, so
none before it reaches into it. -/
theorem IsEntity.endsBlank_replaceAll (h : IsEntity entity) :
    EndsBlank (Text.replaceAll entity [c] t) ↔
      (entity <:+ t ∧ isBlank c = true) ∨ EndsBlank t := by
  rw [h.replaceAll_eq]
  by_cases hend : entity <:+ t
  · obtain ⟨u, rfl⟩ := hend
    obtain ⟨name, rfl⟩ : ∃ name, entity = '&' :: name := List.head?_eq_some_iff.mp h.begins
    have hnot : ¬ EndsBlank (u ++ '&' :: name) := by
      rintro ⟨d, hd, hblank⟩
      rw [List.getLast?_append_of_ne_nil _ (List.cons_ne_nil _ _)] at hd
      rw [h.notBlank d (List.mem_of_getLast? hd)] at hblank
      cases hblank
    have hself := Text.replaceFrom_append_self (List.cons_ne_nil '&' name) [c] []
    rw [List.append_nil] at hself
    rw [Text.replaceFrom_append_cons (Nat.zero_le _) h.once, hself, or_iff_left hnot]
    simp [EndsBlank, Text.replaceFrom]
  · cases t with
    | nil => simp [Text.replaceFrom, EndsBlank, hend]
    | cons d t =>
      rw [EndsBlank, Text.getLast?_replaceFrom (Nat.zero_lt_succ _) hend]
      simp [EndsBlank, hend]

/-! ### Decoded texts -/

theorem isEntity_blankEntity : IsEntity blankEntity := by decide

/-- The other entities stand for one character that is not blank. -/
theorem entities_tail : ∀ e ∈ entities.tail,
    IsEntity e.1 ∧ e.2.length = 1 ∧ ∀ c ∈ e.2, isBlank c = false := by decide

theorem decodeEntities_eq (t : Text) : decodeEntities t =
    entities.tail.foldl (fun t (entity, character) => Text.replaceAll entity character t)
      (Text.replaceAll blankEntity [' '] t) := rfl

/-- What is kept by decoding each entity is kept by decoding them all. -/
theorem foldl_replaceAll_iff {P : Text → Prop} {pairs : List (Text × Text)}
    (h : ∀ e ∈ pairs, ∀ t, P (Text.replaceAll e.1 e.2 t) ↔ P t) (t : Text) :
    P (pairs.foldl (fun t (entity, character) => Text.replaceAll entity character t) t) ↔ P t := by
  induction pairs generalizing t with
  | nil => rfl
  | cons e pairs ih =>
    obtain ⟨he, hpairs⟩ := List.forall_mem_cons.mp h
    rw [List.foldl_cons, ih hpairs]
    exact he t

/-- What an entity of a blank brings about where it stands at an end, and no other decoding changes, is
brought about by the entity of the blank. -/
theorem decodeEntities_iff {P : Text → Prop} {AtEnd : Text → Text → Prop}
    (h : ∀ {entity : Text} {c : Char} {t : Text}, IsEntity entity →
      (P (Text.replaceAll entity [c] t) ↔ (AtEnd entity t ∧ isBlank c = true) ∨ P t)) :
    P (decodeEntities t) ↔ AtEnd blankEntity t ∨ P t := by
  have hrest : ∀ e ∈ entities.tail, ∀ t, P (Text.replaceAll e.1 e.2 t) ↔ P t := by
    intro e he t
    obtain ⟨hentity, hlength, hblank⟩ := entities_tail e he
    obtain ⟨c, hc⟩ := List.length_eq_one_iff.mp hlength
    rw [hc, List.forall_mem_singleton] at hblank
    rw [hc, h hentity]
    simp [hblank]
  have hspace : isBlank ' ' = true := by decide
  rw [decodeEntities_eq, foldl_replaceAll_iff hrest, h isEntity_blankEntity]
  simp [hspace]

theorem beginsBlank_decodeEntities :
    BeginsBlank (decodeEntities t) ↔ blankEntity <+: t ∨ BeginsBlank t :=
  decodeEntities_iff IsEntity.beginsBlank_replaceAll

theorem endsBlank_decodeEntities :
    EndsBlank (decodeEntities t) ↔ blankEntity <:+ t ∨ EndsBlank t :=
  decodeEntities_iff IsEntity.endsBlank_replaceAll

/-- Decoding leaves what shares no character with an entity. -/
theorem infix_decodeEntities {kept : Text} (hkept : ∀ e ∈ entities, ∀ c ∈ kept, c ∉ e.1)
    (h : kept <:+: t) : kept <:+: decodeEntities t := by
  have hne : ∀ e ∈ entities, e.1 ≠ [] := by decide
  rw [decodeEntities]
  generalize entities = pairs at hkept hne
  induction pairs generalizing t with
  | nil => exact h
  | cons e pairs ih =>
    rw [List.forall_mem_cons] at hkept hne
    exact ih (Text.infix_replaceAll hne.1 hkept.1 h e.2) hkept.2 hne.2

/-- A text is to be translated if there is more in it than blanks, brackets and commas. -/
theorem isTranslatable_of_mem (hc : c ∈ t) (hblank : isBlank c = false)
    (hbracket : isBracketOrComma c = false) : isTranslatable t = true := by
  have hmem : c ∈ t.dropWhile isBracketOrComma := by
    rw [← List.takeWhile_append_dropWhile (p := isBracketOrComma) (l := t), List.mem_append] at hc
    refine hc.resolve_left fun htake => ?_
    rw [List.mem_takeWhile_imp htake] at hbracket
    cases hbracket
  have hpunctuation : isPunctuation t = false := by
    unfold isPunctuation
    split
    · next heq =>
      rw [heq] at hmem
      cases hmem
    · next heq =>
      rw [heq, List.mem_singleton] at hmem
      subst hmem
      exact absurd hblank (by decide)
    · rfl
  have hnot : Text.allBlank t = false := Text.allBlank_eq_false.mpr ⟨c, hc, hblank⟩
  simp [isTranslatable, List.ne_nil_of_mem hc, hnot, hpunctuation]

/-- A trimmed text is trimmed when it is decoded, unless the entity of the blank stands at one of its
ends. -/
theorem strip_decodeEntities_iff (h : Text.strip t = t) :
    Text.strip (decodeEntities t) = decodeEntities t ↔
      ¬ blankEntity <+: t ∧ ¬ blankEntity <:+ t := by
  obtain ⟨hbegin, hend⟩ := strip_eq_self_iff.mp h
  rw [strip_eq_self_iff, beginsBlank_decodeEntities, endsBlank_decodeEntities, or_iff_left hbegin,
    or_iff_left hend]

end Markup

end Localize
