import Localize.Display.Basic
import Localize.Proofs.Outcome
import Localize.Proofs.Table
import Localize.Proofs.Text.Blank

/-!
# What is shown for content

Under a table of texts a text shows the translation of its trimmed text between its own blanks, an
attribute the translation of its exact value, and content without a translation shows its first
value. Content that is not blank is always shown, and each piece counts once, as translated or not.

Where a table has something else for a piece, an attribute shows just that, and a text cannot be
shown, nor anything with it.
-/

namespace Localize.Display

/-- Every value of a table is a text. -/
def Textual (table : Fields) : Prop := ∀ p ∈ table, ∃ t, p.2 = .str t

/-- What is to be shown for a piece of content under a table of texts. -/
inductive Shows (table : Fields) : Piece → Text → Prop
  | text {ref : Json} {before core after t : Text} (hbefore : Text.allBlank before = true)
      (hafter : Text.allBlank after = true) (hcore : Text.strip core = core) (hne : core ≠ [])
      (hfind : Table.find? table core = some (.str t)) (ht : t ≠ []) :
      Shows table (.text ref (before ++ core ++ after)) (before ++ t ++ after)
  | attr {element : Json} {name source t : Text}
      (hfind : Table.find? table source = some (.str t)) (ht : t ≠ []) :
      Shows table (.attr element name source) t
  | source {c : Piece} (h : ∀ t, Table.find? table c.label = some (.str t) → t = []) :
      Shows table c c.source

/-- The value given for a piece is the text that is to be shown. -/
def ShowsValue (table : Fields) (c : Piece) (value : Json) : Prop :=
  ∃ t, value = .str t ∧ Shows table c t

/-- What a table has for a piece is a text, or counts as nothing. -/
def Legible (table : Fields) (c : Piece) : Prop :=
  ∀ value, Table.find? table c.label = some value → value.isSomething = true → ∃ t, value = .str t

/-- A text needs a text to be shown for it; an attribute can show anything. -/
def Showable (table : Fields) : Piece → Prop
  | .text ref source => Legible table (.text ref source)
  | .attr .. => True

/-- What is given for a piece: the text that is to be shown, or else what an attribute has in the
table. -/
inductive Appears (table : Fields) : Piece → Json → Prop
  | shown {c : Piece} {t : Text} (hlegible : Legible table c) (h : Shows table c t) :
      Appears table c (.str t)
  | raw {element value : Json} {name source : Text} (hfind : Table.find? table source = some value)
      (hvalue : value.isSomething = true) (hother : ∀ t, value ≠ .str t) :
      Appears table (.attr element name source) value

variable {table : Fields} {c : Piece} {t : Text}

theorem Textual.legible (h : Textual table) (c : Piece) : Legible table c :=
  fun _ hfind _ => h _ (Table.mem_of_find? hfind)

theorem Legible.showable (h : Legible table c) : Showable table c := by
  cases c with
  | text ref source => exact h
  | attr element name source => trivial

/-- An empty table shows everything as it was at first. -/
theorem Shows.eq_source (h : Shows [] c t) : t = c.source := by
  cases h with
  | text _ _ _ _ hfind _ => cases hfind
  | attr hfind _ => cases hfind
  | source _ => rfl

/-- The blanks that a text has around it are kept around its translation. -/
theorem shows_text {ref : Json} {source : Text} (hblank : Text.allBlank source = false)
    (hfind : Table.find? table (Text.strip source) = some (.str t)) (ht : t ≠ []) :
    Shows table (.text ref source)
      (Text.leadingBlanks source ++ t ++ Text.trailingBlanks source) := by
  have hshows := @Shows.text table ref _ _ _ _ (Text.allBlank_leadingBlanks source)
    (Text.allBlank_trailingBlanks source) (Text.strip_strip source) (Text.strip_ne_nil hblank)
    hfind ht
  rwa [Text.strip_between hblank] at hshows

/-- What is given is a text exactly for the pieces for which a table is legible. -/
theorem Appears.legible_iff {value : Json} (h : Appears table c value) :
    Legible table c ↔ ∃ t, value = .str t := by
  cases h with
  | @shown c t hlegible h => exact iff_of_true hlegible ⟨t, rfl⟩
  | raw hfind hvalue hother =>
    refine iff_of_false (fun hlegible => ?_) fun ⟨t, ht⟩ => hother t ht
    obtain ⟨t, ht⟩ := hlegible _ hfind hvalue
    exact hother t ht

theorem Appears.showable {value : Json} (h : Appears table c value) : Showable table c := by
  cases h with
  | shown hlegible _ => exact hlegible.showable
  | raw _ _ _ => trivial

theorem Appears.shows (h : Appears table c (.str t)) : Shows table c t := by
  cases h with
  | shown _ h => exact h
  | raw _ _ hother => exact absurd rfl (hother t)

theorem Appears.showsValue {value : Json} (h : Appears table c value) (hlegible : Legible table c) :
    ShowsValue table c value := by
  obtain ⟨t, rfl⟩ := h.legible_iff.mp hlegible
  exact ⟨t, rfl, h.shows⟩

/-! ### What a table has for a piece -/

theorem translation?_of_nothing
    (h : ∀ value, Table.find? table c.label = some value → value.isSomething = false) :
    c.translation? table = .ok none ∧ Appears table c (.str c.source) := by
  constructor
  · unfold Piece.translation?
    cases hfind : Table.find? table c.label with
    | none => rfl
    | some value => simp only [h value hfind, Bool.false_eq_true, if_false]
  · refine .shown (fun value hfind hvalue => ?_) (.source fun t hfind => ?_)
    · rw [h value hfind] at hvalue
      cases hvalue
    · simpa [Json.isSomething] using h _ hfind

theorem translation?_of_text (hblank : Text.allBlank c.source = false)
    (hfind : Table.find? table c.label = some (.str t)) (ht : t ≠ []) :
    ∃ value, c.translation? table = .ok (some value) ∧ Appears table c value := by
  have hlegible : Legible table c := fun value hvalue _ =>
    ⟨t, Option.some.inj (hvalue.symm.trans hfind)⟩
  have hsomething : (Json.str t).isSomething = true := by simpa [Json.isSomething] using ht
  unfold Piece.translation?
  simp only [hfind, hsomething, if_true]
  cases c with
  | text ref source => exact ⟨_, rfl, .shown hlegible (shows_text hblank hfind ht)⟩
  | attr element name source => exact ⟨_, rfl, .shown hlegible (.attr hfind ht)⟩

theorem translation?_of_other {value : Json} (hfind : Table.find? table c.label = some value)
    (hvalue : value.isSomething = true) (hother : ∀ t, value ≠ .str t) :
    (¬Showable table c ∧ c.translation? table = .error .wrongType) ∨
      c.translation? table = .ok (some value) ∧ Appears table c value := by
  unfold Piece.translation?
  simp only [hfind, hvalue, if_true]
  cases c with
  | text ref source =>
    refine .inl ⟨fun hlegible => ?_, ?_⟩
    · obtain ⟨t, ht⟩ := hlegible value hfind hvalue
      exact hother t ht
    · cases value with
      | str t => exact absurd rfl (hother t)
      | null | bool _ | int _ | float _ | arr _ | obj _ => rfl
  | attr element name source => exact .inr ⟨rfl, .raw hfind hvalue hother⟩

/-- A piece has something that is to be shown, or has none and is to be shown as it was, or cannot
be shown. -/
theorem translation?_cases (table : Fields) (hblank : Text.allBlank c.source = false) :
    (∃ value, c.translation? table = .ok (some value) ∧ Appears table c value) ∨
      (c.translation? table = .ok none ∧ Appears table c (.str c.source)) ∨
      ¬Showable table c ∧ c.translation? table = .error .wrongType := by
  by_cases hnothing : ∀ value, Table.find? table c.label = some value → value.isSomething = false
  · exact .inr (.inl (translation?_of_nothing hnothing))
  · simp only [not_forall, Bool.not_eq_false] at hnothing
    obtain ⟨value, hfind, hvalue⟩ := hnothing
    by_cases htext : ∃ t, value = .str t
    · obtain ⟨t, rfl⟩ := htext
      exact .inl (translation?_of_text hblank hfind (by simpa [Json.isSomething] using hvalue))
    · obtain h | h := translation?_of_other hfind hvalue (not_exists.mp htext)
      · exact .inr (.inr h)
      · exact .inl ⟨value, h⟩

/-! ### Piece by piece -/

namespace Shown

/-- One more piece is shown and counted, or cannot be shown. -/
theorem add_cases (table : Fields) (hblank : Text.allBlank c.source = false) (s : Shown) :
    (∃ value s', add table s (.piece c) = .ok s' ∧ Appears table c value ∧
      s'.values = Table.insert s.values c.key value ∧
      s'.translated + s'.fallbacks = s.translated + s.fallbacks + 1) ∨
    ¬Showable table c ∧ add table s (.piece c) = .error .wrongType := by
  unfold add
  obtain ⟨value, htranslation, happears⟩ | ⟨htranslation, happears⟩ | ⟨hnot, htranslation⟩ :=
    translation?_cases table hblank
  · simp only [htranslation]
    exact .inl ⟨value, _, rfl, happears, rfl, by dsimp only; omega⟩
  · simp only [htranslation]
    exact .inl ⟨.str c.source, _, rfl, happears, rfl, rfl⟩
  · simp only [htranslation]
    exact .inr ⟨hnot, trivial⟩

/-- Pieces that are shown in turn give their values in turn. -/
theorem exists_foldlM_add {pieces : List Piece} (h : ∀ c ∈ pieces, Showable table c)
    (hblank : ∀ c ∈ pieces, Text.allBlank c.source = false) (s : Shown) :
    ∃ pairs s', (pieces.map .piece).foldlM (add table) s = .ok s' ∧
      List.Forall₂ (fun c p => p.1 = c.key ∧ Appears table c p.2) pieces pairs ∧
      s'.values = Table.merge s.values pairs ∧
      s'.translated + s'.fallbacks = s.translated + s.fallbacks + pieces.length := by
  induction pieces generalizing s with
  | nil => exact ⟨[], s, rfl, .nil, rfl, rfl⟩
  | cons c pieces ih =>
    obtain ⟨hshowable, hshowables⟩ := List.forall_mem_cons.mp h
    obtain ⟨hc, hpieces⟩ := List.forall_mem_cons.mp hblank
    obtain ⟨value, s₁, hadd, happears, hvalues, hcount⟩ :=
      (add_cases table hc s).resolve_right fun hnot => hnot.1 hshowable
    obtain ⟨pairs, s', hrest, hpairs, hmerged, hcounted⟩ := ih hshowables hpieces s₁
    refine ⟨(c.key, value) :: pairs, s', ?_, .cons ⟨rfl, happears⟩ hpairs, ?_, ?_⟩
    · rw [List.map_cons, List.foldlM_cons, hadd]
      exact hrest
    · rw [hmerged, hvalues]
      rfl
    · rw [hcounted, hcount, List.length_cons]
      omega

/-- One piece that cannot be shown ends it for all. -/
theorem foldlM_add_of_not_showable {pieces : List Piece}
    (hblank : ∀ c ∈ pieces, Text.allBlank c.source = false)
    (h : ∃ c ∈ pieces, ¬Showable table c) (s : Shown) :
    (pieces.map .piece).foldlM (add table) s = .error .wrongType := by
  induction pieces generalizing s with
  | nil =>
    obtain ⟨c, hc, -⟩ := h
    cases hc
  | cons c pieces ih =>
    obtain ⟨hc, hpieces⟩ := List.forall_mem_cons.mp hblank
    rw [List.map_cons, List.foldlM_cons]
    obtain ⟨value, s₁, hadd, happears, -⟩ | ⟨-, hadd⟩ := add_cases table hc s
    · -- The first piece can be shown, so one behind it cannot.
      rw [hadd]
      refine ih hpieces ?_ s₁
      obtain ⟨other, hmem, hother⟩ := h
      refine ⟨other, (List.mem_cons.mp hmem).resolve_left ?_, hother⟩
      rintro rfl
      exact hother happears.showable
    · rw [hadd]
      rfl

end Shown

/-! ### Key by key -/

/-- The content that a display has met: each piece under its own key, none of it blank. -/
structure Indexed (index : Table Key Piece) : Prop where
  keyed : ∀ p ∈ index, p.2.key = p.1
  distinct : (Table.keys index).Nodup
  notBlank : ∀ p ∈ index, Text.allBlank p.2.source = false

variable {index : Table Key Piece}

theorem Indexed.allBlank_values (h : Indexed index) :
    ∀ c ∈ index.values, Text.allBlank c.source = false := by
  intro c hc
  obtain ⟨p, hp, rfl⟩ := List.mem_map.mp hc
  exact h.notBlank p hp

/-- Content that can be shown is given key by key, and every key counts once. -/
theorem ofTable_of_showable (h : ∀ p ∈ index, Showable table p.2) (hindex : Indexed index) :
    ∃ s, Shown.ofTable table (index.values.map .piece) = .ok s ∧
      List.Forall₂ (fun p q => q.1 = p.1 ∧ Appears table p.2 q.2) index s.values ∧
      s.translated + s.fallbacks = index.length := by
  have hshowable : ∀ c ∈ index.values, Showable table c := by
    intro c hc
    obtain ⟨p, hp, rfl⟩ := List.mem_map.mp hc
    exact h p hp
  obtain ⟨pairs, s, hshown, hpairs, hvalues, hcount⟩ :=
    Shown.exists_foldlM_add hshowable hindex.allBlank_values .empty
  have hkeyed : List.Forall₂ (fun p q => q.1 = p.1 ∧ Appears table p.2 q.2) index pairs := by
    rw [Table.values, List.forall₂_map_left_iff] at hpairs
    refine ((List.forall₂_and_left _ _).mpr ⟨hindex.keyed, hpairs⟩).imp ?_
    rintro p q ⟨hkey, hq, happears⟩
    exact ⟨hq.trans hkey, happears⟩
  have hdistinct : (Table.keys pairs).Nodup := by
    rw [Table.keys_of_forall₂ hkeyed]
    exact hindex.distinct
  obtain rfl : s.values = pairs := hvalues.trans (Table.ofPairs_of_nodup hdistinct)
  refine ⟨s, hshown, hkeyed, ?_⟩
  rw [hcount, Table.values, List.length_map]
  exact Nat.zero_add _

theorem ofTable_of_not_showable (h : ∃ p ∈ index, ¬Showable table p.2) (hindex : Indexed index) :
    Shown.ofTable table (index.values.map .piece) = .error .wrongType := by
  obtain ⟨p, hp, hshowable⟩ := h
  exact Shown.foldlM_add_of_not_showable hindex.allBlank_values
    ⟨p.2, List.mem_map_of_mem hp, hshowable⟩ .empty

/-- All content that a display has met is shown, key by key, and every key counts once. -/
theorem exists_ofTable (h : Textual table) (hindex : Indexed index) :
    ∃ s, Shown.ofTable table (index.values.map .piece) = .ok s ∧
      List.Forall₂ (fun p q => q.1 = p.1 ∧ ShowsValue table p.2 q.2) index s.values ∧
      s.translated + s.fallbacks = index.length := by
  obtain ⟨s, hshown, hvalues, hcount⟩ :=
    ofTable_of_showable (fun p _ => (h.legible p.2).showable) hindex
  refine ⟨s, hshown, hvalues.imp ?_, hcount⟩
  exact fun p q ⟨hkey, happears⟩ => ⟨hkey, happears.showsValue (h.legible p.2)⟩

end Localize.Display
