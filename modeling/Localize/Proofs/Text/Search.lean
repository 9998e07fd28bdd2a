import Localize.Text.Search
import Localize.Text.Slice
import Mathlib.Data.List.Infix

/-!
# Occurrences and replacement

An occurrence of a text in another is a way to write the other as what stands before, the text, and
what stands behind. Replacing leaves a text without occurrences as it is, and where there is exactly
one occurrence it changes that one. A match of a scan is what its matcher reads at its place, the
matches begin one behind the other, and a scan passes over a place where its matcher reads something
only within an earlier match.
-/

namespace Localize.Text

theorem afterStart?_eq_some_iff {a t b : Text} : afterStart? a t = some b ↔ t = a ++ b := by
  induction a generalizing t with
  | nil => simp [afterStart?, eq_comm]
  | cons c a ih =>
    cases t with
    | nil => simp [afterStart?]
    | cons d t =>
      unfold afterStart?
      by_cases h : c = d
      · simp [h, ih]
      · simp [h, Ne.symm h]

theorem startsWith_iff {start t : Text} : startsWith start t = true ↔ start <+: t := by
  rw [startsWith, Option.isSome_iff_exists]
  constructor
  · rintro ⟨b, hb⟩
    exact ⟨b, (afterStart?_eq_some_iff.mp hb).symm⟩
  · rintro ⟨b, hb⟩
    exact ⟨b, afterStart?_eq_some_iff.mpr hb.symm⟩

theorem occursIn_iff {part t : Text} : occursIn part t = true ↔ part <:+: t := by
  induction t with
  | nil =>
    rw [occursIn, cutAt?, List.infix_nil]
    cases part with
    | nil => simp
    | cons c part => simp
  | cons c t ih =>
    rw [List.infix_cons_iff, ← ih, ← startsWith_iff, occursIn, cutAt?, startsWith]
    cases afterStart? part (c :: t) with
    | some behind => simp
    | none => simp [occursIn]

theorem eq_of_cutAt? {part t before behind : Text} (h : cutAt? part t = some (before, behind)) :
    t = before ++ (part ++ behind) := by
  induction t generalizing before with
  | nil =>
    rw [cutAt?, Option.ite_none_right_eq_some, List.isEmpty_iff] at h
    obtain ⟨rfl, h⟩ := h
    cases h
    rfl
  | cons c t ih =>
    rw [cutAt?] at h
    split at h
    · next rest hstart =>
      cases h
      rw [afterStart?_eq_some_iff.mp hstart]
      rfl
    · obtain ⟨⟨front, rest⟩, hcut, heq⟩ := Option.map_eq_some_iff.mp h
      cases heq
      rw [ih hcut]
      rfl

/-- A part that begins and ends within another part of the same text is a part of that one. -/
theorem exists_within {a b a' b' part inner : Text} (h : a ++ part ++ b = a' ++ inner ++ b')
    (hstart : a.length ≤ a'.length)
    (hstop : a'.length + inner.length ≤ a.length + part.length) :
    ∃ u v, a' = a ++ u ∧ part = u ++ inner ++ v ∧ b' = v ++ b := by
  have ha : a <+: a ++ part ++ b := ⟨part ++ b, (List.append_assoc _ _ _).symm⟩
  have ha' : a' <+: a ++ part ++ b := ⟨inner ++ b', by rw [h, List.append_assoc]⟩
  obtain ⟨u, hu⟩ := List.prefix_of_prefix_length_le ha ha' hstart
  subst hu
  simp only [List.append_assoc, List.append_cancel_left_eq] at h
  rw [← List.append_assoc u] at h
  have hlength : (u ++ inner).length ≤ part.length := by
    simp only [List.length_append] at hstop ⊢
    omega
  have hpart : part <+: part ++ b := ⟨b, rfl⟩
  have hinner : u ++ inner <+: part ++ b := ⟨b', h.symm⟩
  obtain ⟨v, hv⟩ := List.prefix_of_prefix_length_le hinner hpart hlength
  rw [← hv, List.append_assoc, List.append_cancel_left_eq] at h
  exact ⟨u, v, rfl, hv.symm, h.symm⟩

/-- No occurrence of the part touches the separator, whatever texts stand around it: none lies within
the separator, and none reaches into it from the left or from the right. -/
def Separates (separator part : Text) : Prop :=
  ¬part <:+: separator ∧ ∀ n < part.length, 0 < n →
    ¬part.drop n <+: separator ∧ ¬separator <+: part.drop n ∧ ¬part.take n <:+ separator

instance (separator part : Text) : Decidable (Separates separator part) :=
  inferInstanceAs (Decidable (¬part <:+: separator ∧ ∀ n < part.length, 0 < n →
    ¬part.drop n <+: separator ∧ ¬separator <+: part.drop n ∧ ¬part.take n <:+ separator))

theorem Separates.infix_append_iff {separator part : Text} (h : Separates separator part)
    {a b : Text} : part <:+: a ++ separator ++ b ↔ part <:+: a ∨ part <:+: b := by
  obtain ⟨hwithin, hacross⟩ := h
  constructor
  · intro hpart
    rw [List.append_assoc] at hpart
    rcases List.infix_append_iff_ne_nil.mp hpart with ha | hbehind | hfromLeft
    · exact .inl ha
    · rcases List.infix_append_iff_ne_nil.mp hbehind with hsep | hb | hfromRight
      · exact absurd hsep hwithin
      · exact .inr hb
      · obtain ⟨left, right, hleft, hright, rfl, hsep, -⟩ := hfromRight
        have hn : left.length < (left ++ right).length := by
          simp [List.length_pos_iff.mpr hright]
        have hnot := (hacross left.length hn (List.length_pos_iff.mpr hleft)).2.2
        rw [List.take_left] at hnot
        exact absurd hsep hnot
    · obtain ⟨left, right, hleft, hright, rfl, -, hrest⟩ := hfromLeft
      have hn : left.length < (left ++ right).length := by
        simp [List.length_pos_iff.mpr hright]
      have hnot := hacross left.length hn (List.length_pos_iff.mpr hleft)
      rw [List.drop_left] at hnot
      rcases List.prefix_or_prefix_of_prefix hrest (List.prefix_append separator b) with hr | hr
      · exact absurd hr hnot.1
      · exact absurd hr hnot.2.1
  · rintro (ha | hb)
    · exact List.infix_append_of_infix_left (List.infix_append_of_infix_left ha)
    · exact List.infix_append_of_infix_right hb

theorem replaceFrom_skip (part new t u : Text) :
    replaceFrom part new t.length (t ++ u) = replaceFrom part new 0 u := by
  induction t with
  | nil => rfl
  | cons c t ih => exact ih

theorem replaceFrom_of_not_infix {part t : Text} (h : ¬ part <:+: t) (new : Text) :
    replaceFrom part new 0 t = t := by
  induction t with
  | nil => rfl
  | cons c t ih =>
    have hs : startsWith part (c :: t) ≠ true := fun hs => h (startsWith_iff.mp hs).isInfix
    have ht : ¬ part <:+: t := fun hi => h (hi.trans (List.suffix_cons c t).isInfix)
    simp only [replaceFrom, hs, ih ht, if_false, Bool.false_eq_true]

theorem replaceAll_of_not_infix {part t : Text} (h : ¬ part <:+: t) (new : Text) :
    replaceAll part new t = t := by
  have hp : part ≠ [] := by
    rintro rfl
    exact h List.nil_infix
  simp only [replaceAll, List.isEmpty_iff, hp, if_false, replaceFrom_of_not_infix h]

theorem replaceFrom_append_self {part : Text} (hp : part ≠ []) (new rest : Text) :
    replaceFrom part new 0 (part ++ rest) = new ++ replaceFrom part new 0 rest := by
  obtain ⟨c, part, rfl⟩ := List.exists_cons_of_ne_nil hp
  have hs : startsWith (c :: part) (c :: (part ++ rest)) = true := startsWith_iff.mpr ⟨rest, rfl⟩
  change replaceFrom (c :: part) new 0 (c :: (part ++ rest)) = _
  simp only [replaceFrom, hs, if_true, List.length_cons, Nat.add_sub_cancel]
  rw [replaceFrom_skip]

/-- A stretch in which no occurrence begins stays. -/
theorem replaceFrom_append_of_not_prefix {part stretch rest : Text}
    (h : ∀ x z, stretch = x ++ z → z ≠ [] → ¬ part <+: z ++ rest) (new : Text) :
    replaceFrom part new 0 (stretch ++ rest) = stretch ++ replaceFrom part new 0 rest := by
  induction stretch with
  | nil => rfl
  | cons c stretch ih =>
    have hs : startsWith part (c :: (stretch ++ rest)) ≠ true := fun hs =>
      h [] (c :: stretch) rfl (List.cons_ne_nil c stretch) (startsWith_iff.mp hs)
    have hstretch : ∀ x z, stretch = x ++ z → z ≠ [] → ¬ part <+: z ++ rest := fun x z hxz =>
      h (c :: x) z (congrArg (c :: ·) hxz)
    change replaceFrom part new 0 (c :: (stretch ++ rest)) = _
    simp only [replaceFrom, hs, if_false, Bool.false_eq_true, ih hstretch, List.cons_append]

/-- The only occurrence of a text gives way to another text; nothing else changes. -/
theorem replaceFrom_of_unique {part a b : Text} (hp : part ≠ [])
    (ha : ∀ x y, a ++ part ++ b = x ++ part ++ y → x = a) (hb : ¬ part <:+: b) (new : Text) :
    replaceFrom part new 0 (a ++ part ++ b) = a ++ new ++ b := by
  have hbefore : ∀ x z, a = x ++ z → z ≠ [] → ¬ part <+: z ++ (part ++ b) := by
    rintro x z rfl hz ⟨y, hy⟩
    have hx := ha x y (by simp only [List.append_assoc, hy])
    exact hz (List.self_eq_append_right.mp hx)
  rw [List.append_assoc, replaceFrom_append_of_not_prefix hbefore, replaceFrom_append_self hp,
    replaceFrom_of_not_infix hb, List.append_assoc]

theorem replaceAll_of_unique {part a b : Text} (hp : part ≠ [])
    (ha : ∀ x y, a ++ part ++ b = x ++ part ++ y → x = a) (hb : ¬ part <:+: b) (new : Text) :
    replaceAll part new (a ++ part ++ b) = a ++ new ++ b := by
  simp only [replaceAll, List.isEmpty_iff, hp, if_false]
  exact replaceFrom_of_unique hp ha hb new

/-- Where no occurrence reaches over a place, what stands before it and what stands behind it are
replaced apart. -/
theorem replaceFrom_append_cons {part new t : Text} {c : Char} {skip : Nat}
    (hskip : skip ≤ t.length) (hc : c ∉ part.tail) (u : Text) :
    replaceFrom part new skip (t ++ c :: u) =
      replaceFrom part new skip t ++ replaceFrom part new 0 (c :: u) := by
  induction t generalizing skip with
  | nil =>
    obtain rfl : skip = 0 := Nat.le_zero.mp hskip
    rfl
  | cons d t ih =>
    cases skip with
    | succ skip => exact ih (Nat.le_of_succ_le_succ hskip)
    | zero =>
      have hstart : startsWith part (d :: (t ++ c :: u)) = startsWith part (d :: t) := by
        rw [Bool.eq_iff_iff, startsWith_iff, startsWith_iff]
        constructor
        · intro hpart
          rcases List.prefix_or_prefix_of_prefix hpart
            (⟨c :: u, rfl⟩ : d :: t <+: d :: (t ++ c :: u)) with hshort | hlong
          · exact hshort
          · -- An occurrence that reaches further holds the character behind its first one.
            obtain ⟨v, rfl⟩ := hlong
            cases v with
            | nil => simp
            | cons e v =>
              obtain ⟨w, hw⟩ := hpart
              simp only [List.cons_append, List.append_assoc, List.cons.injEq, true_and,
                List.append_cancel_left_eq] at hw
              exact absurd (by simp [hw.1]) hc
        · rintro ⟨v, hv⟩
          exact ⟨v ++ c :: u, by rw [← List.append_assoc, hv, List.cons_append]⟩
      rw [List.cons_append, replaceFrom, replaceFrom, hstart]
      split
      · next hpart =>
        have hle := (startsWith_iff.mp hpart).length_le
        rw [List.length_cons] at hle
        rw [ih (by omega), List.append_assoc]
      · rw [ih (Nat.zero_le _), List.cons_append]

/-- What shares no character with what is replaced stays. -/
theorem infix_replaceAll {part kept t : Text} (hpart : part ≠ []) (hkept : ∀ c ∈ kept, c ∉ part)
    (h : kept <:+: t) (new : Text) : kept <:+: replaceAll part new t := by
  simp only [replaceAll, List.isEmpty_iff, hpart, if_false]
  cases kept with
  | nil => exact List.nil_infix
  | cons c kept =>
    obtain ⟨a, b, rfl⟩ := h
    have hstay : ∀ x z, c :: kept = x ++ z → z ≠ [] → ¬ part <+: z ++ b := by
      intro x z hxz hz hprefix
      obtain ⟨d, z, rfl⟩ := List.exists_cons_of_ne_nil hz
      obtain ⟨e, part, rfl⟩ := List.exists_cons_of_ne_nil hpart
      obtain ⟨rfl, -⟩ := List.cons_prefix_cons.mp hprefix
      exact hkept e (by simp [hxz]) List.mem_cons_self
    have hc : c ∉ part.tail := fun hmem => hkept c List.mem_cons_self (List.mem_of_mem_tail hmem)
    have hsplit : a ++ c :: kept ++ b = a ++ c :: (kept ++ b) := List.append_assoc _ _ _
    refine ⟨replaceFrom part new 0 a, replaceFrom part new 0 b, ?_⟩
    rw [hsplit, replaceFrom_append_cons (Nat.zero_le _) hc, ← List.cons_append,
      replaceFrom_append_of_not_prefix hstay, List.append_assoc]

/-- The end of a text stays if it is not replaced. -/
theorem getLast?_replaceFrom {part t : Text} {skip : Nat} (hskip : skip < t.length)
    (h : ¬ part <:+ t) (new : Text) : (replaceFrom part new skip t).getLast? = t.getLast? := by
  induction t generalizing skip with
  | nil => cases hskip
  | cons c t ih =>
    have hrest : ¬ part <:+ t := fun hpart => h (hpart.trans (List.suffix_cons c t))
    cases skip with
    | succ skip =>
      have hlt := Nat.lt_of_succ_lt_succ hskip
      rw [replaceFrom, ih hlt hrest, List.getLast?_cons_of_ne_nil (List.ne_nil_of_length_pos (by omega))]
    | zero =>
      rw [replaceFrom]
      split
      · next hpart =>
        have hpart := startsWith_iff.mp hpart
        have hlt : part.length < (c :: t).length := by
          refine lt_of_le_of_ne hpart.length_le fun hlength => h ?_
          rw [hpart.eq_of_length hlength]
        have hne : t ≠ [] := by
          rintro rfl
          have hnil : part = [] := List.length_eq_zero_iff.mp (Nat.lt_one_iff.mp hlt)
          exact hrest (hnil ▸ List.nil_suffix)
        have hpos := List.length_pos_iff.mpr hne
        rw [List.length_cons] at hlt
        have hwithin : part.length - 1 < t.length := by omega
        have hlast := ih hwithin hrest
        rw [List.getLast?_append, hlast, List.getLast?_cons_of_ne_nil hne,
          List.getLast?_eq_some_getLast hne, Option.some_or]
      · cases t with
        | nil => rfl
        | cons d t =>
          have hlast : (replaceFrom part new 0 (d :: t)).getLast? = (d :: t).getLast? :=
            ih (Nat.zero_lt_succ _) hrest
          have hne : replaceFrom part new 0 (d :: t) ≠ [] := by
            intro hnil
            rw [hnil, List.getLast?_cons] at hlast
            cases hlast
          rw [List.getLast?_cons_of_ne_nil hne, hlast, List.getLast?_cons_cons]

theorem replaceFirst_cons {part t : Text} {c : Char} (h : afterStart? part (c :: t) = none)
    (new : Text) : replaceFirst part new (c :: t) = c :: replaceFirst part new t := by
  simp only [replaceFirst, cutAt?, h]
  cases cutAt? part t with
  | none => rfl
  | some cut => rfl

/-! ### Slices -/

@[simp] theorem takeTo_natCast {α : Type} (n : Nat) (items : List α) :
    takeTo (n : Int) items = items.take n := by
  have h : ¬ (n : Int) < 0 := by omega
  simp only [takeTo, cutPlace, h, if_false, Int.toNat_natCast]
  rcases Nat.le_total n items.length with hn | hn
  · rw [Nat.min_eq_left hn]
  · rw [Nat.min_eq_right hn, List.take_length, List.take_of_length_le hn]

@[simp] theorem dropTo_natCast {α : Type} (n : Nat) (items : List α) :
    dropTo (n : Int) items = items.drop n := by
  have h : ¬ (n : Int) < 0 := by omega
  simp only [dropTo, cutPlace, h, if_false, Int.toNat_natCast]
  rcases Nat.le_total n items.length with hn | hn
  · rw [Nat.min_eq_left hn]
  · rw [Nat.min_eq_right hn, List.drop_length, List.drop_of_length_le hn]

/-! ### Scans -/

variable {α : Type}

/-- The character before the rest of a text, given what stands before the text. -/
theorem getLast?_cons_or (before : Option Char) (c : Char) (t : Text) :
    (c :: t).getLast?.or before = t.getLast?.or (some c) := by
  cases t with
  | nil => rfl
  | cons d t => simp [List.getLast?_cons]

/-- Every match of a scan is what the matcher reads where it begins. -/
theorem matcher_of_mem_scanFrom {matcher : Matcher α} {t : Text} {before : Option Char}
    {pos skip : Nat} {f : Found α} (h : f ∈ scanFrom matcher before pos skip t) :
    ∃ n, f.start = pos + n ∧ n ≤ t.length ∧
      matcher ((t.take n).getLast?.or before) (t.drop n) = some (f.value, f.length) := by
  induction t generalizing before pos skip with
  | nil =>
    cases skip with
    | succ skip => cases h
    | zero =>
      unfold scanFrom at h
      split at h
      · next value length hm =>
        rw [List.mem_singleton] at h
        subst h
        exact ⟨0, rfl, Nat.le_refl 0, hm⟩
      · cases h
  | cons c t ih =>
    -- what is found behind the first character
    have later : ∀ {skip}, f ∈ scanFrom matcher (some c) (pos + 1) skip t →
        ∃ n, f.start = pos + n ∧ n ≤ (c :: t).length ∧
          matcher (((c :: t).take n).getLast?.or before) ((c :: t).drop n) =
            some (f.value, f.length) := by
      intro skip h
      obtain ⟨n, hs, hn, hm⟩ := ih h
      refine ⟨n + 1, by omega, ?_, ?_⟩
      · rw [List.length_cons]
        omega
      · rw [List.take_succ_cons, getLast?_cons_or]
        exact hm
    cases skip with
    | succ skip => exact later h
    | zero =>
      unfold scanFrom at h
      split at h
      · next value length hm =>
        rcases List.mem_cons.mp h with h | h
        · subst h
          exact ⟨0, rfl, Nat.zero_le _, hm⟩
        · exact later h
      · exact later h

theorem matcher_of_mem_scan {matcher : Matcher α} {t : Text} {f : Found α}
    (h : f ∈ scan matcher t) :
    f.start ≤ t.length ∧
      matcher (t.take f.start).getLast? (t.drop f.start) = some (f.value, f.length) := by
  obtain ⟨n, hs, hn, hm⟩ := matcher_of_mem_scanFrom h
  rw [Nat.zero_add] at hs
  subst hs
  rw [Option.or_none] at hm
  exact ⟨hn, hm⟩

/-- The matches of a scan begin one behind the other. -/
theorem pairwise_scanFrom (matcher : Matcher α) (before : Option Char) (pos skip : Nat) (t : Text) :
    (scanFrom matcher before pos skip t).Pairwise (·.start < ·.start) := by
  induction t generalizing before pos skip with
  | nil =>
    cases skip with
    | succ skip => exact .nil
    | zero =>
      unfold scanFrom
      split
      · exact List.pairwise_singleton _ _
      · exact .nil
  | cons c t ih =>
    cases skip with
    | succ skip => exact ih (some c) (pos + 1) skip
    | zero =>
      unfold scanFrom
      split
      · refine List.pairwise_cons.mpr ⟨fun f hf => ?_, ih (some c) (pos + 1) _⟩
        obtain ⟨n, hstart, -, -⟩ := matcher_of_mem_scanFrom hf
        simp only
        omega
      · exact ih (some c) (pos + 1) 0

theorem pairwise_scan (matcher : Matcher α) (t : Text) :
    (scan matcher t).Pairwise (·.start < ·.start) :=
  pairwise_scanFrom matcher none 0 0 t

/-- A scan finds nothing within the match it is in. -/
theorem le_start_of_mem_scanFrom {matcher : Matcher α} {t : Text} {before : Option Char}
    {pos skip : Nat} {f : Found α} (h : f ∈ scanFrom matcher before pos skip t) :
    pos + skip ≤ f.start := by
  induction t generalizing before pos skip with
  | nil =>
    cases skip with
    | succ skip => cases h
    | zero =>
      unfold scanFrom at h
      split at h
      · rw [List.mem_singleton.mp h]
        exact Nat.le_refl pos
      · cases h
  | cons c t ih =>
    cases skip with
    | succ skip =>
      have hrest := ih h
      omega
    | zero =>
      unfold scanFrom at h
      split at h
      · rcases List.mem_cons.mp h with rfl | h
        · exact Nat.le_refl pos
        · have hrest := ih h
          omega
      · have hrest := ih h
        omega

/-- Each match of a scan begins behind the ends of those before it. -/
theorem pairwise_scanFrom_ends (matcher : Matcher α) (before : Option Char) (pos skip : Nat)
    (t : Text) :
    (scanFrom matcher before pos skip t).Pairwise fun f g => f.start + f.length ≤ g.start := by
  induction t generalizing before pos skip with
  | nil =>
    cases skip with
    | succ skip => exact .nil
    | zero =>
      unfold scanFrom
      split
      · exact List.pairwise_singleton _ _
      · exact .nil
  | cons c t ih =>
    cases skip with
    | succ skip => exact ih (some c) (pos + 1) skip
    | zero =>
      unfold scanFrom
      split
      · refine List.pairwise_cons.mpr ⟨fun g hg => ?_, ih (some c) (pos + 1) _⟩
        have hstart := le_start_of_mem_scanFrom hg
        simp only
        omega
      · exact ih (some c) (pos + 1) 0

/-- A match of a scan that begins behind another begins behind its end. -/
theorem end_le_of_mem_scan {matcher : Matcher α} {t : Text} {f g : Found α}
    (hf : f ∈ scan matcher t) (hg : g ∈ scan matcher t) (h : f.start < g.start) :
    f.start + f.length ≤ g.start := by
  obtain ⟨front, back, hsplit⟩ := List.append_of_mem hf
  have hstarts : (front ++ f :: back).Pairwise (·.start < ·.start) :=
    hsplit ▸ pairwise_scan matcher t
  have hends : (front ++ f :: back).Pairwise fun f g => f.start + f.length ≤ g.start :=
    hsplit ▸ pairwise_scanFrom_ends matcher none 0 0 t
  rw [hsplit, List.mem_append, List.mem_cons] at hg
  rcases hg with hg | rfl | hg
  · have hbefore := (List.pairwise_append.mp hstarts).2.2 g hg f List.mem_cons_self
    omega
  · exact absurd h (Nat.lt_irrefl _)
  · exact (List.pairwise_cons.mp (List.pairwise_append.mp hends).2.1).1 g hg

/-- Where the matcher reads something, a scan finds that, or an earlier match reaches over the
place. -/
theorem exists_mem_scanFrom {matcher : Matcher α} {t : Text} {before : Option Char}
    {pos skip n length : Nat} {value : α} (hskip : skip ≤ n) (hn : n ≤ t.length)
    (hm : matcher ((t.take n).getLast?.or before) (t.drop n) = some (value, length))
    (hlength : 0 < length) :
    ∃ f ∈ scanFrom matcher before pos skip t, f.start ≤ pos + n ∧ pos + n < f.start + f.length := by
  induction t generalizing before pos skip n with
  | nil =>
    have hn0 : n = 0 := Nat.le_zero.mp hn
    subst hn0
    have hskip0 : skip = 0 := Nat.le_zero.mp hskip
    subst hskip0
    have hm' : matcher before [] = some (value, length) := hm
    refine ⟨⟨pos, length, value⟩, ?_, Nat.le_refl pos, ?_⟩
    · simp only [scanFrom, hm', List.mem_singleton]
    · simp only
      omega
  | cons c t ih =>
    cases n with
    | zero =>
      have hskip0 : skip = 0 := Nat.le_zero.mp hskip
      subst hskip0
      have hm' : matcher before (c :: t) = some (value, length) := hm
      refine ⟨⟨pos, length, value⟩, ?_, Nat.le_refl pos, ?_⟩
      · simp only [scanFrom, hm']
        exact List.mem_cons_self
      · simp only
        omega
    | succ n =>
      have hn' : n ≤ t.length := Nat.le_of_succ_le_succ hn
      rw [List.take_succ_cons, getLast?_cons_or, List.drop_succ_cons] at hm
      -- what is found behind the first character, a match before the place ending there
      have later : ∀ {skip}, skip ≤ n → ∃ f ∈ scanFrom matcher (some c) (pos + 1) skip t,
          f.start ≤ pos + (n + 1) ∧ pos + (n + 1) < f.start + f.length := by
        intro skip hskip
        have hrest : ∃ f ∈ scanFrom matcher (some c) (pos + 1) skip t,
            f.start ≤ pos + 1 + n ∧ pos + 1 + n < f.start + f.length := ih hskip hn' hm
        obtain ⟨f, hf, hstart, hstop⟩ := hrest
        exact ⟨f, hf, by omega, by omega⟩
      cases skip with
      | succ skip => exact later (Nat.le_of_succ_le_succ hskip)
      | zero =>
        unfold scanFrom
        cases hfirst : matcher before (c :: t) with
        | none => exact later (Nat.zero_le n)
        | some read =>
          obtain ⟨first, reach⟩ := read
          rcases Nat.lt_or_ge (n + 1) reach with hlt | hge
          · refine ⟨⟨pos, reach, first⟩, List.mem_cons_self, ?_, ?_⟩
            · simp only
              omega
            · simp only
              omega
          · have hskip : reach - 1 ≤ n := by omega
            obtain ⟨f, hf, hreach⟩ := later hskip
            exact ⟨f, List.mem_cons_of_mem _ hf, hreach⟩

theorem exists_mem_scan {matcher : Matcher α} {t : Text} {n length : Nat} {value : α}
    (hn : n ≤ t.length)
    (hm : matcher (t.take n).getLast? (t.drop n) = some (value, length))
    (hlength : 0 < length) :
    ∃ f ∈ scan matcher t, f.start ≤ n ∧ n < f.start + f.length := by
  have hm' : matcher ((t.take n).getLast?.or none) (t.drop n) = some (value, length) := by
    rw [Option.or_none]
    exact hm
  have hall : ∃ f ∈ scanFrom matcher none 0 0 t, f.start ≤ 0 + n ∧ 0 + n < f.start + f.length :=
    exists_mem_scanFrom (Nat.zero_le n) hn hm' hlength
  rw [Nat.zero_add] at hall
  exact hall

/-! ### Scans that do not look back -/

/-- The matches from a position on, for a matcher that does not ask what stands before. -/
def matchesFrom (matcher : Text → Option (α × Nat)) (pos : Nat) (t : Text) : List (Found α) :=
  scanFrom (fun _ rest => matcher rest) none pos 0 t

variable {matcher : Text → Option (α × Nat)} {pos : Nat} {t u : Text}

theorem scanFrom_before (matcher : Text → Option (α × Nat)) (before before' : Option Char)
    (pos skip : Nat) (t : Text) :
    scanFrom (fun _ rest => matcher rest) before pos skip t =
      scanFrom (fun _ rest => matcher rest) before' pos skip t := by
  cases t with
  | nil => cases skip <;> rfl
  | cons c t => cases skip <;> rfl

theorem matchesFrom_cons_of_none {c : Char} (h : matcher (c :: t) = none) :
    matchesFrom matcher pos (c :: t) = matchesFrom matcher (pos + 1) t := by
  simp only [matchesFrom, scanFrom, h]
  exact scanFrom_before matcher (some c) none (pos + 1) 0 t

theorem scanFrom_skip (matcher : Text → Option (α × Nat)) (pos : Nat) (t u : Text) :
    scanFrom (fun _ rest => matcher rest) none pos t.length (t ++ u) =
      matchesFrom matcher (pos + t.length) u := by
  induction t generalizing pos with
  | nil => rfl
  | cons c t ih =>
    rw [List.length_cons, List.cons_append, scanFrom, scanFrom_before matcher (some c) none, ih,
      Nat.add_assoc, Nat.add_comm 1]

/-- Behind a match the scan goes on with what follows. -/
theorem matchesFrom_append_of_some {value : α} (ht : t ≠ [])
    (h : matcher (t ++ u) = some (value, t.length)) :
    matchesFrom matcher pos (t ++ u) =
      ⟨pos, t.length, value⟩ :: matchesFrom matcher (pos + t.length) u := by
  obtain ⟨c, t, rfl⟩ := List.exists_cons_of_ne_nil ht
  rw [List.cons_append] at h ⊢
  simp only [matchesFrom, scanFrom, h]
  rw [scanFrom_before matcher (some c) none, List.length_cons, Nat.add_sub_cancel, scanFrom_skip,
    matchesFrom, Nat.add_assoc, Nat.add_comm 1]

/-- Where nothing begins the scan passes. -/
theorem matchesFrom_append_of_none (h : ∀ x y, t = x ++ y → y ≠ [] → matcher (y ++ u) = none) :
    matchesFrom matcher pos (t ++ u) = matchesFrom matcher (pos + t.length) u := by
  induction t generalizing pos with
  | nil => rfl
  | cons c t ih =>
    have hfirst : matcher (c :: (t ++ u)) = none := h [] (c :: t) rfl (List.cons_ne_nil c t)
    rw [List.cons_append, matchesFrom_cons_of_none hfirst]
    rw [ih fun x y hxy hy => h (c :: x) y (by rw [hxy]; rfl) hy, List.length_cons, Nat.add_assoc,
      Nat.add_comm 1]

theorem matchesFrom_append_of_forall (h : ∀ c ∈ t, ∀ rest, matcher (c :: rest) = none) :
    matchesFrom matcher pos (t ++ u) = matchesFrom matcher (pos + t.length) u := by
  refine matchesFrom_append_of_none fun x y hxy hy => ?_
  obtain ⟨c, y, rfl⟩ := List.exists_cons_of_ne_nil hy
  exact h c (by simp [hxy]) (y ++ u)

/-- Where every match of a text is read alike with more behind it, the scan of both is the scan of one
and then of the other. -/
theorem matchesFrom_append_of_settled (hnil : matcher [] = none)
    (hwithin : ∀ y value n, matcher y = some (value, n) → n ≤ y.length)
    (h : ∀ x y, t = x ++ y → y ≠ [] → matcher (y ++ u) = matcher y) :
    matchesFrom matcher pos (t ++ u) =
      matchesFrom matcher pos t ++ matchesFrom matcher (pos + t.length) u := by
  have hall : ∀ skip ≤ t.length, scanFrom (fun _ rest => matcher rest) none pos skip (t ++ u) =
      scanFrom (fun _ rest => matcher rest) none pos skip t ++
        matchesFrom matcher (pos + t.length) u := by
    induction t generalizing pos with
    | nil =>
      intro skip hskip
      obtain rfl : skip = 0 := Nat.le_zero.mp hskip
      simp [scanFrom, hnil, matchesFrom]
    | cons c t ih =>
      have hrest : ∀ skip ≤ t.length,
          scanFrom (fun _ rest => matcher rest) (some c) (pos + 1) skip (t ++ u) =
            scanFrom (fun _ rest => matcher rest) (some c) (pos + 1) skip t ++
              matchesFrom matcher (pos + (c :: t).length) u := by
        intro skip hskip
        rw [scanFrom_before matcher (some c) none, scanFrom_before matcher (some c) none,
          ih (fun x y hxy hy => h (c :: x) y (by rw [hxy]; rfl) hy) skip hskip, List.length_cons,
          Nat.add_assoc, Nat.add_comm 1]
      intro skip hskip
      cases skip with
      | succ skip => exact hrest skip (Nat.le_of_succ_le_succ hskip)
      | zero =>
        have hsame : matcher (c :: (t ++ u)) = matcher (c :: t) :=
          h [] (c :: t) rfl (List.cons_ne_nil c t)
        rw [List.cons_append]
        cases hread : matcher (c :: t) with
        | none =>
          simp only [scanFrom, hsame, hread]
          exact hrest 0 (Nat.zero_le _)
        | some read =>
          obtain ⟨value, n⟩ := read
          have hn := hwithin _ _ _ hread
          simp only [scanFrom, hsame, hread, List.cons_append, List.cons.injEq, true_and]
          exact hrest (n - 1) (by rw [List.length_cons] at hn; omega)
  exact hall 0 (Nat.zero_le _)

/-- Matchers that read the same everywhere in a text find the same in it. -/
theorem matchesFrom_congr {matcher' : Text → Option (α × Nat)}
    (h : ∀ behind, behind <:+ t → matcher behind = matcher' behind) (pos : Nat) :
    matchesFrom matcher pos t = matchesFrom matcher' pos t := by
  suffices hall : ∀ skip, scanFrom (fun _ rest => matcher rest) none pos skip t =
      scanFrom (fun _ rest => matcher' rest) none pos skip t from hall 0
  induction t generalizing pos with
  | nil =>
    intro skip
    have hnil := h [] List.suffix_rfl
    cases skip <;> simp [scanFrom, hnil]
  | cons c t ih =>
    intro skip
    have hfirst := h (c :: t) List.suffix_rfl
    have hrest : ∀ skip, scanFrom (fun _ rest => matcher rest) (some c) (pos + 1) skip t =
        scanFrom (fun _ rest => matcher' rest) (some c) (pos + 1) skip t := by
      intro skip
      rw [scanFrom_before matcher (some c) none, scanFrom_before matcher' (some c) none]
      exact ih (fun behind hbehind => h behind (hbehind.trans (List.suffix_cons c t))) (pos + 1) skip
    cases skip with
    | succ skip => exact hrest skip
    | zero =>
      simp only [scanFrom, hfirst, hrest]

/-- What a matcher reads from a text, place after place. -/
def readings (matcher : Text → Option (α × Nat)) (t : Text) : List α :=
  (matchesFrom matcher 0 t).map Found.value

/-- A match as it is found further on. -/
def Found.shift (n : Nat) (f : Found α) : Found α := { f with start := f.start + n }

theorem filter_map_shift (p : Nat → Bool) (n : Nat) (found : List (Found α)) :
    (found.map (Found.shift n)).filter (fun f => p f.start) =
      (found.filter fun f => p (n + f.start)).map (Found.shift n) := by
  rw [List.filter_map]
  congr 1
  refine List.filter_congr fun f _ => ?_
  rw [Function.comp_apply, Found.shift, Nat.add_comm n]

theorem scanFrom_shift (matcher : Matcher α) (before : Option Char) (n pos skip : Nat) (t : Text) :
    scanFrom matcher before (pos + n) skip t =
      (scanFrom matcher before pos skip t).map (.shift n) := by
  induction t generalizing before pos skip with
  | nil =>
    cases skip with
    | succ skip => rfl
    | zero =>
      rw [scanFrom, scanFrom]
      split
      · rfl
      · rfl
  | cons c t ih =>
    have hrest : ∀ skip, scanFrom matcher (some c) (pos + n + 1) skip t =
        (scanFrom matcher (some c) (pos + 1) skip t).map (.shift n) := fun skip => by
      rw [Nat.add_right_comm, ih]
    cases skip with
    | succ skip => exact hrest skip
    | zero =>
      rw [scanFrom, scanFrom]
      split
      · rw [List.map_cons, hrest]
        rfl
      · exact hrest 0

/-- What is found from a position on is what is found from the beginning on, further on. -/
theorem matchesFrom_eq_map (matcher : Text → Option (α × Nat)) (pos : Nat) (t : Text) :
    matchesFrom matcher pos t = (matchesFrom matcher 0 t).map (.shift pos) := by
  rw [matchesFrom, matchesFrom, ← scanFrom_shift, Nat.zero_add]

theorem map_value_matchesFrom (matcher : Text → Option (α × Nat)) (pos : Nat) (t : Text) :
    (matchesFrom matcher pos t).map Found.value = readings matcher t := by
  rw [matchesFrom_eq_map, List.map_map]
  rfl

theorem readings_append_of_some {value : α} (ht : t ≠ [])
    (h : matcher (t ++ u) = some (value, t.length)) :
    readings matcher (t ++ u) = value :: readings matcher u := by
  rw [readings, matchesFrom_append_of_some ht h, List.map_cons, map_value_matchesFrom]

theorem readings_append_of_none (h : ∀ x y, t = x ++ y → y ≠ [] → matcher (y ++ u) = none) :
    readings matcher (t ++ u) = readings matcher u := by
  rw [readings, matchesFrom_append_of_none h, map_value_matchesFrom]

theorem readings_append_of_forall (h : ∀ c ∈ t, ∀ rest, matcher (c :: rest) = none) :
    readings matcher (t ++ u) = readings matcher u := by
  rw [readings, matchesFrom_append_of_forall h, map_value_matchesFrom]

theorem readings_of_forall (hnil : matcher [] = none)
    (h : ∀ c ∈ t, ∀ rest, matcher (c :: rest) = none) : readings matcher t = [] := by
  have hall : readings matcher (t ++ []) = readings matcher [] := readings_append_of_forall h
  rw [List.append_nil] at hall
  rw [hall, readings, matchesFrom, scanFrom, hnil, List.map_nil]

theorem readings_cons_of_none {c : Char} (h : matcher (c :: t) = none) :
    readings matcher (c :: t) = readings matcher t := by
  rw [readings, matchesFrom_cons_of_none h, map_value_matchesFrom]

theorem readings_nil (h : matcher [] = none) : readings matcher [] = [] := by
  simp only [readings, matchesFrom, scanFrom, h]
  rfl

/-- A scan finds nothing exactly if its matcher reads nothing anywhere. -/
theorem scan_eq_nil_iff :
    scan (fun _ rest => matcher rest) t = [] ↔ ∀ behind, behind <:+ t → matcher behind = none := by
  change matchesFrom matcher 0 t = [] ↔ _
  generalize 0 = pos
  induction t generalizing pos with
  | nil =>
    simp only [List.suffix_nil, forall_eq, matchesFrom, scanFrom]
    cases matcher [] with
    | none => simp
    | some read => simp
  | cons c t ih =>
    simp only [List.suffix_cons_iff, forall_eq_or_imp]
    cases hfirst : matcher (c :: t) with
    | none => rw [matchesFrom_cons_of_none hfirst, ih]; simp
    | some read => simp [matchesFrom, scanFrom, hfirst]

/-! ### The first match -/

theorem firstMatch?_eq_none_iff {matcher : Text → Option α} :
    firstMatch? matcher t = none ↔ ∀ behind, behind <:+ t → matcher behind = none := by
  induction t with
  | nil => simp only [firstMatch?, List.suffix_nil, forall_eq]
  | cons c t ih =>
    simp only [List.suffix_cons_iff, forall_eq_or_imp, firstMatch?]
    cases hfirst : matcher (c :: t) with
    | none => simp [ih]
    | some value => simp

theorem firstMatch?_of_some {matcher : Text → Option α} {value : α} (h : matcher t = some value) :
    firstMatch? matcher t = some value := by
  cases t with
  | nil => exact h
  | cons c t => simp only [firstMatch?, h]

/-- Where nothing is read the search for the first match passes. -/
theorem firstMatch?_append_of_none {matcher : Text → Option α}
    (h : ∀ x y, t = x ++ y → y ≠ [] → matcher (y ++ u) = none) :
    firstMatch? matcher (t ++ u) = firstMatch? matcher u := by
  induction t with
  | nil => rfl
  | cons c t ih =>
    have hfirst : matcher (c :: (t ++ u)) = none := h [] (c :: t) rfl (List.cons_ne_nil c t)
    have hrest : firstMatch? matcher (t ++ u) = firstMatch? matcher u :=
      ih fun x y hxy hy => h (c :: x) y (by rw [hxy]; rfl) hy
    simp only [List.cons_append, firstMatch?, hfirst, hrest]

/-! ### Parts -/

/-- A text in which nothing to cut at begins is one part. -/
theorem splitFrom_of_zero {lengthAt : Text → Nat}
    (h : ∀ x y, t = x ++ y → y ≠ [] → lengthAt y = 0) : splitFrom lengthAt 0 t = [t] := by
  induction t with
  | nil => rfl
  | cons c t ih =>
    have hfirst : lengthAt (c :: t) = 0 := h [] (c :: t) rfl (List.cons_ne_nil c t)
    have hrest := ih fun x y hxy hy => h (c :: x) y (by rw [hxy]; rfl) hy
    simp only [splitFrom, hfirst, hrest]

end Localize.Text
