import Localize.Proofs.Glossary.Token

/-!
# Exchanging parts of a text

Spans that stand in a text, from the right to the left and apart from one another, are exchanged for
new texts at once: what stands before the first of them is left to the others, and what stands
behind it stays. Splicing tokens one after another is such an exchange, and so is putting final
texts in place of the tokens again, as long as the text that comes out does not hold the mark.
-/

namespace Localize

namespace Span

/-- The span stands in the text at its place. -/
def In (s : Span) (t : Text) : Prop := ∃ a b, t = a ++ s.text ++ b ∧ s.start = a.length

/-- Spans from the right to the left, none reaching into the one before it. -/
def Apart (spans : List Span) : Prop := spans.Pairwise fun s s' => s'.stop ≤ s.start

/-- The text with new texts in place of spans that stand apart, all exchanged at once. -/
def exchange (t : Text) : List (Text × Span) → Text
  | [] => t
  | (new, s) :: rest => exchange (Text.takeTo s.start t) rest ++ new ++ Text.dropTo s.stop t

theorem takeTo_start {s : Span} {t a b : Text} (ht : t = a ++ s.text ++ b)
    (hs : s.start = a.length) : Text.takeTo s.start t = a := by
  rw [hs, Text.takeTo_natCast, ht, List.append_assoc, List.take_left]

theorem dropTo_stop {s : Span} {t a b : Text} (ht : t = a ++ s.text ++ b)
    (hs : s.start = a.length) : Text.dropTo s.stop t = b := by
  have hstop : s.stop = ((a ++ s.text).length : Nat) := by
    rw [stop, hs, List.length_append]
    omega
  rw [hstop, Text.dropTo_natCast, ht, List.drop_left]

theorem exchange_cons {s : Span} {t a b : Text} (ht : t = a ++ s.text ++ b)
    (hs : s.start = a.length) (new : Text) (rest : List (Text × Span)) :
    exchange t ((new, s) :: rest) = exchange a rest ++ new ++ b := by
  rw [exchange, takeTo_start ht hs, dropTo_stop ht hs]

/-- A span further left stands in the text before the other one. -/
theorem In.before {s : Span} {t a b : Text} (h : s.In t) (ht : t = a ++ b)
    (hs : s.stop ≤ a.length) : s.In a := by
  obtain ⟨c, d, hc, hstart⟩ := h
  have hlen : (c ++ s.text).length ≤ a.length := by
    rw [stop, hstart] at hs
    rw [List.length_append]
    omega
  have hct : c ++ s.text <+: t := ⟨d, hc.symm⟩
  have hat : a <+: t := ⟨b, ht.symm⟩
  obtain ⟨e, he⟩ := List.prefix_of_prefix_length_le hct hat hlen
  exact ⟨c, e, he.symm, hstart⟩

/-- The spans that follow one of a list of spans apart stand in the text before that one. -/
theorem in_before_of_apart {s : Span} {rest : List Span} {t a b : Text}
    (hin : ∀ s' ∈ s :: rest, s'.In t) (hapart : Apart (s :: rest)) (ht : t = a ++ s.text ++ b)
    (hs : s.start = a.length) : (∀ s' ∈ rest, s'.In a) ∧ Apart rest := by
  have hp := List.pairwise_cons.mp hapart
  refine ⟨?_, hp.2⟩
  intro s' hs'
  have hstop := hp.1 s' hs'
  rw [hs] at hstop
  exact (hin s' (List.mem_cons_of_mem _ hs')).before (ht.trans (List.append_assoc _ _ _)) hstop

/-- Exchanging every span for its own text changes nothing. -/
theorem exchange_self {spans : List Span} {t : Text} (hin : ∀ s ∈ spans, s.In t)
    (hapart : Apart spans) : exchange t (spans.map fun s => (s.text, s)) = t := by
  induction spans generalizing t with
  | nil => rfl
  | cons s rest ih =>
    obtain ⟨a, b, ht, hs⟩ := hin s List.mem_cons_self
    obtain ⟨hin', hapart'⟩ := in_before_of_apart hin hapart ht hs
    rw [List.map_cons, exchange_cons ht hs, ih hin' hapart', ← ht]

/-! ### The selection -/

theorem keepDisjoint_sublist (boundary : Option Int) (spans : List Span) :
    (keepDisjoint boundary spans).Sublist spans := by
  induction spans generalizing boundary with
  | nil => exact List.Sublist.slnil
  | cons s rest ih =>
    unfold keepDisjoint
    split
    · exact (ih boundary).cons s
    · exact (ih (some s.start)).cons_cons s

theorem stop_le_of_mem_keepDisjoint {b : Int} {spans : List Span} {s : Span}
    (h : s ∈ keepDisjoint (some b) spans) : s.stop ≤ b := by
  induction spans generalizing b with
  | nil => cases h
  | cons s' rest ih =>
    unfold keepDisjoint at h
    split at h
    · exact ih h
    · next hb =>
      have hs' : s'.stop ≤ b := by simpa using hb
      rcases List.mem_cons.mp h with h | h
      · exact h ▸ hs'
      · have hstart := ih h
        have hle : s'.start ≤ s'.stop := by
          rw [stop]
          omega
        omega

theorem apart_keepDisjoint (boundary : Option Int) (spans : List Span) :
    Apart (keepDisjoint boundary spans) := by
  induction spans generalizing boundary with
  | nil => exact List.Pairwise.nil
  | cons s rest ih =>
    unfold keepDisjoint
    split
    · exact ih boundary
    · exact List.pairwise_cons.mpr ⟨fun _ h => stop_le_of_mem_keepDisjoint h, ih (some s.start)⟩

theorem apart_select (spans : List Span) : Apart (select spans) :=
  apart_keepDisjoint none _

theorem mem_of_mem_select {spans : List Span} {s : Span} (h : s ∈ select spans) : s ∈ spans :=
  (sortBy_perm precedes spans).mem_iff.mp ((keepDisjoint_sublist none _).subset h)

/-- The second span begins further left, or at the same place and is not longer. -/
def Behind (s s' : Span) : Prop :=
  s'.start < s.start ∨ s'.start = s.start ∧ s'.text.length ≤ s.text.length

theorem Behind.start_le {s s' : Span} (h : Behind s s') : s'.start ≤ s.start := by
  unfold Behind at h
  omega

/-- From the right to the left, the longest first where several begin. -/
theorem pairwise_sortBy_precedes (spans : List Span) :
    (sortBy precedes spans).Pairwise Behind := by
  apply pairwise_sortBy
  · intro s s' h
    simp only [precedes, Bool.or_eq_true, Bool.and_eq_true, decide_eq_true_eq] at h
    unfold Behind
    omega
  · intro s s' h
    simp only [precedes, Bool.or_eq_false_iff, Bool.and_eq_false_iff, decide_eq_false_iff_not] at h
    unfold Behind
    omega
  · intro s s' s'' h h'
    unfold Behind at *
    omega

/-- A span that is dropped reaches over the boundary or over the beginning of one that is kept, begins
within it and, where both begin together, is as long at least. -/
theorem exists_mem_keepDisjoint {boundary : Option Int} {spans : List Span} {s : Span}
    (hsorted : spans.Pairwise Behind) (hs : s ∈ spans) (hne : s.text ≠ []) :
    (∃ s' ∈ keepDisjoint boundary spans, s'.start < s.stop ∧ Behind s' s) ∨
      ∃ b, boundary = some b ∧ b < s.stop := by
  induction spans generalizing boundary with
  | nil => cases hs
  | cons s₁ rest ih =>
    obtain ⟨hfirst, hrest⟩ := List.pairwise_cons.mp hsorted
    unfold keepDisjoint
    split
    · next hover =>
      rcases List.mem_cons.mp hs with hs | hs
      · subst hs
        right
        cases boundary with
        | none => cases hover
        | some b => exact ⟨b, rfl, of_decide_eq_true hover⟩
      · exact ih hrest hs
    · left
      rcases List.mem_cons.mp hs with hs | hs
      · subst hs
        have hlength : 0 < s.text.length := List.length_pos_of_ne_nil hne
        refine ⟨s, List.mem_cons_self, ?_, .inr ⟨rfl, Nat.le_refl _⟩⟩
        rw [stop]
        omega
      · have hlater : (∃ s' ∈ keepDisjoint (some s₁.start) rest,
            s'.start < s.stop ∧ Behind s' s) ∨ ∃ b, some s₁.start = some b ∧ b < s.stop :=
          ih hrest hs
        rcases hlater with ⟨s', hs', hreach⟩ | ⟨b, hb, hreach⟩
        · exact ⟨s', List.mem_cons_of_mem _ hs', hreach⟩
        · cases hb
          exact ⟨s₁, List.mem_cons_self, hreach, hfirst s hs⟩

/-- In every span that is not empty one of those selected begins. -/
theorem exists_mem_select {spans : List Span} {s : Span} (hs : s ∈ spans) (hne : s.text ≠ []) :
    ∃ s' ∈ select spans, s'.start < s.stop ∧ Behind s' s := by
  have hs' : s ∈ sortBy precedes spans := (sortBy_perm precedes spans).mem_iff.mpr hs
  have hkept : (∃ s' ∈ keepDisjoint none (sortBy precedes spans),
      s'.start < s.stop ∧ Behind s' s) ∨ ∃ b, none = some b ∧ b < s.stop :=
    exists_mem_keepDisjoint (pairwise_sortBy_precedes spans) hs' hne
  rcases hkept with h | ⟨b, hb, -⟩
  · exact h
  · cases hb

end Span

namespace Placeholder

open Localize.Span

/-- Spans with the tokens they get, counted up from a number. -/
def numbered : Nat → List Span → List (Text × Span)
  | _, [] => []
  | n, s :: rest => (token n, s) :: numbered (n + 1) rest

theorem numbered_eq_map (n : Nat) (spans : List Span) :
    (numbered n spans).map Prod.fst = (List.range' n spans.length).map token := by
  induction spans generalizing n with
  | nil => rfl
  | cons s rest ih => rw [numbered, List.map_cons, ih, List.length_cons, List.range'_succ,
      List.map_cons]

theorem numbered_map_snd (n : Nat) (spans : List Span) :
    (numbered n spans).map Prod.snd = spans := by
  induction spans generalizing n with
  | nil => rfl
  | cons s rest ih => rw [numbered, List.map_cons, ih]

theorem snd_mem_of_mem_numbered {n : Nat} {spans : List Span} {p : Text × Span}
    (h : p ∈ numbered n spans) : p.2 ∈ spans := by
  rw [← numbered_map_snd n spans]
  exact List.mem_map_of_mem h

theorem spliceAll_replaced (t : Text) (n : Nat) (spans : List Span) :
    (spliceAll t n spans).replaced = numbered n spans := by
  induction spans generalizing t n with
  | nil => rfl
  | cons s rest ih => exact congrArg ((token n, s) :: ·) (ih _ (n + 1))

theorem spliceAll_next (t : Text) (n : Nat) (spans : List Span) :
    (spliceAll t n spans).next = n + spans.length := by
  induction spans generalizing t n with
  | nil => rfl
  | cons s rest ih =>
    have h := ih (splice t s (token n)) (n + 1)
    rw [List.length_cons]
    change (spliceAll (splice t s (token n)) (n + 1) rest).next = _
    omega

/-- Splicing one token after another leaves what follows the text alone: the spans still to come
stand before the tokens spliced in. -/
theorem spliceAll_text_append {spans : List Span} {t : Text} (hin : ∀ s ∈ spans, s.In t)
    (hapart : Apart spans) (n : Nat) (u : Text) :
    (spliceAll (t ++ u) n spans).text = exchange t (numbered n spans) ++ u := by
  induction spans generalizing t n u with
  | nil => rfl
  | cons s rest ih =>
    obtain ⟨a, b, ht, hs⟩ := hin s List.mem_cons_self
    obtain ⟨hin', hapart'⟩ := in_before_of_apart hin hapart ht hs
    have htu : t ++ u = a ++ s.text ++ (b ++ u) := by
      rw [ht, List.append_assoc]
    have hsplice : splice (t ++ u) s (token n) = a ++ (token n ++ (b ++ u)) := by
      rw [splice, takeTo_start htu hs, dropTo_stop htu hs, List.append_assoc]
    change (spliceAll (splice (t ++ u) s (token n)) (n + 1) rest).text = _
    rw [hsplice, ih hin' hapart', numbered, exchange_cons ht hs]
    simp only [List.append_assoc]

theorem spliceAll_text {spans : List Span} {t : Text} (hin : ∀ s ∈ spans, s.In t)
    (hapart : Apart spans) (n : Nat) :
    (spliceAll t n spans).text = exchange t (numbered n spans) := by
  have h := spliceAll_text_append hin hapart n []
  simpa only [List.append_nil] using h

/-- What stands before and behind a part of a text holds only what the text holds. -/
theorem not_infix_of_append {part t a s b : Text} (ht : t = a ++ s ++ b) (h : ¬ part <:+: t) :
    ¬ part <:+: a ∧ ¬ part <:+: b := by
  have ha : a <:+: t := by
    rw [ht, List.append_assoc]
    exact List.infix_append' [] a (s ++ b)
  have hb : b <:+: t := by
    rw [ht]
    exact (List.suffix_append (a ++ s) b).isInfix
  constructor
  · intro hpart
    exact h (hpart.trans ha)
  · intro hpart
    exact h (hpart.trans hb)

/-- A text without the mark in which tokens have been put is woven. -/
theorem woven_exchange {spans : List Span} {t : Text} (hin : ∀ s ∈ spans, s.In t)
    (hapart : Apart spans) (hmark : ¬ mark <:+: t) (n : Nat) :
    Woven n spans.length (exchange t (numbered n spans)) := by
  induction spans generalizing t n with
  | nil => exact .plain hmark
  | cons s rest ih =>
    obtain ⟨a, b, ht, hs⟩ := hin s List.mem_cons_self
    obtain ⟨hin', hapart'⟩ := in_before_of_apart hin hapart ht hs
    obtain ⟨ha, hb⟩ := not_infix_of_append ht hmark
    rw [numbered, exchange_cons ht hs]
    exact .weave (ih hin' hapart' ha (n + 1)) hb

/-! ### Putting final texts in place of tokens -/

theorem restore_append (t : Text) (first second : List (Text × Text)) :
    restore t (first ++ second) = restore (restore t first) second :=
  List.foldl_append

theorem restore_of_not_infix {t : Text} {finals : List (Text × Text)}
    (h : ∀ p ∈ finals, ¬ p.1 <:+: t) : restore t finals = t := by
  induction finals with
  | nil => rfl
  | cons p rest ih =>
    have hp : Text.replaceAll p.1 p.2 t = t :=
      Text.replaceAll_of_not_infix (h p List.mem_cons_self) p.2
    change restore (Text.replaceAll p.1 p.2 t) rest = t
    rw [hp]
    exact ih fun q hq => h q (List.mem_cons_of_mem _ hq)

/-- The rightmost token of a woven text gives way. -/
theorem replaceAll_token {n k : Nat} {u c : Text} (hw : Woven (n + 1) k u) (hc : ¬ mark <:+: c)
    (new : Text) : Text.replaceAll (token n) new (u ++ token n ++ c) = u ++ new ++ c := by
  have hwhole : Woven n (k + 1) (u ++ token n ++ c) := .weave hw hc
  refine Text.replaceAll_of_unique (token_ne_nil n) ?_ (token_not_infix_of_mark hc n) new
  intro x y h
  exact (hwhole.token_unique h.symm rfl).1

/-- Tokens give way one after another from the right to the left, and the outcome is one exchange:
the text behind the place reached is already final, so it does not hold the mark. -/
theorem restore_exchange_append {spans : List Span} {t : Text} (hin : ∀ s ∈ spans, s.In t)
    (hapart : Apart spans) (hmark : ¬ mark <:+: t) (final : Span → Text) (n : Nat) (u : Text)
    (hfinal : ¬ mark <:+: exchange t (spans.map fun s => (final s, s)) ++ u) :
    restore (exchange t (numbered n spans) ++ u)
      ((numbered n spans).map fun p => (p.1, final p.2)) =
      exchange t (spans.map fun s => (final s, s)) ++ u := by
  induction spans generalizing t n u with
  | nil => rfl
  | cons s rest ih =>
    obtain ⟨a, b, ht, hs⟩ := hin s List.mem_cons_self
    obtain ⟨hin', hapart'⟩ := in_before_of_apart hin hapart ht hs
    obtain ⟨ha, -⟩ := not_infix_of_append ht hmark
    have hafter : exchange t ((s :: rest).map fun s => (final s, s)) ++ u =
        exchange a (rest.map fun s => (final s, s)) ++ (final s ++ (b ++ u)) := by
      rw [List.map_cons, exchange_cons ht hs]
      simp only [List.append_assoc]
    rw [hafter] at hfinal ⊢
    have hbu : ¬ mark <:+: b ++ u := by
      intro h
      refine hfinal (h.trans ⟨exchange a (rest.map fun s => (final s, s)) ++ final s, [], ?_⟩)
      simp
    have hbefore : exchange t (numbered n (s :: rest)) ++ u =
        exchange a (numbered (n + 1) rest) ++ token n ++ (b ++ u) := by
      rw [numbered, exchange_cons ht hs, List.append_assoc]
    have hstep := replaceAll_token (woven_exchange hin' hapart' ha (n + 1)) hbu (final s)
    rw [hbefore, numbered, List.map_cons]
    change restore (Text.replaceAll (token n) (final s) _) _ = _
    rw [hstep, List.append_assoc]
    exact ih hin' hapart' ha (n + 1) _ hfinal

theorem restore_exchange {spans : List Span} {t : Text} (hin : ∀ s ∈ spans, s.In t)
    (hapart : Apart spans) (hmark : ¬ mark <:+: t) (final : Span → Text) (n : Nat)
    (hfinal : ¬ mark <:+: exchange t (spans.map fun s => (final s, s))) :
    restore (exchange t (numbered n spans)) ((numbered n spans).map fun p => (p.1, final p.2)) =
      exchange t (spans.map fun s => (final s, s)) := by
  have h := restore_exchange_append hin hapart hmark final n []
  simp only [List.append_nil] at h
  exact h hfinal

end Placeholder

end Localize
