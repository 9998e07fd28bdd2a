import Localize.Proofs.Glossary.Occurrence
import Localize.Proofs.Table

/-!
# Strings prepared for translation

Strings that are exactly a term are settled, and the others keep their order. The strings sent are
the others with tokens in place of their terms; the tokens are numbered through all of them, so a
token belongs to one string, and strings without the mark that differ are sent as texts that differ.
Restoring a string sent touches only its own tokens.
-/

namespace Localize.Glossary

open Localize.Span Placeholder

variable {g : Glossary} {language : Text}

/-! ### Settled strings -/

theorem foldl_settleNext (g : Glossary) (language : Text) (strings : List Text) (s : Settled) :
    strings.foldl (g.settleNext language) s =
      ⟨s.pending ++ strings.filter fun t => (g.wholeTerm? language t).isNone,
        Table.merge s.finals
          (strings.filterMap fun t => (g.wholeTerm? language t).map (t, ·))⟩ := by
  induction strings generalizing s with
  | nil =>
    rw [List.foldl_nil, List.filter_nil, List.append_nil]
    rfl
  | cons t rest ih =>
    rw [List.foldl_cons, ih, settleNext]
    cases h : g.wholeTerm? language t with
    | some final =>
      simp only [List.filter_cons, List.filterMap_cons, h, Option.map_some, Option.isNone_some,
        Bool.false_eq_true, if_false]
      rfl
    | none =>
      simp only [List.filter_cons, List.filterMap_cons, h, Option.map_none, Option.isNone_none,
        if_true, List.append_assoc, List.singleton_append]

theorem settle_eq (g : Glossary) (language : Text) (strings : List Text) :
    g.settle language strings =
      ⟨strings.filter fun t => (g.wholeTerm? language t).isNone,
        Table.ofPairs (strings.filterMap fun t => (g.wholeTerm? language t).map (t, ·))⟩ :=
  foldl_settleNext g language strings ⟨[], []⟩

theorem mem_settle_pending {strings : List Text} {t : Text} :
    t ∈ (g.settle language strings).pending ↔ t ∈ strings ∧ g.wholeTerm? language t = none := by
  rw [settle_eq, List.mem_filter, Option.isNone_iff_eq_none]

theorem settle_pending_sublist (g : Glossary) (language : Text) (strings : List Text) :
    (g.settle language strings).pending.Sublist strings := by
  rw [settle_eq]
  exact List.filter_sublist

/-- The forms of settled strings are those of the terms that they are. -/
theorem find?_settle_finals (g : Glossary) (language : Text) (strings : List Text) (t : Text) :
    Table.find? (g.settle language strings).finals t =
      if t ∈ strings then g.wholeTerm? language t else none := by
  rw [settle_eq]
  exact Table.find?_ofPairs_filterMap strings _ t

theorem mem_keys_settle_finals {strings : List Text} {t : Text} :
    t ∈ (g.settle language strings).finals.keys ↔
      t ∈ strings ∧ g.wholeTerm? language t ≠ none := by
  rw [Table.mem_keys_iff, find?_settle_finals]
  split
  · next ht => simp [ht, Option.isSome_iff_ne_none]
  · next ht => simp [ht]

/-! ### Strings sent -/

/-- The strings as they are sent, their tokens counted up from a number. -/
def sentFrom (g : Glossary) (language : Text) : Nat → List Text → List Text
  | _, [] => []
  | n, t :: rest =>
    exchange t (numbered n (g.kept language t)) ::
      sentFrom g language (n + (g.kept language t).length) rest

/-- What the tokens of a text stand for, counted up from a number. -/
def reserve (g : Glossary) (language t : Text) (n : Nat) : Reservations :=
  (numbered n (g.kept language t)).filterMap fun p =>
    (reservation? (g.candidates language t) p.2).map fun r => (p.1, r)

/-- What the tokens of all strings stand for. -/
def reservedFrom (g : Glossary) (language : Text) : Nat → List Text → Reservations
  | _, [] => []
  | n, t :: rest =>
    g.reserve language t n ++ reservedFrom g language (n + (g.kept language t).length) rest

/-- How many spans of the strings give way to tokens. -/
def keptIn (g : Glossary) (language : Text) (strings : List Text) : Nat :=
  (strings.flatMap (g.kept language)).length

theorem keptIn_nil (g : Glossary) (language : Text) : g.keptIn language [] = 0 := rfl

theorem keptIn_cons (g : Glossary) (language t : Text) (rest : List Text) :
    g.keptIn language (t :: rest) = (g.kept language t).length + g.keptIn language rest := by
  rw [keptIn, List.flatMap_cons, List.length_append]
  rfl

theorem prepareNext_ok_iff {p p' : Prepared} {t : Text} :
    g.prepareNext language p t = .ok p' ↔ (∃ found, g.reservable language t = .ok found) ∧
      p' = ⟨p.strings ++ [exchange t (numbered p.next (g.kept language t))],
        p.reservations ++ g.reserve language t p.next,
        p.next + (g.kept language t).length⟩ := by
  have hprotect : ∀ found, g.reservable language t = .ok found →
      Placeholder.protect t (found.map fun c => c.1.span) p.next =
        ⟨exchange t (numbered p.next (g.kept language t)),
          numbered p.next (g.kept language t), p.next + (g.kept language t).length⟩ := by
    intro found hfound
    have hkept : Span.select (found.map fun c => c.1.span) = g.kept language t := by
      rw [kept, candidates, hfound]
    have htext := spliceAll_text (fun _ => in_of_mem_kept) (apart_kept g language t) p.next
    have hreplaced := spliceAll_replaced t p.next (g.kept language t)
    have hnext := spliceAll_next t p.next (g.kept language t)
    rw [Placeholder.protect, hkept, ← htext, ← hreplaced, ← hnext]
  unfold prepareNext
  rw [bind_ok_iff]
  constructor
  · rintro ⟨found, hfound, h⟩
    have hcand : g.candidates language t = found := by rw [candidates, hfound]
    simp only [hprotect found hfound] at h
    cases h
    exact ⟨⟨found, hfound⟩, by rw [reserve, hcand]⟩
  · rintro ⟨⟨found, hfound⟩, rfl⟩
    have hcand : g.candidates language t = found := by rw [candidates, hfound]
    refine ⟨found, hfound, ?_⟩
    simp only [hprotect found hfound, reserve, hcand]
    rfl

theorem foldlM_prepareNext_ok_iff {strings : List Text} {p p' : Prepared} :
    strings.foldlM (g.prepareNext language) p = .ok p' ↔
      (∀ t ∈ strings, ∃ found, g.reservable language t = .ok found) ∧
      p' = ⟨p.strings ++ g.sentFrom language p.next strings,
        p.reservations ++ g.reservedFrom language p.next strings,
        p.next + g.keptIn language strings⟩ := by
  induction strings generalizing p with
  | nil =>
    rw [List.foldlM_nil]
    constructor
    · intro h
      cases h
      exact ⟨fun t ht => absurd ht List.not_mem_nil, by simp [sentFrom, reservedFrom, keptIn_nil]⟩
    · rintro ⟨-, rfl⟩
      simp only [sentFrom, reservedFrom, keptIn_nil, List.append_nil, Nat.add_zero]
      rfl
  | cons t rest ih =>
    have hp : (⟨(p.strings ++ [exchange t (numbered p.next (g.kept language t))]) ++
          g.sentFrom language (p.next + (g.kept language t).length) rest,
        (p.reservations ++ g.reserve language t p.next) ++
          g.reservedFrom language (p.next + (g.kept language t).length) rest,
        (p.next + (g.kept language t).length) + g.keptIn language rest⟩ : Prepared) =
        ⟨p.strings ++ g.sentFrom language p.next (t :: rest),
          p.reservations ++ g.reservedFrom language p.next (t :: rest),
          p.next + g.keptIn language (t :: rest)⟩ := by
      simp only [sentFrom, reservedFrom, keptIn_cons, List.append_assoc, List.singleton_append,
        Nat.add_assoc]
    rw [List.foldlM_cons, bind_ok_iff]
    constructor
    · rintro ⟨q, hq, h⟩
      obtain ⟨ht, rfl⟩ := prepareNext_ok_iff.mp hq
      obtain ⟨hrest, rfl⟩ := ih.mp h
      exact ⟨List.forall_mem_cons.mpr ⟨ht, hrest⟩, hp⟩
    · rintro ⟨hall, rfl⟩
      obtain ⟨ht, hrest⟩ := List.forall_mem_cons.mp hall
      exact ⟨_, prepareNext_ok_iff.mpr ⟨ht, rfl⟩, ih.mpr ⟨hrest, hp.symm⟩⟩

theorem protect_ok_iff {strings : List Text} {p : Prepared} :
    g.protect language strings = .ok p ↔
      (∀ t ∈ strings, ∃ found, g.find t = .ok found) ∧
      p = ⟨g.sentFrom language 0 strings, g.reservedFrom language 0 strings,
        0 + g.keptIn language strings⟩ := by
  have hfind : ∀ t, (∃ found, g.reservable language t = .ok found) ↔
      ∃ found, g.find t = .ok found := by
    intro t
    unfold reservable
    constructor
    · rintro ⟨_, h⟩
      obtain ⟨found, hfound, -⟩ := bind_ok_iff.mp h
      exact ⟨found, hfound⟩
    · rintro ⟨found, hfound⟩
      exact ⟨_, bind_ok_iff.mpr ⟨found, hfound, rfl⟩⟩
  simp only [← hfind]
  exact foldlM_prepareNext_ok_iff

theorem Textual.protect_eq (h : g.Textual) (language : Text) (strings : List Text) :
    g.protect language strings = .ok ⟨g.sentFrom language 0 strings,
      g.reservedFrom language 0 strings, 0 + g.keptIn language strings⟩ :=
  foldlM_prepareNext_ok_iff.mpr ⟨fun t _ => h.reservable_ok language t, rfl⟩

theorem exists_reservation_of_mem {p : Text × Reserved} {n : Nat} {strings : List Text}
    (h : p ∈ g.reservedFrom language n strings) : ∃ t ∈ strings, ∃ s ∈ g.kept language t,
      reservation? (g.candidates language t) s = some p.2 := by
  induction strings generalizing n with
  | nil => cases h
  | cons t rest ih =>
    rcases List.mem_append.mp h with h | h
    · obtain ⟨q, hq, hp⟩ := List.mem_filterMap.mp h
      obtain ⟨r, hr, rfl⟩ := Option.map_eq_some_iff.mp hp
      exact ⟨t, List.mem_cons_self, q.2, snd_mem_of_mem_numbered hq, hr⟩
    · obtain ⟨t', ht', hs⟩ := ih h
      exact ⟨t', List.mem_cons_of_mem t ht', hs⟩

/-- A preparation that succeeds, in terms of what is settled and what is kept. -/
theorem prepare_ok_iff {strings : List Text} {prepared : Preparation} :
    g.prepare language strings = .ok prepared ↔
      (∀ t ∈ (g.settle language strings).pending,
        ∃ found, g.reservable language t = .ok found) ∧
      prepared = ⟨(g.settle language strings).finals, (g.settle language strings).pending,
        g.sentFrom language 0 (g.settle language strings).pending,
        g.reservedFrom language 0 (g.settle language strings).pending⟩ := by
  have hprotect : ∀ p : Prepared,
      g.protect language (g.settle language strings).pending = .ok p ↔
      (∀ t ∈ (g.settle language strings).pending,
        ∃ found, g.reservable language t = .ok found) ∧
      p = ⟨g.sentFrom language 0 (g.settle language strings).pending,
        g.reservedFrom language 0 (g.settle language strings).pending,
        0 + g.keptIn language (g.settle language strings).pending⟩ := fun _ =>
    foldlM_prepareNext_ok_iff
  unfold prepare
  simp only [bind_ok_iff, hprotect]
  constructor
  · rintro ⟨p, ⟨hall, rfl⟩, h⟩
    cases h
    exact ⟨hall, rfl⟩
  · rintro ⟨hall, rfl⟩
    exact ⟨_, ⟨hall, rfl⟩, rfl⟩

theorem Textual.prepare_eq (h : g.Textual) (language : Text) (strings : List Text) :
    g.prepare language strings =
      .ok ⟨(g.settle language strings).finals, (g.settle language strings).pending,
        g.sentFrom language 0 (g.settle language strings).pending,
        g.reservedFrom language 0 (g.settle language strings).pending⟩ :=
  prepare_ok_iff.mpr ⟨fun t _ => h.reservable_ok language t, rfl⟩

theorem length_sentFrom (g : Glossary) (language : Text) (n : Nat) (strings : List Text) :
    (g.sentFrom language n strings).length = strings.length := by
  induction strings generalizing n with
  | nil => rfl
  | cons t rest ih => rw [sentFrom, List.length_cons, List.length_cons, ih]

/-- The string sent in place of another: its own tokens follow those of the strings before it. -/
theorem sentFrom_getElem? (g : Glossary) (language : Text) (n : Nat) (strings : List Text)
    (i : Nat) : (g.sentFrom language n strings)[i]? = strings[i]?.map fun t =>
      exchange t (numbered (n + g.keptIn language (strings.take i)) (g.kept language t)) := by
  induction strings generalizing n i with
  | nil => rfl
  | cons t rest ih =>
    cases i with
    | zero => rfl
    | succ i =>
      rw [sentFrom, List.getElem?_cons_succ, List.getElem?_cons_succ, ih, List.take_succ_cons]
      simp only [keptIn_cons, Nat.add_assoc]

/-- What is sent for a string that holds a term holds the mark. -/
theorem mem_of_mem_sentFrom {n : Nat} {strings : List Text} {u : Text}
    (h : u ∈ g.sentFrom language n strings) (hmark : ¬ mark <:+: u) : u ∈ strings := by
  induction strings generalizing n with
  | nil => cases h
  | cons t rest ih =>
    rcases List.mem_cons.mp h with rfl | h
    · cases hkept : g.kept language t with
      | nil => exact List.mem_cons_self
      | cons s spans =>
        refine absurd ((mark_infix_token n).trans ?_) hmark
        rw [hkept, numbered, exchange]
        exact ⟨_, _, rfl⟩
    · exact List.mem_cons_of_mem t (ih h)

/-! ### Tokens of the strings sent -/

theorem woven_sent {t : Text} (hmark : ¬ mark <:+: t) (g : Glossary) (language : Text) (n : Nat) :
    Woven n (g.kept language t).length (exchange t (numbered n (g.kept language t))) :=
  woven_exchange (fun _ => in_of_mem_kept) (apart_kept g language t) hmark n

theorem woven_of_mem_sentFrom {n : Nat} {strings : List Text} {u : Text}
    (hmark : ∀ t ∈ strings, ¬ mark <:+: t) (h : u ∈ g.sentFrom language n strings) :
    ∃ t ∈ strings, ∃ m, n ≤ m ∧ u = exchange t (numbered m (g.kept language t)) ∧
      Woven m (g.kept language t).length u := by
  induction strings generalizing n with
  | nil => cases h
  | cons t rest ih =>
    obtain ⟨hmt, hmrest⟩ := List.forall_mem_cons.mp hmark
    rcases List.mem_cons.mp h with rfl | h
    · exact ⟨t, List.mem_cons_self, n, Nat.le_refl n, rfl, woven_sent hmt g language n⟩
    · obtain ⟨t', ht', m, hm, hu, hw⟩ := ih hmrest h
      exact ⟨t', List.mem_cons_of_mem _ ht', m, by omega, hu, hw⟩

/-- Strings without the mark that differ are sent as texts that differ. -/
theorem nodup_sentFrom {strings : List Text} (hn : strings.Nodup)
    (hmark : ∀ t ∈ strings, ¬ mark <:+: t) (n : Nat) :
    (g.sentFrom language n strings).Nodup := by
  induction strings generalizing n with
  | nil => exact List.nodup_nil
  | cons t rest ih =>
    obtain ⟨ht, hrest⟩ := List.nodup_cons.mp hn
    obtain ⟨hmt, hmrest⟩ := List.forall_mem_cons.mp hmark
    refine List.nodup_cons.mpr ⟨?_, ih hrest hmrest _⟩
    intro hmem
    obtain ⟨t', ht', m, hm, hu, hw'⟩ := woven_of_mem_sentFrom hmrest hmem
    have hw := woven_sent hmt g language n
    cases hk : g.kept language t with
    | cons s spans =>
      -- the first text holds a token that the other cannot hold
      rw [hk, List.length_cons] at hm hw
      rw [hk] at hw'
      obtain ⟨x, y, hxy⟩ := hw.exists_token (Nat.le_refl n) (by omega)
      have hnum := hw'.number_of_token hxy
      omega
    | nil =>
      rw [hk] at hu
      change t = exchange t' (numbered m (g.kept language t')) at hu
      cases hk' : g.kept language t' with
      | cons s spans =>
        have hw'' := woven_sent (hmrest t' ht') g language m
        rw [← hu, hk', List.length_cons] at hw''
        obtain ⟨x, y, hxy⟩ := hw''.exists_token (Nat.le_refl m) (by omega)
        exact token_not_infix_of_mark hmt m ⟨x, y, hxy⟩
      | nil =>
        rw [hk'] at hu
        exact ht (hu ▸ ht')

/-- Every token stands at one place of one of the strings sent. -/
theorem existsUnique_token {strings : List Text} (hmark : ∀ t ∈ strings, ¬ mark <:+: t)
    {n k : Nat} (hn : n ≤ k) (hk : k < n + g.keptIn language strings) :
    ∃! p : Nat × Text × Text,
      (g.sentFrom language n strings)[p.1]? = some (p.2.1 ++ token k ++ p.2.2) := by
  induction strings generalizing n with
  | nil =>
    rw [keptIn_nil] at hk
    omega
  | cons t rest ih =>
    obtain ⟨hmt, hmrest⟩ := List.forall_mem_cons.mp hmark
    have hw := woven_sent hmt g language n
    rw [keptIn_cons] at hk
    rw [sentFrom]
    rcases Nat.lt_or_ge k (n + (g.kept language t).length) with hlt | hge
    · obtain ⟨x, y, hxy⟩ := hw.exists_token hn hlt
      refine ⟨(0, x, y), congrArg some hxy.symm, ?_⟩
      rintro ⟨i, x', y'⟩ h
      cases i with
      | zero =>
        rw [List.getElem?_cons_zero] at h
        obtain ⟨hx, hy⟩ := hw.token_unique hxy (Option.some.inj h).symm
        rw [hx, hy]
      | succ i =>
        rw [List.getElem?_cons_succ] at h
        obtain ⟨t', -, m, hm, -, hw'⟩ := woven_of_mem_sentFrom hmrest (List.mem_of_getElem? h)
        have hnum := hw'.number_of_token rfl
        omega
    · obtain ⟨⟨i, x, y⟩, hi, huniq⟩ := ih hmrest hge (by omega)
      refine ⟨(i + 1, x, y), hi, ?_⟩
      rintro ⟨j, x', y'⟩ h
      cases j with
      | zero =>
        rw [List.getElem?_cons_zero] at h
        have hnum := hw.number_of_token (Option.some.inj h).symm
        omega
      | succ j =>
        rw [List.getElem?_cons_succ] at h
        obtain ⟨rfl, hxy⟩ := Prod.mk.inj (huniq (j, x', y') h)
        rw [hxy]

/-! ### Restoring -/

/-- The texts that take the places of the tokens of one text. -/
def finalsAt (g : Glossary) (language t : Text) (n : Nat) : List (Text × Text) :=
  (numbered n (g.kept language t)).map fun p => (p.1, g.finalOf language t p.2)

/-- The texts that take the places of all tokens. -/
def finalsFrom (g : Glossary) (language : Text) : Nat → List Text → List (Text × Text)
  | _, [] => []
  | n, t :: rest =>
    g.finalsAt language t n ++ finalsFrom g language (n + (g.kept language t).length) rest

theorem finalsAt_map_fst (g : Glossary) (language t : Text) (n : Nat) :
    (g.finalsAt language t n).map Prod.fst =
      (List.range' n (g.kept language t).length).map token := by
  rw [finalsAt, List.map_map, ← numbered_eq_map]
  rfl

theorem finalsFrom_eq_map (g : Glossary) (language : Text) (n : Nat) (strings : List Text) :
    (g.finalsFrom language n strings).map Prod.fst =
      (List.range' n (g.keptIn language strings)).map token := by
  induction strings generalizing n with
  | nil => rfl
  | cons t rest ih =>
    rw [finalsFrom, List.map_append, ih, finalsAt_map_fst, keptIn_cons, ← List.map_append,
      List.range'_append_1]

theorem exists_token_of_mem {finals : List (Text × Text)} {n k : Nat}
    (h : finals.map Prod.fst = (List.range' n k).map token) {p : Text × Text} (hp : p ∈ finals) :
    ∃ m, n ≤ m ∧ m < n + k ∧ p.1 = token m := by
  have hfst : p.1 ∈ (List.range' n k).map token := by
    rw [← h]
    exact List.mem_map_of_mem hp
  obtain ⟨m, hm, hp⟩ := List.mem_map.mp hfst
  obtain ⟨hn, hk⟩ := List.mem_range'_1.mp hm
  exact ⟨m, hn, hk, hp.symm⟩

theorem reserve_eq_map (h : g.TextualIn language) (t : Text) (n : Nat) :
    ∃ reserved : Span → Reserved,
      g.reserve language t n = (numbered n (g.kept language t)).map (fun p => (p.1, reserved p.2)) ∧
      ∀ s ∈ g.kept language t, (reserved s).final = .str (g.finalOf language t s) := by
  have hr : ∀ s, ∃ r, s ∈ g.kept language t →
      reservation? (g.candidates language t) s = some r ∧
        r.final = .str (g.finalOf language t s) := by
    intro s
    by_cases hs : s ∈ g.kept language t
    · obtain ⟨r, hr⟩ := h.exists_reservation hs
      exact ⟨r, fun _ => hr⟩
    · exact ⟨⟨[], .null, .null, 0, false⟩, fun hs' => absurd hs' hs⟩
  choose reserved hreserved using hr
  refine ⟨reserved, ?_, fun s hs => (hreserved s hs).2⟩
  rw [reserve, ← List.filterMap_eq_map]
  refine List.filterMap_congr fun p hp => ?_
  rw [(hreserved p.2 (snd_mem_of_mem_numbered hp)).1]
  rfl

theorem restore_cons_of_text {token final : Text} {r : Reserved} (h : r.final = .str final)
    (rest : Reservations) (t : Text) :
    restore ((token, r) :: rest) t = restore rest (Placeholder.restore t [(token, final)]) := by
  simp only [restore, List.foldlM_cons, h]
  rfl

theorem restore_append_of_ok {reservations : Reservations} {t t' : Text}
    (h : restore reservations t = .ok t') (more : Reservations) :
    restore (reservations ++ more) t = restore more t' := by
  unfold restore at h ⊢
  rw [List.foldlM_append, h]
  rfl

theorem restore_reserve (h : g.TextualIn language) (t : Text) (n : Nat) (u : Text) :
    restore (g.reserve language t n) u =
      .ok (Placeholder.restore u (g.finalsAt language t n)) := by
  obtain ⟨reserved, hres, hfinal⟩ := reserve_eq_map h t n
  have hgo : ∀ (pairs : List (Text × Span)), (∀ p ∈ pairs, p.2 ∈ g.kept language t) → ∀ u,
      restore (pairs.map fun p => (p.1, reserved p.2)) u =
        .ok (Placeholder.restore u (pairs.map fun p => (p.1, g.finalOf language t p.2))) := by
    intro pairs
    induction pairs with
    | nil =>
      intro _ u
      rfl
    | cons p rest ih =>
      intro hp u
      have hstep := ih (fun q hq => hp q (List.mem_cons_of_mem _ hq))
        (Placeholder.restore u [(p.1, g.finalOf language t p.2)])
      rw [List.map_cons, restore_cons_of_text (hfinal p.2 (hp p List.mem_cons_self)), hstep]
      rfl
  rw [hres]
  exact hgo _ (fun p hp => snd_mem_of_mem_numbered hp) u

theorem restore_reservedFrom (h : g.TextualIn language) (n : Nat) (strings : List Text)
    (u : Text) : restore (g.reservedFrom language n strings) u =
      .ok (Placeholder.restore u (g.finalsFrom language n strings)) := by
  induction strings generalizing n u with
  | nil => rfl
  | cons t rest ih =>
    rw [reservedFrom, finalsFrom, restore_append_of_ok (restore_reserve h t n u), ih,
      Placeholder.restore_append]

/-- Restoring a table restores each of its texts and keeps the keys. -/
theorem restoreAll_ok {reservations : Reservations} {texts restored : Table Text Text}
    (h : restoreAll reservations texts = .ok restored) :
    restored.keys = texts.keys ∧ ∀ s x, Table.find? texts s = some x →
      ∃ v, restore reservations x = .ok v ∧ Table.find? restored s = some v := by
  unfold restoreAll at h
  rw [mapM_ok_iff] at h
  induction h with
  | nil => exact ⟨rfl, fun s x hx => by cases hx⟩
  | @cons p q texts restored hp _ ih =>
    obtain ⟨hkeys, hvalues⟩ := ih
    obtain ⟨v, hv, hq⟩ := bind_ok_iff.mp hp
    cases hq
    refine ⟨by rw [Table.keys_cons, Table.keys_cons, hkeys], fun s x hx => ?_⟩
    rw [Table.find?_cons] at hx ⊢
    split at hx
    · next hs =>
      cases hx
      exact ⟨v, hv, if_pos hs⟩
    · next hs =>
      rw [if_neg hs]
      exact hvalues s x hx

/-- Of all the tokens only its own matter to a string sent, and they give way to their final texts
at once, if the text that comes out does not hold the mark. -/
theorem restore_sentFrom {strings : List Text} (hmark : ∀ t ∈ strings, ¬ mark <:+: t) {i n : Nat}
    {t u : Text} (ht : strings[i]? = some t) (hu : (g.sentFrom language n strings)[i]? = some u)
    (hfinal : ¬ mark <:+: g.exchanged language t) :
    Placeholder.restore u (g.finalsFrom language n strings) = g.exchanged language t := by
  induction strings generalizing n i with
  | nil => cases ht
  | cons t' rest ih =>
    obtain ⟨hmt, hmrest⟩ := List.forall_mem_cons.mp hmark
    rw [finalsFrom, Placeholder.restore_append]
    cases i with
    | zero =>
      rw [List.getElem?_cons_zero] at ht
      rw [sentFrom, List.getElem?_cons_zero] at hu
      cases ht
      cases hu
      have hown : Placeholder.restore (exchange t (numbered n (g.kept language t)))
          (g.finalsAt language t n) = g.exchanged language t :=
        restore_exchange (fun _ => in_of_mem_kept) (apart_kept g language t) hmt _ n hfinal
      rw [hown]
      refine restore_of_not_infix fun p hp => ?_
      obtain ⟨m, -, -, hm⟩ := exists_token_of_mem (finalsFrom_eq_map g language _ rest) hp
      rw [hm]
      exact token_not_infix_of_mark hfinal m
    | succ i =>
      rw [List.getElem?_cons_succ] at ht
      rw [sentFrom, List.getElem?_cons_succ] at hu
      obtain ⟨t'', -, m, hm, -, hw⟩ := woven_of_mem_sentFrom hmrest (List.mem_of_getElem? hu)
      have hother : Placeholder.restore u (g.finalsAt language t' n) = u := by
        refine restore_of_not_infix fun p hp => ?_
        obtain ⟨k, -, hk, hpk⟩ := exists_token_of_mem (finalsAt_map_fst g language t' n) hp
        rw [hpk]
        exact hw.token_not_infix (.inl (by omega))
      rw [hother]
      exact ih hmrest ht hu

end Localize.Glossary
