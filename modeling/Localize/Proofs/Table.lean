import Localize.Table
import Mathlib.Data.List.Nodup

/-!
# What tables hold

The keys of a table and its look-ups after insertions and after laying one list of pairs over a
table. Laying pairs over a table gives every key its last value, so a look-up reads the reversed
list of pairs first. A table built from pairs with distinct keys is that list of pairs.
-/

namespace Localize.Table

variable {κ α β : Type} [DecidableEq κ]

@[simp] theorem find?_nil (k : κ) : find? ([] : Table κ α) k = none := rfl

omit [DecidableEq κ] in
@[simp] theorem keys_nil : keys ([] : Table κ α) = [] := rfl

omit [DecidableEq κ] in
@[simp] theorem keys_cons (p : κ × α) (t : Table κ α) : keys (p :: t) = p.1 :: keys t := rfl

theorem find?_cons (p : κ × α) (t : Table κ α) (k : κ) :
    find? (p :: t) k = if p.1 = k then some p.2 else find? t k := rfl

theorem find?_append (t u : Table κ α) (k : κ) :
    find? (t ++ u) k = (find? t k).or (find? u k) := by
  induction t with
  | nil => rfl
  | cons p t ih =>
    rw [List.cons_append, find?_cons, find?_cons]
    split
    · rfl
    · exact ih

theorem find?_map {ι : Type} (items : List ι) (f : ι → κ) (v : ι → α) (k : κ) :
    find? (items.map fun i => (f i, v i)) k = (items.find? fun i => f i = k).map v := by
  induction items with
  | nil => rfl
  | cons i items ih =>
    rw [List.map_cons, find?_cons, List.find?_cons, ih]
    by_cases h : f i = k
    · simp [h]
    · simp [h]

theorem find?_map_self (items : List κ) (v : κ → α) (k : κ) [Decidable (k ∈ items)] :
    find? (items.map fun i => (i, v i)) k = if k ∈ items then some (v k) else none := by
  rw [find?_map items (fun i => i) v k]
  cases hfind : items.find? fun i => i = k with
  | some i =>
    have hi : i = k := by simpa using List.find?_some hfind
    rw [if_pos (hi ▸ List.mem_of_find?_eq_some hfind), Option.map_some, hi]
  | none =>
    have hk : k ∉ items := by simpa using List.find?_eq_none.mp hfind k
    rw [if_neg hk, Option.map_none]

theorem find?_map_pairs (t : Table κ α) (f : κ → α → β) (k : κ) :
    find? (t.map fun p => (p.1, f p.1 p.2)) k = (find? t k).map (f k) := by
  induction t with
  | nil => rfl
  | cons p t ih =>
    rw [List.map_cons, find?_cons, find?_cons, ih]
    split
    · next h =>
      rw [h]
      rfl
    · rfl

theorem find?_map_values (t : Table κ α) (f : α → β) (k : κ) :
    find? (t.map fun p => (p.1, f p.2)) k = (find? t k).map f :=
  find?_map_pairs t (fun _ => f) k

omit [DecidableEq κ] in
theorem keys_map_pairs (t : Table κ α) (f : κ × α → β) :
    keys (t.map fun p => (p.1, f p)) = keys t := by
  rw [keys, keys, List.map_map]
  rfl

theorem mem_of_find? {t : Table κ α} {k : κ} {v : α} (h : find? t k = some v) : (k, v) ∈ t := by
  induction t with
  | nil => cases h
  | cons p t ih =>
    rw [find?_cons] at h
    split at h
    · next hk =>
      obtain ⟨k', v'⟩ := p
      cases hk
      cases h
      exact List.mem_cons_self
    · exact List.mem_cons_of_mem _ (ih h)

theorem mem_keys_iff {t : Table κ α} {k : κ} : k ∈ keys t ↔ (find? t k).isSome := by
  induction t with
  | nil => simp
  | cons p t ih =>
    rw [keys_cons, List.mem_cons, ih, find?_cons]
    by_cases h : p.1 = k
    · simp [h]
    · simp [h, Ne.symm h]

theorem find?_eq_none_iff {t : Table κ α} {k : κ} : find? t k = none ↔ k ∉ keys t := by
  rw [mem_keys_iff, Option.not_isSome_iff_eq_none]

theorem find?_of_mem {t : Table κ α} (hn : (keys t).Nodup) {k : κ} {v : α} (h : (k, v) ∈ t) :
    find? t k = some v := by
  induction t with
  | nil => cases h
  | cons p t ih =>
    rw [keys_cons, List.nodup_cons] at hn
    rw [find?_cons]
    rcases List.mem_cons.mp h with h | h
    · subst h
      exact if_pos rfl
    · have hne : p.1 ≠ k := by
        intro hp
        exact hn.1 (hp ▸ List.mem_map.mpr ⟨(k, v), h, rfl⟩)
      rw [if_neg hne]
      exact ih hn.2 h

theorem find?_reverse {t : Table κ α} (hn : (keys t).Nodup) (k : κ) :
    find? t.reverse k = find? t k := by
  have hr : (keys t.reverse).Nodup := by
    rw [keys, List.map_reverse]
    exact List.nodup_reverse.mpr hn
  cases h : find? t k with
  | some v => exact find?_of_mem hr (List.mem_reverse.mpr (mem_of_find? h))
  | none =>
    rw [find?_eq_none_iff] at h ⊢
    simpa [keys] using h

theorem keys_insert (t : Table κ α) (key : κ) (value : α) :
    keys (insert t key value) = if key ∈ keys t then keys t else keys t ++ [key] := by
  induction t with
  | nil => simp [insert]
  | cons p t ih =>
    obtain ⟨k, v⟩ := p
    unfold insert
    by_cases h : k = key
    · simp [h]
    · have h' : key ≠ k := Ne.symm h
      simp only [h, if_false, keys_cons, ih, List.mem_cons, h', false_or]
      split <;> rfl

theorem nodup_keys_insert {t : Table κ α} (h : (keys t).Nodup) (key : κ) (value : α) :
    (keys (insert t key value)).Nodup := by
  rw [keys_insert]
  split
  · exact h
  · next hk =>
    rw [List.nodup_append]
    refine ⟨h, List.nodup_singleton key, ?_⟩
    intro a ha b hb hab
    rw [List.mem_singleton] at hb
    exact hk (hb ▸ hab ▸ ha)

theorem erase_insert {t : Table κ α} {key : κ} (h : key ∉ keys t) (value : α) :
    erase (insert t key value) key = t := by
  induction t with
  | nil => simp [insert, erase]
  | cons p t ih =>
    obtain ⟨k, v⟩ := p
    rw [keys_cons, List.mem_cons, not_or] at h
    rw [insert, if_neg (Ne.symm h.1), erase, if_neg (Ne.symm h.1), ih h.2]

theorem keys_erase_sublist (t : Table κ α) (key : κ) : (keys (erase t key)).Sublist (keys t) := by
  induction t with
  | nil => exact List.Sublist.refl _
  | cons p t ih =>
    obtain ⟨k, v⟩ := p
    rw [erase]
    split
    · exact List.sublist_cons_self k (keys t)
    · exact ih.cons_cons k

theorem nodup_keys_erase {t : Table κ α} (h : (keys t).Nodup) (key : κ) :
    (keys (erase t key)).Nodup :=
  (keys_erase_sublist t key).nodup h

theorem find?_erase_self {t : Table κ α} (h : (keys t).Nodup) (key : κ) :
    find? (erase t key) key = none := by
  induction t with
  | nil => rfl
  | cons p t ih =>
    obtain ⟨k, v⟩ := p
    rw [keys_cons, List.nodup_cons] at h
    rw [erase]
    split
    · next hk =>
      rw [find?_eq_none_iff, ← hk]
      exact h.1
    · next hk =>
      rw [find?_cons, if_neg hk]
      exact ih h.2

theorem find?_of_find?_erase {t : Table κ α} (h : (keys t).Nodup) {key k : κ} {v : α}
    (hfind : find? (erase t key) k = some v) : find? t k = some v := by
  by_cases hkey : key = k
  · rw [← hkey, find?_erase_self h] at hfind
    cases hfind
  · rwa [find?_erase_ne t hkey] at hfind

theorem insert_insert (t : Table κ α) (key : κ) (value value' : α) :
    insert (insert t key value) key value' = insert t key value' := by
  induction t with
  | nil => simp [insert]
  | cons p t ih =>
    obtain ⟨k, v⟩ := p
    by_cases h : k = key
    · simp [insert, h]
    · simp [insert, h, ih]

theorem insert_of_find? {t : Table κ α} {key : κ} {value : α} (h : find? t key = some value) :
    insert t key value = t := by
  induction t with
  | nil => cases h
  | cons p t ih =>
    obtain ⟨k, v⟩ := p
    rw [find?_cons] at h
    by_cases hk : k = key
    · rw [if_pos hk] at h
      cases h
      rw [insert, if_pos hk]
    · rw [if_neg hk] at h
      rw [insert, if_neg hk, ih h]

/-! ### Pairs of a changed table -/

theorem of_mem_insert {t : Table κ α} {key : κ} {value : α} {p : κ × α}
    (h : p ∈ insert t key value) : p = (key, value) ∨ p ∈ t := by
  induction t with
  | nil => exact .inl (List.mem_singleton.mp h)
  | cons q t ih =>
    rw [insert] at h
    split at h
    · next hkey =>
      obtain hp | hp := List.mem_cons.mp h
      · exact .inl (by rw [hp, hkey])
      · exact .inr (List.mem_cons_of_mem q hp)
    · obtain hp | hp := List.mem_cons.mp h
      · exact .inr (by rw [hp]; exact List.mem_cons_self)
      · exact (ih hp).imp_right (List.mem_cons_of_mem q)

theorem erase_sublist (t : Table κ α) (key : κ) : (erase t key).Sublist t := by
  induction t with
  | nil => exact List.Sublist.refl _
  | cons q t ih =>
    rw [erase]
    split
    · exact List.sublist_cons_self q t
    · exact ih.cons_cons q

theorem erase_of_notMem {t : Table κ α} {key : κ} (h : key ∉ keys t) : erase t key = t := by
  induction t with
  | nil => rfl
  | cons q t ih =>
    rw [keys_cons, List.mem_cons, not_or] at h
    rw [erase, if_neg (Ne.symm h.1), ih h.2]

theorem erase_eq_filter {t : Table κ α} (h : (keys t).Nodup) (key : κ) :
    erase t key = t.filter fun p => p.1 ≠ key := by
  induction t with
  | nil => rfl
  | cons q t ih =>
    rw [keys_cons, List.nodup_cons] at h
    rw [erase, List.filter_cons]
    by_cases hq : q.1 = key
    · have hothers : ∀ p ∈ t, p.1 ≠ key := fun p hp hkey =>
        h.1 (hq ▸ hkey ▸ List.mem_map_of_mem hp)
      simp only [hq, ne_eq, not_true_eq_false, decide_false, Bool.false_eq_true, if_false, if_true]
      exact (List.filter_eq_self.mpr fun p hp => decide_eq_true (hothers p hp)).symm
    · simp only [hq, ne_eq, not_false_eq_true, decide_true, if_true, if_false]
      rw [ih h.2]

/-- Tables whose pairs correspond, and so have the same keys, still do when a key is given values in
both. -/
theorem forall₂_insert {R : κ × α → κ × β → Prop} (hkeys : ∀ p q, R p q → q.1 = p.1)
    {t : Table κ α} {u : Table κ β} (h : List.Forall₂ R t u) {key : κ} {value : α} {value' : β}
    (hnew : R (key, value) (key, value')) :
    List.Forall₂ R (insert t key value) (insert u key value') := by
  induction h with
  | nil => exact .cons hnew .nil
  | @cons p q t u hpq hrest ih =>
    obtain ⟨k, v⟩ := p
    obtain ⟨k', v'⟩ := q
    obtain rfl : k' = k := hkeys _ _ hpq
    unfold insert
    split_ifs with hk
    · subst hk
      exact .cons hnew hrest
    · exact .cons hpq ih

omit [DecidableEq κ] in
/-- Tables whose pairs correspond key by key have the same keys, and corresponding look-ups. -/
theorem keys_of_forall₂ {R : α → β → Prop} {t : Table κ α} {u : Table κ β}
    (h : List.Forall₂ (fun p q => q.1 = p.1 ∧ R p.2 q.2) t u) : keys u = keys t := by
  induction h with
  | nil => rfl
  | cons hpq _ ih => rw [keys_cons, keys_cons, ih, hpq.1]

theorem exists_find?_of_forall₂ {R : α → β → Prop} {t : Table κ α} {u : Table κ β}
    (h : List.Forall₂ (fun p q => q.1 = p.1 ∧ R p.2 q.2) t u) {k : κ} {v : α}
    (hfind : find? t k = some v) : ∃ w, find? u k = some w ∧ R v w := by
  induction h with
  | nil => cases hfind
  | cons hpq _ ih =>
    rw [find?_cons] at hfind ⊢
    rw [hpq.1]
    split_ifs at hfind ⊢ with hk
    · cases hfind
      exact ⟨_, rfl, hpq.2⟩
    · exact ih hfind

/-! ### Pairs laid over a table -/

theorem merge_append (t : Table κ α) (first second : List (κ × α)) :
    merge t (first ++ second) = merge (merge t first) second :=
  List.foldl_append

theorem find?_merge (t : Table κ α) (pairs : List (κ × α)) (k : κ) :
    find? (merge t pairs) k = (find? pairs.reverse k).or (find? t k) := by
  induction pairs generalizing t with
  | nil => rfl
  | cons p pairs ih =>
    change find? (merge (insert t p.1 p.2) pairs) k = _
    rw [ih, find?_insert, List.reverse_cons, find?_append, find?_cons, find?_nil]
    cases find? pairs.reverse k with
    | some v => rfl
    | none => split <;> rfl

theorem mem_keys_merge {t : Table κ α} {pairs : List (κ × α)} {k : κ} :
    k ∈ keys (merge t pairs) ↔ k ∈ keys t ∨ k ∈ keys pairs := by
  have hr : k ∈ keys pairs ↔ (find? pairs.reverse k).isSome := by
    rw [← mem_keys_iff]
    simp [keys]
  rw [mem_keys_iff, find?_merge, Option.isSome_or, Bool.or_eq_true, ← hr, ← mem_keys_iff, or_comm]

theorem nodup_keys_merge {t : Table κ α} (h : (keys t).Nodup) (pairs : List (κ × α)) :
    (keys (merge t pairs)).Nodup := by
  induction pairs generalizing t with
  | nil => exact h
  | cons p pairs ih => exact ih (nodup_keys_insert h p.1 p.2)

theorem nodup_keys_ofPairs (pairs : List (κ × α)) : (keys (ofPairs pairs)).Nodup :=
  nodup_keys_merge (t := []) List.nodup_nil pairs

theorem find?_ofPairs (pairs : List (κ × α)) (k : κ) :
    find? (ofPairs pairs) k = find? pairs.reverse k := by
  rw [ofPairs, find?_merge, find?_nil, Option.or_none]

/-- A table of the values that some keys have. -/
theorem mem_of_mem_ofPairs {pairs : List (κ × α)} {p : κ × α} (h : p ∈ ofPairs pairs) :
    p ∈ pairs := by
  have hfind := find?_of_mem (nodup_keys_ofPairs pairs) h
  rw [find?_ofPairs] at hfind
  exact List.mem_reverse.mp (mem_of_find? hfind)

theorem find?_ofPairs_filterMap (items : List κ) (f : κ → Option α) (k : κ)
    [Decidable (k ∈ items)] :
    find? (ofPairs (items.filterMap fun i => (f i).map (i, ·))) k =
      if k ∈ items then f k else none := by
  rw [find?_ofPairs]
  cases hfind : find? (items.filterMap fun i => (f i).map (i, ·)).reverse k with
  | some v =>
    have hmem := List.mem_reverse.mp (mem_of_find? hfind)
    obtain ⟨i, hi, h⟩ := List.mem_filterMap.mp hmem
    obtain ⟨v', hv', h⟩ := Option.map_eq_some_iff.mp h
    cases h
    rw [if_pos hi, hv']
  | none =>
    rw [find?_eq_none_iff] at hfind
    split
    · next hk =>
      cases hv : f k with
      | none => rfl
      | some v =>
        refine (hfind (List.mem_map.mpr ⟨(k, v), ?_, rfl⟩)).elim
        rw [List.mem_reverse, List.mem_filterMap]
        exact ⟨k, hk, by rw [hv]; rfl⟩
    · rfl

/-- The keys of a table stay where they are, and the new ones follow in their order. -/
theorem keys_merge {t : Table κ α} {pairs : List (κ × α)} (h : (keys pairs).Nodup) :
    keys (merge t pairs) = keys t ++ (keys pairs).filter (· ∉ keys t) := by
  induction pairs generalizing t with
  | nil => rw [keys_nil, List.filter_nil, List.append_nil, merge, List.foldl_nil]
  | cons p pairs ih =>
    rw [keys_cons, List.nodup_cons] at h
    obtain ⟨hp, hpairs⟩ := h
    change keys (merge (insert t p.1 p.2) pairs) = _
    rw [ih hpairs, keys_insert, keys_cons]
    by_cases hmem : p.1 ∈ keys t
    · rw [if_pos hmem, List.filter_cons_of_neg (by simpa using hmem)]
    · have hrest :
          (keys pairs).filter (· ∉ keys t ++ [p.1]) = (keys pairs).filter (· ∉ keys t) := by
        refine List.filter_congr fun k hk => ?_
        have hne : k ≠ p.1 := fun heq => hp (heq ▸ hk)
        simp only [List.mem_append, List.mem_singleton, hne, or_false]
      rw [if_neg hmem, hrest, List.filter_cons_of_pos (by simpa using hmem), List.append_assoc,
        List.singleton_append]

/-! ### Some of the keys -/

omit [DecidableEq κ] in
theorem keys_filter (t : Table κ α) (P : κ → Bool) :
    keys (t.filter fun p => P p.1) = (keys t).filter P := by
  rw [keys, keys, List.filter_map]
  rfl

theorem find?_filter (t : Table κ α) (P : κ → Bool) {k : κ} (h : P k = true) :
    find? (t.filter fun p => P p.1) k = find? t k := by
  induction t with
  | nil => rfl
  | cons p t ih =>
    rw [List.filter_cons]
    by_cases hp : P p.1 = true
    · rw [if_pos hp, find?_cons, find?_cons, ih]
    · have hne : p.1 ≠ k := fun hk => hp (hk ▸ h)
      rw [if_neg hp, find?_cons, if_neg hne, ih]

theorem filter_insert (t : Table κ α) (P : κ → Bool) (key : κ) (value : α) :
    (insert t key value).filter (fun p => P p.1) =
      if P key then insert (t.filter fun p => P p.1) key value else t.filter fun p => P p.1 := by
  induction t with
  | nil => simp [insert, List.filter_cons]
  | cons p t ih =>
    obtain ⟨k, v⟩ := p
    by_cases hk : k = key
    · subst hk
      by_cases hP : P k = true
      · simp [insert, hP]
      · simp [insert, hP]
    · by_cases hP : P k = true
      · by_cases hkey : P key = true
        · simp [insert, hk, hP, hkey, ih]
        · simp [insert, hk, hP, hkey, ih]
      · simp [insert, hk, hP, ih]

theorem filter_merge (t : Table κ α) (P : κ → Bool) (pairs : List (κ × α)) :
    (merge t pairs).filter (fun p => P p.1) =
      merge (t.filter fun p => P p.1) (pairs.filter fun p => P p.1) := by
  induction pairs generalizing t with
  | nil => rfl
  | cons p pairs ih =>
    change (merge (insert t p.1 p.2) pairs).filter _ = _
    rw [ih, filter_insert, List.filter_cons]
    split
    · rfl
    · rfl

/-- Of pairs with some keys the table holds what these pairs alone make. -/
theorem filter_ofPairs (P : κ → Bool) (pairs : List (κ × α)) :
    (ofPairs pairs).filter (fun p => P p.1) = ofPairs (pairs.filter fun p => P p.1) :=
  filter_merge [] P pairs

/-- Two tables with the same distinct keys that answer every look-up alike are the same. -/
theorem eq_of_find?_eq {t u : Table κ α} (hkeys : keys t = keys u) (hn : (keys t).Nodup)
    (hfind : ∀ k ∈ keys t, find? t k = find? u k) : t = u := by
  induction t generalizing u with
  | nil =>
    cases u with
    | nil => rfl
    | cons q u => cases hkeys
  | cons p t ih =>
    cases u with
    | nil => cases hkeys
    | cons q u =>
      obtain ⟨k, v⟩ := p
      obtain ⟨k', v'⟩ := q
      rw [keys_cons, keys_cons, List.cons.injEq] at hkeys
      obtain ⟨hk, hkeys⟩ := hkeys
      obtain rfl : k = k' := hk
      rw [keys_cons, List.nodup_cons] at hn
      have hvalue := hfind k List.mem_cons_self
      rw [find?_cons, find?_cons, if_pos rfl, if_pos rfl] at hvalue
      obtain rfl : v = v' := Option.some.inj hvalue
      refine congrArg _ (ih hkeys hn.2 fun key hkey => ?_)
      have hne : k ≠ key := fun h => hn.1 (h ▸ hkey)
      have hrest := hfind key (List.mem_cons_of_mem k hkey)
      rwa [find?_cons, find?_cons, if_neg hne, if_neg hne] at hrest

/-! ### Pairs with distinct keys -/

theorem keys_merge_of_mem {t : Table κ α} {pairs : List (κ × α)} (h : ∀ p ∈ pairs, p.1 ∈ keys t) :
    keys (merge t pairs) = keys t := by
  induction pairs generalizing t with
  | nil => rfl
  | cons p pairs ih =>
    obtain ⟨hp, hpairs⟩ := List.forall_mem_cons.mp h
    have hkeys : keys (insert t p.1 p.2) = keys t := by rw [keys_insert, if_pos hp]
    change keys (merge (insert t p.1 p.2) pairs) = keys t
    rw [ih (by rwa [hkeys]), hkeys]

/-- A table with the same keys in the same order takes the place of a table it is laid over. -/
theorem merge_of_keys_eq {t u : Table κ α} (hkeys : keys u = keys t) (hn : (keys t).Nodup) :
    merge t u = u := by
  have hmerge : keys (merge t u) = keys t :=
    keys_merge_of_mem fun p hp => hkeys ▸ List.mem_map_of_mem hp
  refine eq_of_find?_eq (hmerge.trans hkeys.symm) (hmerge ▸ hn) fun k hk => ?_
  rw [find?_merge, find?_reverse (hkeys ▸ hn)]
  rw [hmerge, ← hkeys, mem_keys_iff] at hk
  obtain ⟨value, hvalue⟩ := Option.isSome_iff_exists.mp hk
  rw [hvalue, Option.some_or]

theorem insert_of_notMem {t : Table κ α} {key : κ} (h : key ∉ keys t) (value : α) :
    insert t key value = t ++ [(key, value)] := by
  induction t with
  | nil => rfl
  | cons p t ih =>
    obtain ⟨k, v⟩ := p
    rw [keys_cons, List.mem_cons, not_or] at h
    rw [insert, if_neg (Ne.symm h.1), ih h.2, List.cons_append]

theorem merge_of_nodup {t : Table κ α} {pairs : List (κ × α)}
    (h : (keys (t ++ pairs)).Nodup) : merge t pairs = t ++ pairs := by
  induction pairs generalizing t with
  | nil => exact (List.append_nil t).symm
  | cons p pairs ih =>
    have hassoc : t ++ p :: pairs = (t ++ [(p.1, p.2)]) ++ pairs := by simp
    have hkey : p.1 ∉ keys t := by
      rw [keys, List.map_append, List.nodup_append] at h
      intro hmem
      exact h.2.2 p.1 hmem p.1 List.mem_cons_self rfl
    change merge (insert t p.1 p.2) pairs = _
    rw [insert_of_notMem hkey, hassoc]
    exact ih (hassoc ▸ h)

theorem ofPairs_of_nodup {pairs : List (κ × α)} (h : (keys pairs).Nodup) :
    ofPairs pairs = pairs :=
  merge_of_nodup (t := []) h

omit [DecidableEq κ] in
theorem keys_filterMap (items : List κ) (f : κ → Option α) :
    keys (items.filterMap fun i => (f i).map (i, ·)) = items.filter fun i => (f i).isSome := by
  induction items with
  | nil => rfl
  | cons i items ih =>
    rw [List.filterMap_cons, List.filter_cons]
    cases h : f i with
    | none => exact ih
    | some v => exact congrArg (i :: ·) ih

/-- A table of the values that some distinct keys have holds one pair for each of these. -/
theorem length_ofPairs_filterMap {items : List κ} (h : items.Nodup) (f : κ → Option α) :
    (ofPairs (items.filterMap fun i => (f i).map (i, ·))).length =
      (items.filter fun i => (f i).isSome).length := by
  have hkeys := keys_filterMap items f
  rw [ofPairs_of_nodup (hkeys ▸ h.filter _), ← hkeys, keys, List.length_map]

end Localize.Table
