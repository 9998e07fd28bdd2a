import Localize.Batch.Request
import Mathlib.Data.List.Dedup

/-!
# Strings and chunks

The strings of a request are its texts that are not blank, each once. Chunks are the strings again,
cut into pieces, so nothing is lost and nothing changes its place.
-/

namespace Localize.Batch

theorem mem_addNew {seen : List Text} {value : Json} {t : Text} :
    t ∈ addNew seen value ↔ t ∈ seen ∨ (value = .str t ∧ Text.allBlank t = false) := by
  cases value with
  | str u =>
    unfold addNew
    by_cases hb : Text.allBlank u = true
    · simp only [hb, Bool.true_or, if_true]
      constructor
      · exact .inl
      · rintro (h | ⟨h, ht⟩)
        · exact h
        · cases h
          rw [hb] at ht
          cases ht
    · rw [Bool.not_eq_true] at hb
      by_cases hu : u ∈ seen
      · simp only [hb, List.contains_iff_mem.mpr hu, Bool.or_true, if_true]
        constructor
        · exact .inl
        · rintro (h | ⟨h, -⟩)
          · exact h
          · cases h
            exact hu
      · have hc : seen.contains u = false := by simpa using hu
        simp only [hb, hc, Bool.or_false, Bool.false_eq_true, if_false, List.mem_append,
          List.mem_singleton]
        constructor
        · rintro (h | rfl)
          · exact .inl h
          · exact .inr ⟨rfl, hb⟩
        · rintro (h | ⟨h, -⟩)
          · exact .inl h
          · cases h
            exact .inr rfl
  | null | bool _ | int _ | float _ | arr _ | obj _ => simp [addNew]

theorem nodup_addNew {seen : List Text} (h : seen.Nodup) (value : Json) :
    (addNew seen value).Nodup := by
  unfold addNew
  split
  · next u =>
    split
    · exact h
    · next hu =>
      have hseen : u ∉ seen := by
        intro hmem
        exact hu (by rw [List.contains_iff_mem.mpr hmem, Bool.or_true])
      exact h.append (List.nodup_singleton u) (by simpa using hseen)
  · exact h

theorem foldl_addNew (strings : List Json) {seen : List Text} (h : seen.Nodup) :
    (strings.foldl addNew seen).Nodup ∧ ∀ t, t ∈ strings.foldl addNew seen ↔
      t ∈ seen ∨ (Json.str t ∈ strings ∧ Text.allBlank t = false) := by
  induction strings generalizing seen with
  | nil => exact ⟨h, by simp⟩
  | cons value strings ih =>
    obtain ⟨hnodup, hmem⟩ := ih (nodup_addNew h value)
    refine ⟨hnodup, fun t => ?_⟩
    rw [List.foldl_cons, hmem, mem_addNew, List.mem_cons, or_assoc, ← or_and_right,
      eq_comm (a := value)]

theorem nodup_unique (strings : List Json) : (unique strings).Nodup :=
  (foldl_addNew strings List.nodup_nil).1

theorem mem_unique {strings : List Json} {t : Text} :
    t ∈ unique strings ↔ Json.str t ∈ strings ∧ Text.allBlank t = false := by
  rw [unique, (foldl_addNew strings List.nodup_nil).2]
  simp

/-- Of equal texts the first one is kept. -/
theorem unique_map_str (texts : List Text) :
    unique (texts.map .str) = (texts.filter fun t => !Text.allBlank t).eraseDups := by
  have hfold : ∀ (texts seen : List Text), (texts.map Json.str).foldl addNew seen =
      seen ++ (texts.filter fun t => !Text.allBlank t && !seen.contains t).eraseDups := by
    intro texts
    induction texts with
    | nil => exact fun seen => (List.append_nil seen).symm
    | cons t texts ih =>
      intro seen
      rw [List.map_cons, List.foldl_cons, ih, addNew]
      by_cases hdrop : (Text.allBlank t || seen.contains t) = true
      · rw [if_pos hdrop, List.filter_cons_of_neg]
        simpa [imp_iff_not_or, or_comm] using hdrop
      · have hkeep : (!Text.allBlank t && !seen.contains t) = true := by
          simpa using hdrop
        have hcons : ((t :: texts).filter fun u => !Text.allBlank u && !seen.contains u) =
            t :: texts.filter fun u => !Text.allBlank u && !seen.contains u :=
          List.filter_cons_of_pos hkeep
        rw [if_neg hdrop, hcons, List.eraseDups_cons, List.filter_filter, List.append_assoc,
          List.singleton_append]
        congr 3
        refine List.filter_congr fun u _ => ?_
        by_cases hu : u = t
        · simp [hu]
        · simp [hu]
  exact (hfold texts []).trans (by simp)

theorem flatten_chunksOf {α : Type} (size : Nat) (items : List α) :
    (chunksOf size items).flatten = items := by
  fun_induction chunksOf size items with
  | case1 => rfl
  | case2 x rest ih =>
    rw [List.flatten_cons, ih, List.cons_append, List.take_append_drop]

theorem length_of_mem_chunksOf {α : Type} {size : Nat} {items chunk : List α}
    (hsize : 1 ≤ size) (h : chunk ∈ chunksOf size items) :
    1 ≤ chunk.length ∧ chunk.length ≤ size := by
  fun_induction chunksOf size items with
  | case1 => cases h
  | case2 x rest ih =>
    rcases List.mem_cons.mp h with rfl | h
    · rw [List.length_cons, List.length_take]
      omega
    · exact ih h

/-- All chunks but the last are of full size. -/
theorem length_of_mem_dropLast_chunksOf {α : Type} {size : Nat} {items chunk : List α}
    (hsize : 1 ≤ size) (h : chunk ∈ (chunksOf size items).dropLast) : chunk.length = size := by
  fun_induction chunksOf size items with
  | case1 => cases h
  | case2 x rest ih =>
    cases hmore : rest.drop (size - 1) with
    | nil =>
      rw [hmore, chunksOf] at h
      cases h
    | cons y more =>
      have hlength : 0 < (rest.drop (size - 1)).length := by
        rw [hmore, List.length_cons]
        omega
      rw [List.length_drop] at hlength
      have hne : chunksOf size (rest.drop (size - 1)) ≠ [] := by
        rw [hmore, chunksOf]
        exact List.cons_ne_nil _ _
      rw [List.dropLast_cons_of_ne_nil hne] at h
      rcases List.mem_cons.mp h with rfl | h
      · rw [List.length_cons, List.length_take]
        omega
      · exact ih h

/-- The texts of a list of strings that are not blank are counted once each. -/
theorem length_unique (strings : List Json) : (unique strings).length =
    ((strings.filterMap Json.text?).filter fun t => !Text.allBlank t).dedup.length := by
  apply List.Perm.length_eq
  rw [List.perm_ext_iff_of_nodup (nodup_unique strings) (List.nodup_dedup _)]
  intro t
  have htext : ∀ v : Json, v.text? = some t ↔ v = .str t := by
    intro v
    cases v <;> simp [Json.text?]
  simp [mem_unique, htext]

/-- What a request says once it has passed the checks. -/
theorem check_ok {r : Request} {c : Checked} (h : r.check = .ok c) :
    checkLanguage r.language = .ok c.language ∧ checkStrings r.strings = .ok c.strings ∧
      checkChunkSize r.options.chunkSize = .ok c.chunkSize := by
  unfold Request.check at h
  cases hlanguage : checkLanguage r.language with
  | error failure =>
    simp only [hlanguage] at h
    cases h
  | ok language =>
    cases hstrings : checkStrings r.strings with
    | error e =>
      simp only [hlanguage, hstrings] at h
      cases h
    | ok strings =>
      simp only [hlanguage, hstrings] at h
      split at h
      · cases hsize : checkChunkSize r.options.chunkSize with
        | error e =>
          simp only [hsize] at h
          cases h
        | ok size =>
          simp only [hsize] at h
          cases h
          exact ⟨rfl, rfl, rfl⟩
      · cases h

theorem checkStrings_arr {items strings : List Json} (h : checkStrings (.arr items) = .ok strings) :
    strings = items := by
  cases items with
  | nil => cases h
  | cons first rest => exact (Except.ok.inj h).symm

theorem one_le_chunkSize {r : Request} {c : Checked} (h : r.check = .ok c) : 1 ≤ c.chunkSize := by
  obtain ⟨-, -, hsize⟩ := check_ok h
  unfold checkChunkSize at hsize
  split at hsize
  · split at hsize
    · cases hsize
    · next hi =>
      have hone : c.chunkSize = Int.toNat _ := (Except.ok.inj hsize).symm
      omega
  · exact Nat.le_of_eq (Except.ok.inj hsize)
  · cases hsize

end Localize.Batch
