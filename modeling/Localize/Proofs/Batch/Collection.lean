import Localize.Proofs.Batch.Calls
import Localize.Proofs.Batch.Opening

/-!
# What the chunks give

What is collected from the chunks depends on each string sent with the result of its chunk: a string
of a failed chunk keeps its text, and a string of another chunk has its usable answer or stands for
itself.
-/

namespace Localize.Batch

/-- The texts sent, each with the result of its chunk. -/
def served (results : List ChunkResult) : List (Text × ChunkResult) :=
  results.flatMap fun r => r.texts.map (·, r)

/-- The usable answer to a text of a chunk. -/
def ChunkResult.answer? (r : ChunkResult) (sent : Text) : Option Text :=
  r.translations.bind fun translations => Collection.usable? translations sent

/-- The last chunk that held a text and has not failed. -/
def lastServed? (results : List ChunkResult) (u : Text) : Option ChunkResult :=
  ((served results).reverse.find? fun p =>
    p.2.translations.isSome && decide (p.1 = u)).map Prod.snd

theorem served_cons (r : ChunkResult) (results : List ChunkResult) :
    served (r :: results) = r.texts.map (·, r) ++ served results := rfl

theorem map_fst_served (results : List ChunkResult) :
    (served results).map Prod.fst = (results.map ChunkResult.texts).flatten := by
  induction results with
  | nil => rfl
  | cons r results ih =>
    rw [served_cons, List.map_append, ih, List.map_map, List.map_cons, List.flatten_cons]
    exact congrArg (· ++ _) (List.map_id _)

/-- Where every text is served once, its chunk is the last one with it. -/
theorem lastServed?_of_nodup {results : List ChunkResult}
    (hn : ((served results).map Prod.fst).Nodup) {u : Text} {r : ChunkResult}
    (h : (u, r) ∈ served results) :
    (r.translations = none → lastServed? results u = none) ∧
      (r.translations ≠ none → lastServed? results u = some r) := by
  have honly : ∀ p ∈ served results, p.1 = u → p = (u, r) := fun p hp hu =>
    List.inj_on_of_nodup_map hn hp h hu
  unfold lastServed?
  constructor
  · intro hnone
    rw [Option.map_eq_none_iff, List.find?_eq_none]
    intro p hp hgood
    rw [Bool.and_eq_true, decide_eq_true_eq] at hgood
    rw [honly p (List.mem_reverse.mp hp) hgood.2, hnone] at hgood
    cases hgood.1
  · intro hsome
    cases hfind : (served results).reverse.find? fun p =>
        p.2.translations.isSome && decide (p.1 = u) with
    | none =>
      have hgood := List.find?_eq_none.mp hfind (u, r) (List.mem_reverse.mpr h)
      simp [hsome] at hgood
    | some p =>
      have hgood := List.find?_some hfind
      rw [Bool.and_eq_true, decide_eq_true_eq] at hgood
      rw [honly p (List.mem_reverse.mp (List.mem_of_find?_eq_some hfind)) hgood.2]
      rfl

namespace Collection

/-- The text as it was given for a text sent. -/
def sourceIn (sourceOf : Table Text Text) (sent : Text) : Text :=
  (Table.find? sourceOf sent).getD sent

/-- What is answered for a text of a chunk that has not failed. -/
def answerIn (sourceOf : Table Text Text) (p : Text × ChunkResult) : Text × Text :=
  (sourceIn sourceOf p.1, (p.2.answer? p.1).getD p.1)

theorem foldl_addAnswer (sourceOf : Table Text Text) (translations : Fields) (r : ChunkResult)
    (hr : r.translations = some translations) (texts : List Text) (c : Collection) :
    (texts.foldl (addAnswer sourceOf translations) c).answers =
        Table.merge c.answers ((texts.map (·, r)).map (answerIn sourceOf)) ∧
      (texts.foldl (addAnswer sourceOf translations) c).unanswered =
        c.unanswered ++ (texts.filter fun u => (r.answer? u).isNone).map (sourceIn sourceOf) ∧
      (texts.foldl (addAnswer sourceOf translations) c).kept = c.kept := by
  induction texts generalizing c with
  | nil => exact ⟨rfl, (List.append_nil _).symm, rfl⟩
  | cons u texts ih =>
    obtain ⟨hanswers, hunanswered, hkept⟩ := ih (addAnswer sourceOf translations c u)
    have hanswer : r.answer? u = usable? translations u := by
      rw [ChunkResult.answer?, hr]
      rfl
    rw [List.foldl_cons, hanswers, hunanswered, hkept, List.filter_cons, hanswer]
    simp only [List.map_cons, answerIn, hanswer, addAnswer]
    cases usable? translations u with
    | some translated => exact ⟨rfl, rfl, rfl⟩
    | none => exact ⟨rfl, by simp [sourceIn], rfl⟩

theorem foldl_addChunk (sourceOf : Table Text Text) (results : List ChunkResult)
    (c : Collection) :
    (results.foldl (addChunk sourceOf) c).answers =
        Table.merge c.answers (((served results).filter fun p => p.2.translations.isSome).map
          (answerIn sourceOf)) ∧
      (results.foldl (addChunk sourceOf) c).unanswered =
        c.unanswered ++ ((served results).filter fun p =>
          p.2.translations.isSome && (p.2.answer? p.1).isNone).map
            (fun p => sourceIn sourceOf p.1) ∧
      (results.foldl (addChunk sourceOf) c).kept =
        c.kept ++ ((served results).filter fun p => p.2.translations.isNone).map
          fun p => sourceIn sourceOf p.1 := by
  induction results generalizing c with
  | nil => exact ⟨rfl, (List.append_nil _).symm, (List.append_nil _).symm⟩
  | cons r results ih =>
    obtain ⟨hanswers, hunanswered, hkept⟩ := ih (addChunk sourceOf c r)
    rw [List.foldl_cons, hanswers, hunanswered, hkept, served_cons]
    simp only [List.filter_append, List.filter_map, List.map_append, List.map_map]
    cases hr : r.translations with
    | none =>
      simp [addChunk, hr, Function.comp_def, sourceIn, Table.merge]
    | some translations =>
      obtain ⟨ha, hu, hk⟩ := foldl_addAnswer sourceOf translations r hr r.texts
        { c with
          tokens := c.tokens.add r.usage
          chunkTokens := c.chunkTokens ++ [(r.index + 1, r.usage)] }
      simp only [addChunk, hr, ha, hu, hk]
      simp [hr, Function.comp_def, Table.merge]

theorem mem_kept {sourceOf : Table Text Text} {results : List ChunkResult} {s : Text} :
    s ∈ (ofResults sourceOf results).kept ↔
      ∃ p ∈ served results, p.2.translations = none ∧ sourceIn sourceOf p.1 = s := by
  rw [ofResults, (foldl_addChunk sourceOf results empty).2.2]
  simp [empty, and_assoc]

theorem mem_unanswered {sourceOf : Table Text Text} {results : List ChunkResult} {s : Text} :
    s ∈ (ofResults sourceOf results).unanswered ↔
      ∃ p ∈ served results, (p.2.translations.isSome ∧ p.2.answer? p.1 = none) ∧
        sourceIn sourceOf p.1 = s := by
  rw [ofResults, (foldl_addChunk sourceOf results empty).2.1]
  simp [empty, and_assoc]

theorem nodup_keys_answers (sourceOf : Table Text Text) (results : List ChunkResult) :
    (Table.keys (ofResults sourceOf results).answers).Nodup := by
  rw [ofResults, (foldl_addChunk sourceOf results empty).1]
  exact Table.nodup_keys_ofPairs _

/-- Of several texts with the same source the last one counts. -/
theorem find?_answers (sourceOf : Table Text Text) (results : List ChunkResult) (s : Text) :
    Table.find? (ofResults sourceOf results).answers s =
      ((served results).reverse.find? fun p =>
        p.2.translations.isSome && decide (sourceIn sourceOf p.1 = s)).map
          fun p => (p.2.answer? p.1).getD p.1 := by
  rw [ofResults, (foldl_addChunk sourceOf results empty).1]
  change Table.find? (Table.ofPairs _) s = _
  rw [Table.find?_ofPairs, ← List.map_reverse, ← List.filter_reverse]
  refine (Table.find?_map _ _ _ s).trans ?_
  rw [List.find?_filter]
  simp only [Bool.decide_and, Bool.decide_eq_true]

end Collection

/-! ### Sources -/

theorem exists_last_index {u : Text} {sent : List Text} (h : u ∈ sent) :
    ∃ i : Nat, sent[i]? = some u ∧ ∀ j > i, sent[j]? ≠ some u := by
  induction sent with
  | nil => cases h
  | cons v sent ih =>
    by_cases hu : u ∈ sent
    · obtain ⟨i, hi, hlast⟩ := ih hu
      refine ⟨i + 1, hi, fun j hj => ?_⟩
      cases j with
      | zero => omega
      | succ j => exact hlast j (by omega)
    · rcases List.mem_cons.mp h with rfl | h
      · refine ⟨0, rfl, fun j hj => ?_⟩
        cases j with
        | zero => omega
        | succ j => exact fun hj => hu (List.mem_of_getElem? hj)
      · exact (hu h).elim

/-- A text sent leads back to the last string that was sent as it. -/
theorem sourceIn_of_last {sent pending : List Text} {i : Nat} {s u : Text}
    (hs : pending[i]? = some s) (hu : sent[i]? = some u)
    (hlast : ∀ j > i, sent[j]? ≠ some u) :
    Collection.sourceIn (Table.ofPairs (sent.zip pending)) u = s := by
  have hzip : (sent.zip pending)[i]? = some (u, s) := List.getElem?_zip_eq_some.mpr ⟨hu, hs⟩
  obtain ⟨hi, hget⟩ := List.getElem?_eq_some_iff.mp hzip
  have hsplit : sent.zip pending =
      (sent.zip pending).take i ++ (u, s) :: (sent.zip pending).drop (i + 1) := by
    rw [← hget, List.getElem_cons_drop, List.take_append_drop]
  have hnone : Table.find? ((sent.zip pending).drop (i + 1)).reverse u = none := by
    rw [Table.find?_eq_none_iff]
    intro hmem
    obtain ⟨p, hp, hpu⟩ := List.mem_map.mp hmem
    obtain ⟨k, hk⟩ := List.mem_iff_getElem?.mp (List.mem_reverse.mp hp)
    rw [List.getElem?_drop] at hk
    have hsent := (List.getElem?_zip_eq_some.mp hk).1
    exact hlast _ (by omega) (hpu ▸ hsent)
  rw [Collection.sourceIn, Table.find?_ofPairs, hsplit, List.reverse_append, List.reverse_cons,
    List.append_assoc, Table.find?_append, hnone, Option.none_or, List.singleton_append,
    Table.find?_cons, if_pos rfl]
  rfl

variable {o : Opening} {s u : Text}

/-- A later string is sent as the same text, and what comes back is taken for the later one's. -/
def Opening.Shadowed (o : Opening) (s : Text) : Prop :=
  ∃ (i j : Nat) (u : Text), i < j ∧ o.prepared.pending[i]? = some s ∧
    o.prepared.sent[i]? = some u ∧ o.prepared.sent[j]? = some u

theorem Opening.Shadowed.mem_pending (h : o.Shadowed s) : s ∈ o.prepared.pending := by
  obtain ⟨i, j, u, -, hs, -⟩ := h
  exact List.mem_of_getElem? hs

/-- A text sent leads back to a string if it is that string's and no later one's. -/
theorem sourceIn_eq_iff (hlength : o.prepared.sent.length = o.prepared.pending.length)
    (hu : u ∈ o.prepared.sent) :
    Collection.sourceIn o.sourceOf u = s ↔ ∃ i : Nat, o.prepared.pending[i]? = some s ∧
      o.prepared.sent[i]? = some u ∧ ∀ j > i, o.prepared.sent[j]? ≠ some u := by
  constructor
  · rintro rfl
    obtain ⟨i, hi, hlast⟩ := exists_last_index hu
    obtain ⟨hlt, -⟩ := List.getElem?_eq_some_iff.mp hi
    obtain ⟨s, hs⟩ : ∃ s, o.prepared.pending[i]? = some s :=
      ⟨_, List.getElem?_eq_getElem (hlength ▸ hlt)⟩
    refine ⟨i, ?_, hi, hlast⟩
    rw [hs, Opening.sourceOf, sourceIn_of_last hs hi hlast]
  · rintro ⟨i, hs, hi, hlast⟩
    exact sourceIn_of_last hs hi hlast

namespace Opening.Divided

variable {known whole : Text → Option Json}

theorem index_unique (h : o.Divided known whole) {i j : Nat}
    (hi : o.prepared.pending[i]? = some s) (hj : o.prepared.pending[j]? = some s) : i = j := by
  obtain ⟨hlt, -⟩ := List.getElem?_eq_some_iff.mp hi
  exact (List.getElem?_inj hlt h.nodup_pending).mp (hi.trans hj.symm)

/-- The strings to which the texts sent lead back. -/
theorem exists_source_iff (h : o.Divided known whole) :
    (∃ u ∈ o.prepared.sent, Collection.sourceIn o.sourceOf u = s) ↔
      s ∈ o.prepared.pending ∧ ¬ o.Shadowed s := by
  constructor
  · rintro ⟨u, hu, hsource⟩
    obtain ⟨i, hs, hi, hlast⟩ := (sourceIn_eq_iff h.length hu).mp hsource
    refine ⟨List.mem_of_getElem? hs, ?_⟩
    rintro ⟨i', j, u', hlt, hs', hi', hj⟩
    obtain rfl : i' = i := h.index_unique hs' hs
    rw [hi] at hi'
    cases hi'
    exact hlast j hlt hj
  · rintro ⟨hs, hshadowed⟩
    obtain ⟨i, hs⟩ := List.mem_iff_getElem?.mp hs
    obtain ⟨hlt, -⟩ := List.getElem?_eq_some_iff.mp hs
    obtain ⟨u, hi⟩ : ∃ u, o.prepared.sent[i]? = some u :=
      ⟨_, List.getElem?_eq_getElem (h.length ▸ hlt)⟩
    refine ⟨u, List.mem_of_getElem? hi, (sourceIn_eq_iff h.length (List.mem_of_getElem? hi)).mpr
      ⟨i, hs, hi, fun j hj hj' => hshadowed ⟨i, j, _, hj, hs, hi, hj'⟩⟩⟩

/-- Only its own text leads back to a string that is not shadowed. -/
theorem sourceIn_eq_iff_eq (h : o.Divided known whole) {i : Nat}
    (hs : o.prepared.pending[i]? = some s) (hi : o.prepared.sent[i]? = some u)
    (hshadowed : ¬ o.Shadowed s) {u' : Text} (hu' : u' ∈ o.prepared.sent) :
    Collection.sourceIn o.sourceOf u' = s ↔ u' = u := by
  constructor
  · intro hsource
    obtain ⟨i', hs', hi', -⟩ := (sourceIn_eq_iff h.length hu').mp hsource
    obtain rfl : i' = i := h.index_unique hs' hs
    rw [hi] at hi'
    exact (Option.some.inj hi').symm
  · rintro rfl
    exact sourceIn_of_last hs hi fun j hj hj' => hshadowed ⟨i, j, _, hj, hs, hi, hj'⟩

/-- No string is shadowed exactly if no two are sent as the same text. -/
theorem forall_not_shadowed_iff (h : o.Divided known whole) :
    (∀ s ∈ o.prepared.pending, ¬ o.Shadowed s) ↔ o.prepared.sent.Nodup := by
  rw [List.nodup_iff_getElem?_ne_getElem?]
  constructor
  · intro hnone i j hlt hj heq
    obtain ⟨s, hi⟩ : ∃ s, o.prepared.pending[i]? = some s :=
      ⟨_, List.getElem?_eq_getElem (h.length ▸ hlt.trans hj)⟩
    have hsent := List.getElem?_eq_getElem hj
    exact hnone _ (List.mem_of_getElem? hi) ⟨i, j, _, hlt, hi, heq.trans hsent, hsent⟩
  · rintro hne s - ⟨i, j, u, hlt, -, hi, hj⟩
    obtain ⟨hj', -⟩ := List.getElem?_eq_some_iff.mp hj
    exact hne i j hlt hj' (hi.trans hj.symm)

end Opening.Divided

end Localize.Batch
