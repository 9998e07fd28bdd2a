import Localize.Proofs.Batch.Purity
import Localize.Proofs.Batch.Replay

/-!
# A chunk that goes otherwise

Two runs open alike, and their chunks come out the same but for one. What that chunk brings back
stays with the strings that were sent in it: every other string has the same translation in both
runs, and the memories afterwards have the same texts under every key that is not one of theirs.
The final forms are the same for all chunks and the answers of all chunks are stored together, so
what has to be followed is the list of the answers less those for the strings of the chunk.
-/

namespace Localize.Batch

open Placeholder

/-! ### Results that agree but for some texts -/

/-- Results that are the same wherever they are not about some texts alone. -/
def AgreeBut (texts : List Text) (results results' : List ChunkResult) : Prop :=
  List.Forall₂ (fun r r' => r' = r ∨ r.texts ⊆ texts ∧ r'.texts ⊆ texts) results results'

variable {texts : List Text} {results results' : List ChunkResult}

theorem agreeBut_of_getElem? {chunks : List (List Text)} {j : Nat}
    (h : results.map ChunkResult.texts = chunks) (h' : results'.map ChunkResult.texts = chunks)
    (hsame : ∀ i ≠ j, results'[i]? = results[i]?) :
    AgreeBut (chunks[j]?.getD []) results results' := by
  have hlength : results.length = results'.length := by
    rw [← List.length_map ChunkResult.texts, h, ← h', List.length_map]
  have htexts : ∀ (results : List ChunkResult) (i : Nat) (hi : i < results.length),
      results.map ChunkResult.texts = chunks → chunks[i]?.getD [] = (results.get ⟨i, hi⟩).texts := by
    intro results i hi hchunks
    rw [← hchunks, List.getElem?_map, List.getElem?_eq_getElem hi]
    rfl
  refine List.forall₂_iff_get.mpr ⟨hlength, fun i hi hi' => ?_⟩
  by_cases hij : i = j
  · subst hij
    right
    rw [htexts results i hi h]
    refine ⟨List.Subset.refl _, ?_⟩
    rw [← htexts results i hi h, htexts results' i hi' h']
    exact List.Subset.refl _
  · left
    have hi₂ := hsame i hij
    rw [List.getElem?_eq_getElem hi, List.getElem?_eq_getElem hi'] at hi₂
    exact Option.some.inj hi₂

theorem AgreeBut.filter_served (h : AgreeBut texts results results') :
    (served results').filter (fun p => p.1 ∉ texts) =
      (served results).filter fun p => p.1 ∉ texts := by
  have hnone : ∀ r : ChunkResult, r.texts ⊆ texts →
      (r.texts.map (·, r)).filter (fun p => decide (p.1 ∉ texts)) = [] := by
    intro r hr
    rw [List.filter_eq_nil_iff]
    intro p hp
    obtain ⟨u, hu, rfl⟩ := List.mem_map.mp hp
    simpa using hr hu
  induction h with
  | nil => rfl
  | @cons r r' results results' hr _ ih =>
    rw [served_cons, served_cons, List.filter_append, List.filter_append, ih]
    rcases hr with rfl | ⟨hr, hr'⟩
    · rfl
    · rw [hnone r hr, hnone r' hr']

theorem AgreeBut.mem_served (h : AgreeBut texts results results') {p : Text × ChunkResult}
    (hp : p.1 ∉ texts) : p ∈ served results' ↔ p ∈ served results := by
  have hfilter := congrArg (p ∈ ·) h.filter_served
  simpa [hp] using hfilter

/-- What is looked for among other texts is found alike. -/
theorem AgreeBut.find?_served (h : AgreeBut texts results results')
    {found : Text × ChunkResult → Bool} (hfound : ∀ p, found p = true → p.1 ∉ texts) :
    (served results').reverse.find? found = (served results).reverse.find? found := by
  have hothers : ∀ results : List ChunkResult, (served results).reverse.find? found =
      ((served results).filter fun p => p.1 ∉ texts).reverse.find? found := by
    intro results
    rw [← List.filter_reverse, List.find?_filter]
    congr 1
    funext p
    by_cases hp : found p = true
    · simp [hp, hfound p hp]
    · simp [hp]
  rw [hothers, hothers, h.filter_served]

theorem AgreeBut.lastServed?_eq (h : AgreeBut texts results results') {u : Text}
    (hu : u ∉ texts) : lastServed? results' u = lastServed? results u := by
  rw [lastServed?, lastServed?, h.find?_served]
  intro p hp
  rw [Bool.and_eq_true, decide_eq_true_eq] at hp
  rw [hp.2]
  exact hu

/-! ### The strings of a chunk -/

/-- The texts sent in a chunk. -/
def Opening.chunk (o : Opening) (j : Nat) : List Text :=
  (chunksOf o.checked.chunkSize o.prepared.sent)[j]?.getD []

/-- A string that was sent as a text of a chunk. -/
def Opening.SentIn (o : Opening) (j : Nat) (s : Text) : Prop :=
  ∃ (i : Nat) (u : Text), o.prepared.pending[i]? = some s ∧ o.prepared.sent[i]? = some u ∧
    u ∈ o.chunk j

/-- Two runs have the same translations, and leave the same texts in a memory, for all strings that
were not sent in a chunk. -/
structure Opening.Isolated (o : Opening) (j : Nat) (first second : Table Text Json)
    (before after after' : Option Memory) : Prop where
  translations : ∀ s, ¬ o.SentIn j s → Table.find? second s = Table.find? first s
  memories : ∀ m, before = some m → ∃ m₁ m₂, after = some m₁ ∧ after' = some m₂ ∧
    ∀ key, (∀ s, o.SentIn j s → key ≠ m.key o.direction s) → m₂.textsAt key = m₁.textsAt key

variable {o : Opening} {known whole : Text → Option Json} {j : Nat} {s u : Text}

/-- A text sent leads back to a string of the chunk if it is a text of the chunk. -/
theorem Opening.Divided.sentIn_sourceIn_iff (hd : o.Divided known whole)
    (hu : u ∈ o.prepared.sent) : o.SentIn j (Collection.sourceIn o.sourceOf u) ↔ u ∈ o.chunk j := by
  obtain ⟨i, hs, hi, -⟩ := (sourceIn_eq_iff hd.length hu).mp rfl
  constructor
  · rintro ⟨i', u', hs', hi', hchunk⟩
    obtain rfl : i' = i := hd.index_unique hs' hs
    rw [hi] at hi'
    cases hi'
    exact hchunk
  · intro hchunk
    exact ⟨i, u, hs, hi, hchunk⟩

section Results

variable {answers answers' : Table Text Text} {translations translations' : Table Text Json}

/-- A string that was not sent in the chunk comes out the same. -/
theorem Opening.Ended.find?_isolated (h : o.Ended results answers translations)
    (h' : o.Ended results' answers' translations') (hd : o.Divided known whole)
    (hagree : AgreeBut (o.chunk j) results results') (hs : ¬ o.SentIn j s) :
    Table.find? translations' s = Table.find? translations s := by
  by_cases hpending : s ∈ o.prepared.pending
  · by_cases hshadowed : o.Shadowed s
    · have hnone : s ∉ o.settled.keys ∧
          ¬ ∃ u ∈ o.prepared.sent, Collection.sourceIn o.sourceOf u = s :=
        ⟨fun hk => (hd.mem_keys_settled.mp hk).2 hpending,
          fun hk => (hd.exists_source_iff.mp hk).2 hshadowed⟩
      have hlost : s ∉ translations.keys := by
        rw [h.mem_keys, not_or]
        exact hnone
      have hlost' : s ∉ translations'.keys := by
        rw [h'.mem_keys, not_or]
        exact hnone
      rw [Table.find?_eq_none_iff.mpr hlost, Table.find?_eq_none_iff.mpr hlost']
    · obtain ⟨i, hi⟩ := List.mem_iff_getElem?.mp hpending
      obtain ⟨u, -, hu, -⟩ := h.exists_served hd hi
      have hchunk : u ∉ o.chunk j := fun hchunk => hs ⟨i, u, hi, hu, hchunk⟩
      obtain ⟨hnone, hsome⟩ := h.find?_pending hd hi hu hshadowed
      obtain ⟨hnone', hsome'⟩ := h'.find?_pending hd hi hu hshadowed
      rw [hagree.lastServed?_eq hchunk] at hnone' hsome'
      cases hlast : lastServed? results u with
      | none => rw [hnone hlast, hnone' hlast]
      | some R =>
        obtain ⟨v, hv, hfind⟩ := hsome R hlast
        obtain ⟨v', hv', hfind'⟩ := hsome' R hlast
        obtain rfl : v' = v := Except.ok.inj (hv'.symm.trans hv)
        rw [hfind, hfind']
  · rw [h.find?_of_not_pending hd hpending, h'.find?_of_not_pending hd hpending]

/-! ### What is stored -/

open Classical in
/-- The answers for strings that were not sent in the chunk. -/
noncomputable def Opening.outside (o : Opening) (j : Nat) (answers : Table Text Text) :
    Table Text Text :=
  answers.filter fun p => decide (¬ o.SentIn j p.1)

open Classical in
theorem Opening.keys_outside (o : Opening) (j : Nat) (answers : Table Text Text) :
    Table.keys (o.outside j answers) = answers.keys.filter fun s => decide (¬ o.SentIn j s) :=
  Table.keys_filter answers fun s => decide (¬ o.SentIn j s)

theorem Opening.mem_keys_outside (o : Opening) (answers : Table Text Text) :
    s ∈ Table.keys (o.outside j answers) ↔ s ∈ answers.keys ∧ ¬ o.SentIn j s := by
  classical
  rw [o.keys_outside, List.mem_filter, decide_eq_true_eq]

theorem Opening.find?_outside (o : Opening) (answers : Table Text Text) (hs : ¬ o.SentIn j s) :
    Table.find? (o.outside j answers) s = Table.find? answers s := by
  classical
  exact Table.find?_filter answers (fun s => decide (¬ o.SentIn j s)) (decide_eq_true hs)

open Classical in
theorem outside_answers (hd : o.Divided known whole)
    (hcomplete : (served results).map Prod.fst = o.prepared.sent) :
    o.outside j (Collection.ofResults o.sourceOf results).answers =
      Table.ofPairs ((((served results).filter fun p => p.1 ∉ o.chunk j).filter fun p =>
        p.2.translations.isSome).map (Collection.answerIn o.sourceOf)) := by
  have hsource : ∀ p ∈ served results,
      decide (¬ o.SentIn j (Collection.sourceIn o.sourceOf p.1)) = decide (p.1 ∉ o.chunk j) := by
    intro p hp
    have hsent : p.1 ∈ o.prepared.sent := by
      rw [← hcomplete]
      exact List.mem_map_of_mem hp
    rw [decide_eq_decide, hd.sentIn_sourceIn_iff hsent]
  have hpairs : (Collection.ofResults o.sourceOf results).answers = Table.ofPairs
      (((served results).filter fun p => p.2.translations.isSome).map
        (Collection.answerIn o.sourceOf)) :=
    (Collection.foldl_addChunk o.sourceOf results .empty).1
  rw [Opening.outside, hpairs, Table.filter_ofPairs fun s => decide (¬ o.SentIn j s),
    List.filter_map, List.filter_filter, List.filter_filter]
  congr 2
  refine List.filter_congr fun p hp => ?_
  rw [Bool.and_comm (p.2.translations.isSome)]
  exact congrArg (· && _) (hsource p hp)

/-- Outside the chunk the same answers are restored. -/
theorem Opening.Ended.outside_answers_eq (h : o.Ended results answers translations)
    (h' : o.Ended results' answers' translations') (hd : o.Divided known whole)
    (hagree : AgreeBut (o.chunk j) results results') : o.outside j answers' = o.outside j answers := by
  have hcollected : o.outside j (Collection.ofResults o.sourceOf results').answers =
      o.outside j (Collection.ofResults o.sourceOf results).answers := by
    rw [outside_answers hd h'.complete, outside_answers hd h.complete, hagree.filter_served]
  obtain ⟨hkeys, hvalues⟩ := Glossary.restoreAll_ok h.restored
  obtain ⟨hkeys', hvalues'⟩ := Glossary.restoreAll_ok h'.restored
  refine Table.eq_of_find?_eq ?_ ?_ fun s hs => ?_
  · rw [o.keys_outside, o.keys_outside, hkeys, hkeys', ← o.keys_outside, ← o.keys_outside,
      hcollected]
  · rw [o.keys_outside]
    exact h'.nodup_keys_answers.filter _
  · obtain ⟨hmem, hout⟩ := (o.mem_keys_outside answers').mp hs
    rw [hkeys'] at hmem
    obtain ⟨x, hx⟩ := Option.isSome_iff_exists.mp (Table.mem_keys_iff.mp hmem)
    obtain ⟨v', hv', hfound'⟩ := hvalues' s x hx
    rw [← o.find?_outside _ hout, hcollected, o.find?_outside _ hout] at hx
    obtain ⟨v, hv, hfound⟩ := hvalues s x hx
    rw [o.find?_outside _ hout, o.find?_outside _ hout, hfound, hfound',
      Except.ok.inj (hv'.symm.trans hv)]

/-- Outside the chunk the same strings are without an answer. -/
theorem mem_unanswered_outside (hd : o.Divided known whole)
    (hcomplete : (served results).map Prod.fst = o.prepared.sent)
    (hcomplete' : (served results').map Prod.fst = o.prepared.sent)
    (hagree : AgreeBut (o.chunk j) results results') (hs : ¬ o.SentIn j s) :
    s ∈ (Collection.ofResults o.sourceOf results').unanswered ↔
      s ∈ (Collection.ofResults o.sourceOf results).unanswered := by
  have houtside : ∀ p : Text × ChunkResult, p.1 ∈ o.prepared.sent →
      Collection.sourceIn o.sourceOf p.1 = s → p.1 ∉ o.chunk j := by
    rintro p hp rfl hchunk
    exact hs ((hd.sentIn_sourceIn_iff hp).mpr hchunk)
  rw [Collection.mem_unanswered, Collection.mem_unanswered]
  constructor
  · rintro ⟨p, hp, hnone, hsource⟩
    have hsent : p.1 ∈ o.prepared.sent := hcomplete' ▸ List.mem_map_of_mem hp
    exact ⟨p, (hagree.mem_served (houtside p hsent hsource)).mp hp, hnone, hsource⟩
  · rintro ⟨p, hp, hnone, hsource⟩
    have hsent : p.1 ∈ o.prepared.sent := hcomplete ▸ List.mem_map_of_mem hp
    exact ⟨p, (hagree.mem_served (houtside p hsent hsource)).mpr hp, hnone, hsource⟩

open Classical in
/-- Outside the chunk the same answers go to the memory, in the same order. -/
theorem Opening.Ended.outside_answered_eq (h : o.Ended results answers translations)
    (h' : o.Ended results' answers' translations') (hd : o.Divided known whole)
    (hagree : AgreeBut (o.chunk j) results results') :
    o.outside j ((Collection.ofResults o.sourceOf results').answered answers') =
      o.outside j ((Collection.ofResults o.sourceOf results).answered answers) := by
  have hanswers := h.outside_answers_eq h' hd hagree
  have hcomm : ∀ (c : Collection) (answers : Table Text Text),
      o.outside j (c.answered answers) = c.answered (o.outside j answers) := by
    intro c answers
    rw [Opening.outside, Opening.outside, Collection.answered, Collection.answered,
      List.filter_filter, List.filter_filter]
    exact List.filter_congr fun p _ => Bool.and_comm _ _
  rw [hcomm, hcomm, hanswers, Collection.answered, Collection.answered]
  refine List.filter_congr fun p hp => ?_
  have hout : ¬ o.SentIn j p.1 := by simpa using (List.mem_filter.mp hp).2
  have hiff := mem_unanswered_outside hd h.complete h'.complete hagree hout
  simp [hiff]

/-- Storing the answers of both runs leaves the same texts under every key that is not one of a
string of the chunk. -/
theorem Opening.Ended.textsAt_isolated (h : o.Ended results answers translations)
    (h' : o.Ended results' answers' translations') (hd : o.Divided known whole)
    (hagree : AgreeBut (o.chunk j) results results') {now now' : Nat} {m m₁ m₂ n₁ n₂ : Memory}
    (hused₁ : m.Used m₁) (hused₂ : m.Used m₂)
    (hholds₁ : m₁.Holds (((Collection.ofResults o.sourceOf results).answered answers).map
      fun p => (m₁.key o.direction p.1, Memory.stored now o.direction o.notes p)) n₁)
    (hholds₂ : m₂.Holds (((Collection.ofResults o.sourceOf results').answered answers').map
      fun p => (m₂.key o.direction p.1, Memory.stored now' o.direction o.notes p)) n₂)
    {key : Json} (hkey : ∀ s, o.SentIn j s → key ≠ m.key o.direction s) :
    n₂.textsAt key = n₁.textsAt key := by
  have hothers : ∀ answers : Table Text Text,
      (answers.reverse.find? fun p => m.key o.direction p.1 = key) =
        (o.outside j answers).reverse.find? fun p => m.key o.direction p.1 = key := by
    classical
    intro answers
    rw [Opening.outside, ← List.filter_reverse, List.find?_filter]
    congr 1
    funext p
    by_cases hp : m.key o.direction p.1 = key
    · have hout : ¬ o.SentIn j p.1 := fun hin => hkey p.1 hin hp.symm
      simp [hp, hout]
    · simp [hp]
  rw [hholds₂.textsAt_eq, hholds₁.textsAt_eq, hused₂.texts, hused₁.texts]
  simp only [Memory.key_congr hused₁.digest, Memory.key_congr hused₂.digest]
  rw [hothers, h.outside_answered_eq h' hd hagree, ← hothers]

end Results

/-! ### Coming to a result -/

variable {σ τ : Type} {t : Translator σ} {t' : Translator τ} {g : Option Glossary} {now now' : Nat}
  {r : Request} {w : Workspace σ} {w' : Workspace τ} {result : Result}

/-- Where all final forms are texts, whatever comes back is restored. -/
theorem exists_restoreAll {language : Text} {strings : List Text} {p : Glossary.Preparation}
    (hprep : prepareFor g language strings = .ok p)
    (hforms : ∀ g', g = some g' → g'.TextualIn language) (texts : Table Text Text) :
    ∃ restored, Glossary.restoreAll p.reservations texts = .ok restored := by
  refine exists_mapM_ok fun q _ => ?_
  suffices hrestore : ∃ v, Glossary.restore p.reservations q.2 = .ok v by
    obtain ⟨v, hv⟩ := hrestore
    exact ⟨(q.1, v), bind_ok_iff.mpr ⟨v, hv, rfl⟩⟩
  cases g with
  | none =>
    cases hprep
    exact ⟨q.2, rfl⟩
  | some g =>
    rw [prepareFor_some] at hprep
    obtain ⟨-, rfl⟩ := Glossary.prepare_ok_iff.mp hprep
    exact ⟨_, Glossary.restore_reservedFrom (hforms g rfl) 0 _ q.2⟩

/-- Only strings that were sent are answered, and these are not blank. -/
theorem Opening.Divided.takes_answered (hd : o.Divided known whole)
    (hcomplete : (served results).map Prod.fst = o.prepared.sent) {answers : Table Text Text}
    (hrestored : Glossary.restoreAll o.prepared.reservations
      (Collection.ofResults o.sourceOf results).answers = .ok answers)
    {m : Memory} (hadditions : m.counters.additions.quantity?.isSome) :
    m.Takes ((Collection.ofResults o.sourceOf results).answered answers) := by
  have hended : o.Ended results answers _ := ⟨hcomplete, hrestored, rfl⟩
  intro p hp
  refine ⟨?_, hadditions⟩
  have hkey : p.1 ∈ answers.keys := List.mem_map.mpr ⟨p, (List.mem_filter.mp hp).1, rfl⟩
  have hpending := hended.mem_pending_of_mem_answers hd hkey
  exact (mem_unique.mp (hd.mem_pending.mp hpending).1).2

/-- Whatever the translator answers, an opened run comes to a result, if the translator can be
prepared, the pauses can be told, all final forms are texts and the memory can be saved. -/
theorem exists_send_result {larger : Volume} (hd : o.Divided known whole)
    (hprep : prepareFor g o.checked.language o.recalled.missing = .ok o.prepared)
    (hforms : ∀ g', g = some g' → g'.TextualIn o.checked.language)
    (hpaced : (o.course (chunksOf o.checked.chunkSize o.prepared.sent).length).Paced 0
      (chunksOf o.checked.chunkSize o.prepared.sent).length)
    (hprepare : (t.prepare w.translator).1 = .ok ())
    (hadditions : ∀ m, w.memory = some m → m.counters.additions.quantity?.isSome)
    (hsavable : w.Savable larger) (now : Nat) :
    ∃ result, (o.send t now w).result = .ok result := by
  unfold Opening.send
  cases hprepared : t.prepare w.translator with
  | mk outcome s =>
    rw [hprepared] at hprepare
    obtain rfl : outcome = .ok () := hprepare
    obtain ⟨trace, s', hrun⟩ := exists_runFrom hpaced t 0 0 s
    obtain ⟨-, calls, -, hchunks, hresults⟩ := runFrom_ok hrun
    have hcomplete : (served trace.results).map Prod.fst = o.prepared.sent := by
      rw [map_fst_served, hresults, texts_resultsFrom, hchunks, flatten_chunksOf]
    obtain ⟨answers, hrestored⟩ := exists_restoreAll hprep hforms
      (Collection.ofResults o.sourceOf trace.results).answers
    simp only [run, hrun, Opening.close, hrestored, remember]
    cases hm : w.memory with
    | none => exact ⟨_, rfl⟩
    | some m =>
      obtain ⟨m', v', hstore, -⟩ := Memory.exists_storeAll
        (hd.takes_answered hcomplete hrestored (hadditions m hm)) hsavable.free
        (hsavable.content? hm) now o.direction o.notes
      simp only [hstore]
      exact ⟨_, rfl⟩

/-! ### Two runs -/

namespace Opening.Finished

variable {calls calls' : List Call} {answers answers' : Table Text Text} {e : Ending σ}
  {e' : Ending τ} {w₁ : Workspace σ} {w₁' : Workspace τ} {result' : Result}

theorem texts_results (h : o.Finished t now w calls answers e) :
    e.trace.results.map ChunkResult.texts = chunksOf o.checked.chunkSize o.prepared.sent := by
  rw [h.results, texts_resultsFrom, h.chunks]

/-- Two runs that have opened alike and whose chunks but one come out the same. -/
theorem isolated {before : Option Memory} (h : o.Finished t now w₁ calls answers e)
    (h' : o.Finished t' now' w₁' calls' answers' e') (hd : o.Divided known whole)
    (hresult : e.result = .ok result) (hresult' : e'.result = .ok result')
    (hmemory : ∀ m, before = some m → ∃ m₁, w₁.memory = some m₁ ∧ m.Used m₁)
    (hmemory' : ∀ m, before = some m → ∃ m₁, w₁'.memory = some m₁ ∧ m.Used m₁)
    (hsame : ∀ i ≠ j, e'.trace.results[i]? = e.trace.results[i]?) :
    o.Isolated j result.translations result'.translations before e.workspace.memory
      e'.workspace.memory := by
  have hagree : AgreeBut (o.chunk j) e.trace.results e'.trace.results :=
    agreeBut_of_getElem? h.texts_results h'.texts_results hsame
  have hended := h.ended hresult
  have hended' := h'.ended hresult'
  constructor
  case translations => exact fun s hs => hended.find?_isolated hended' hd hagree hs
  case memories =>
    intro m hm
    obtain ⟨m₁, hm₁, hused₁⟩ := hmemory m hm
    obtain ⟨m₂, hm₂, hused₂⟩ := hmemory' m hm
    obtain ⟨n₁, v₁, v₁', hn₁, hstore₁⟩ := h.remembered m₁ hm₁
    obtain ⟨n₂, v₂, v₂', hn₂, hstore₂⟩ := h'.remembered m₂ hm₂
    refine ⟨n₁, n₂, hn₁, hn₂, fun key hkey => ?_⟩
    exact hended.textsAt_isolated hended' hd hagree hused₁ hused₂ (Memory.storeAll_ok hstore₁)
      (Memory.storeAll_ok hstore₂) hkey

end Opening.Finished

/-- Two runs of one request over one memory, whose chunks come out the same but for one: that chunk
changes neither the translation of a string that was not sent in it nor what the memory holds under
a key that is not one of its strings'. The second run has a result whatever its chunks bring back,
unless something else keeps it from one. -/
theorem chunk_isolated (hmemory : w'.memory = w.memory)
    (h : (translate t g now r w).result = .ok result)
    (hsame : ∀ i ≠ j, (translate t' g now' r w').trace.results[i]? =
      (translate t g now r w).trace.results[i]?) :
    ∃ o w₁, openRun g now r w = (.ok o, w₁) ∧
      (∀ larger, w'.Savable larger → (t'.prepare w'.translator).1 = .ok () →
        (∀ g', g = some g' → g'.TextualIn o.checked.language) →
        (∀ m, w.memory = some m → m.counters.additions.quantity?.isSome) →
        ∃ result', (translate t' g now' r w').result = .ok result') ∧
      ∀ result', (translate t' g now' r w').result = .ok result' →
        o.Isolated j result.translations result'.translations w.memory
          (translate t g now r w).workspace.memory (translate t' g now' r w').workspace.memory := by
  obtain ⟨o, w₁, calls, answers, hopen, hfinished⟩ := translate_finished h
  obtain ⟨-, -, hprep, hd, -, hused⟩ := openRun_ok hopen
  refine ⟨o, w₁, hopen, fun larger hsavable hprepare hforms hadditions => ?_,
    fun result' h' => ?_⟩
  · obtain ⟨w₁', hopen'⟩ := openRun_alike (.of_memory_eq r.direction hmemory) hopen now'
    obtain ⟨⟨hvolume, htranslator⟩, halike⟩ := openRun_kept hopen'
    have hlength : (chunksOf o.checked.chunkSize o.prepared.sent).length = calls.length := by
      rw [← hfinished.chunks, List.length_map]
    have hpaced := hfinished.paced
    rw [← hlength] at hpaced
    unfold translate
    simp only [hopen']
    split
    · exact ⟨_, rfl⟩
    · refine exists_send_result hd hprep hforms hpaced (htranslator ▸ hprepare) (fun m hm => ?_)
        (hsavable.of_alike (halike r.direction) hvolume) now'
      cases halike r.direction with
      | without _ hnone => exact absurd (hm.symm.trans hnone) (Option.some_ne_none m)
      | @both m' m'' hm' hm'' hmm =>
        obtain rfl : m'' = m := Option.some.inj (hm''.symm.trans hm)
        exact hmm.counters.additions.mpr (hadditions m' (hmemory ▸ hm'))
  · obtain ⟨o', w₁', calls', answers', hopen', hfinished'⟩ := translate_finished h'
    have hknown : w'.known? r.direction = w.known? r.direction :=
      (Workspace.Alike.of_memory_eq r.direction hmemory).known?_eq
    obtain rfl := opening_eq hknown hopen hopen'
    obtain ⟨-, -, -, -, -, hused'⟩ := openRun_ok hopen'
    refine hfinished.isolated hfinished' hd h h' (fun m hm => ?_) (fun m hm => ?_) hsame
    · obtain ⟨m₁, hm₁, hmm, -⟩ := hused m hm
      exact ⟨m₁, hm₁, hmm⟩
    · obtain ⟨m₁, hm₁, hmm, -⟩ := hused' m (hmemory.trans hm)
      exact ⟨m₁, hm₁, hmm⟩

/-- A greeting and a farewell in chunks of one, where the chunk of the farewell may fail. -/
def partingRun (fails : Bool) : Ending Unit :=
  translate (.computing fun texts _ _ =>
      if fails && texts.contains "Bye".toList then .failed
      else .gave (.obj (texts.map fun t => (t, .str (t ++ ['!'])))) .null)
    none 0 greetingAgain (.fresh (some blankMemory))

/-- The greeting is translated and remembered, whether the farewell is lost or not. -/
theorem chunk_isolated_parting : ∃ result result' m₁ m₂,
    (partingRun false).result = .ok result ∧ (partingRun true).result = .ok result' ∧
      (partingRun false).workspace.memory = some m₁ ∧
      (partingRun true).workspace.memory = some m₂ ∧
      result.translations.length = 2 ∧
      Table.find? result'.translations "Bye".toList ≠
        Table.find? result.translations "Bye".toList ∧
      Table.find? result'.translations "Hello".toList =
        Table.find? result.translations "Hello".toList ∧
      m₂.textsAt (blankMemory.key ⟨Json.lit "en", Json.lit "es"⟩ "Hello".toList) =
        m₁.textsAt (blankMemory.key ⟨Json.lit "en", Json.lit "es"⟩ "Hello".toList) := by
  have hrun : (partingRun false).result.toOption.any (fun result =>
      decide (result.translations.length = 2 ∧
        Table.find? result.translations "Bye".toList = some (Json.lit "Bye!"))) = true := by
    decide +kernel
  have hrun' : (partingRun true).result.toOption.any (fun result =>
      Table.find? result.translations "Bye".toList = some (Json.lit "Bye")) = true := by
    decide +kernel
  obtain ⟨result, hresult, hchecked⟩ := exists_result hrun
  obtain ⟨hlength, hbye⟩ := of_decide_eq_true hchecked
  obtain ⟨result', hresult', hbye'⟩ := exists_result hrun'
  have hbye' := of_decide_eq_true hbye'
  have hsame : ∀ i ≠ 1, (partingRun true).trace.results[i]? =
      (partingRun false).trace.results[i]? := by
    have hfirst : (partingRun true).trace.results[0]? = (partingRun false).trace.results[0]? := by
      decide +kernel
    have hcount : (partingRun true).trace.results.length = 2 ∧
        (partingRun false).trace.results.length = 2 := by
      decide +kernel
    intro i hi
    rcases Nat.lt_or_ge i 2 with hlt | hge
    · obtain rfl : i = 0 := by omega
      exact hfirst
    · rw [List.getElem?_eq_none (hcount.1 ▸ hge), List.getElem?_eq_none (hcount.2 ▸ hge)]
  obtain ⟨o, w₁, hopen, -, hisolated⟩ := chunk_isolated rfl hresult hsame
  have hchunks : ((openRun none 0 greetingAgain
      (.fresh (some blankMemory))).1.toOption.all fun o =>
        decide (o.prepared.pending = ["Hello".toList, "Bye".toList] ∧
          o.prepared.sent = ["Hello".toList, "Bye".toList] ∧ o.chunk 1 = ["Bye".toList] ∧
          o.direction = ⟨Json.lit "en", Json.lit "es"⟩)) = true := by
    decide +kernel
  rw [hopen] at hchunks
  obtain ⟨hpending, hsent, hchunk, hdirection⟩ := of_decide_eq_true hchunks
  have hsentIn : ∀ s, o.SentIn 1 s → s = "Bye".toList := by
    rintro s ⟨i, u, hi, hu, hin⟩
    rw [hpending] at hi
    rw [hsent, hi] at hu
    rw [hchunk, List.mem_singleton] at hin
    exact (Option.some.inj hu).trans hin
  obtain ⟨htranslations, hmemories⟩ := hisolated result' hresult'
  obtain ⟨m₁, m₂, hm₁, hm₂, hkeys⟩ := hmemories blankMemory rfl
  refine ⟨result, result', m₁, m₂, hresult, hresult', hm₁, hm₂, hlength, ?_, ?_, ?_⟩
  · rw [hbye, hbye']
    decide
  · exact htranslations _ fun hin => absurd (hsentIn _ hin) (by decide)
  · refine hkeys _ fun s hin => ?_
    rw [hsentIn s hin, hdirection]
    decide +kernel

end Localize.Batch
