import Localize.Proofs.Batch.Collection
import Localize.Proofs.Outcome

/-!
# The end of a run

A run ends with a result only if everything that was sent has been served. The result lays over
what was settled first the strings of failed chunks and then the restored answers, so a string has
a translation if it was settled or if some text that was sent leads back to it.
-/

namespace Localize.Batch

/-- How the translations of a result come about from an opening and the results of the chunks. -/
structure Opening.Ended (o : Opening) (results : List ChunkResult) (answers : Table Text Text)
    (translations : Table Text Json) : Prop where
  complete : (served results).map Prod.fst = o.prepared.sent
  restored : Glossary.restoreAll o.prepared.reservations
    (Collection.ofResults o.sourceOf results).answers = .ok answers
  translations : translations =
    o.translations (Collection.ofResults o.sourceOf results) answers

/-- What is collected from the calls of a run. -/
def Opening.collected (o : Opening) (calls : List Call) : Collection :=
  Collection.ofResults o.sourceOf (resultsFrom 0 calls)

/-- How an opened run comes to a result: the translator is asked for every chunk of the strings
sent, if there are any, and the answers are restored and stored. -/
structure Opening.Finished {σ : Type} (o : Opening) (t : Translator σ) (now : Nat)
    (w : Workspace σ) (calls : List Call) (answers : Table Text Text) (e : Ending σ) : Prop where
  session : t.Session o.checked.language (o.course calls.length).prompt w.translator calls
    e.workspace.translator
  chunks : calls.map Call.texts = chunksOf o.checked.chunkSize o.prepared.sent
  paced : (o.course calls.length).Paced 0 calls.length
  results : e.trace.results = resultsFrom 0 calls
  restored :
    Glossary.restoreAll o.prepared.reservations (o.collected calls).answers = .ok answers
  stored : remember { w with translator := e.workspace.translator } now o.direction o.notes
    ((o.collected calls).answered answers) = (.ok (), e.workspace)
  result : e.result = .ok (o.result now (o.translations (o.collected calls) answers)
    (o.collected calls) calls.length)

/-- The answers of a run have been stored in its memory. -/
def Opening.Remembered (o : Opening) (now : Nat) (results : List ChunkResult)
    (answers : Table Text Text) (before after : Option Memory) : Prop :=
  ∀ m, before = some m → ∃ m' v v', after = some m' ∧
    m.storeAll now v o.direction o.notes
      (((Collection.ofResults o.sourceOf results).answered answers).map
        fun p => (p.1, .str p.2)) = (.ok (), m', v')

variable {σ : Type} {t : Translator σ} {g : Option Glossary} {now : Nat} {r : Request}
  {w w' : Workspace σ} {o : Opening} {result : Result}

theorem remember_nil (w : Workspace σ) (now : Nat) (d : Memory.Direction) (notes : Fields) :
    remember w now d notes [] = (.ok (), w) := by
  obtain ⟨memory, volume, translator⟩ := w
  cases memory with
  | none => rfl
  | some m => rfl

theorem translator_remember (w : Workspace σ) (now : Nat) (d : Memory.Direction) (notes : Fields)
    (answers : List (Text × Text)) :
    (remember w now d notes answers).2.translator = w.translator := by
  unfold remember
  split
  · rfl
  · rfl

theorem remember_ok {d : Memory.Direction} {notes : Fields} {answers : List (Text × Text)}
    (h : remember w now d notes answers = (.ok (), w')) {m : Memory} (hm : w.memory = some m) :
    ∃ m' v', w'.memory = some m' ∧
      m.storeAll now w.volume d notes (answers.map fun p => (p.1, .str p.2)) =
        (.ok (), m', v') := by
  unfold remember at h
  simp only [hm] at h
  cases hstore : m.storeAll now w.volume d notes (answers.map fun p => (p.1, .str p.2)) with
  | mk outcome rest =>
    obtain ⟨m', v'⟩ := rest
    rw [hstore] at h
    cases h
    exact ⟨m', v', rfl, rfl⟩

/-- A run that closes with a result has restored the answers and stored them. -/
theorem close_ok {trace : Trace} {chunks : Nat}
    (h : (o.close now trace chunks w).result = .ok result) :
    ∃ answers w₁, Glossary.restoreAll o.prepared.reservations
        (Collection.ofResults o.sourceOf trace.results).answers = .ok answers ∧
      remember w now o.direction o.notes
        ((Collection.ofResults o.sourceOf trace.results).answered answers) = (.ok (), w₁) ∧
      o.close now trace chunks w =
        ⟨.ok (o.result now (o.translations (Collection.ofResults o.sourceOf trace.results) answers)
          (Collection.ofResults o.sourceOf trace.results) chunks), trace, w₁⟩ := by
  unfold Opening.close at h ⊢
  cases hrestored : Glossary.restoreAll o.prepared.reservations
      (Collection.ofResults o.sourceOf trace.results).answers with
  | error fault =>
    simp only [hrestored] at h
    cases h
  | ok answers =>
    simp only [hrestored] at h ⊢
    cases hremember : remember w now o.direction o.notes
        ((Collection.ofResults o.sourceOf trace.results).answered answers) with
    | mk outcome w₁ =>
      cases outcome with
      | error failure =>
        simp only [hremember] at h
        cases h
      | ok u => exact ⟨answers, w₁, rfl, hremember, rfl⟩

/-- A run that sends something and has a result has asked the translator for every chunk. -/
theorem send_ok (hsent : o.prepared.sent ≠ []) (h : (o.send t now w).result = .ok result) :
    ∃ calls answers, o.Finished t now w calls answers (o.send t now w) := by
  unfold Opening.send at h ⊢
  cases hprepare : t.prepare w.translator with
  | mk outcome s =>
    cases outcome with
    | error failure =>
      simp only [hprepare] at h
      cases h
    | ok u =>
      simp only [hprepare] at h ⊢
      cases hrun : run t (o.course (chunksOf o.checked.chunkSize o.prepared.sent).length)
          (chunksOf o.checked.chunkSize o.prepared.sent) s with
      | mk ended rest =>
        obtain ⟨trace, s'⟩ := rest
        cases ended with
        | error fault =>
          simp only [hrun] at h
          cases h
        | ok u =>
          simp only [hrun] at h ⊢
          obtain ⟨hpaced, calls, hanswers, hchunks, hresults⟩ := runFrom_ok hrun
          obtain ⟨answers, w', hrestored, hremember, hclose⟩ := close_ok h
          have hlength : (chunksOf o.checked.chunkSize o.prepared.sent).length = calls.length := by
            rw [← hchunks, List.length_map]
          have hcalls : calls ≠ [] := by
            rintro rfl
            have hflatten := flatten_chunksOf o.checked.chunkSize o.prepared.sent
            rw [← hchunks] at hflatten
            exact hsent hflatten.symm
          have hstate : w'.translator = s' := by
            have hkept := translator_remember { w with translator := s' } now o.direction o.notes
              ((Collection.ofResults o.sourceOf trace.results).answered answers)
            rw [hremember] at hkept
            exact hkept
          rw [hlength] at hclose hanswers hpaced ⊢
          rw [hresults] at hrestored hremember hclose
          rw [hclose]
          refine ⟨calls, answers, ?_, hchunks, hpaced, hresults, hrestored, ?_, rfl⟩
          · rw [hstate]
            exact .used hprepare hcalls hanswers
          · rw [hstate]
            exact hremember

/-- How a run goes that has a result. -/
theorem translate_finished (h : (translate t g now r w).result = .ok result) :
    ∃ o w₁ calls answers, openRun g now r w = (.ok o, w₁) ∧
      o.Finished t now w₁ calls answers (translate t g now r w) := by
  unfold translate at h ⊢
  cases hopen : openRun g now r w with
  | mk outcome w₁ =>
    cases outcome with
    | error failure =>
      simp only [hopen] at h
      cases h
    | ok o =>
      simp only [hopen] at h ⊢
      refine ⟨o, w₁, ?_⟩
      cases hsent : o.prepared.sent with
      | nil =>
        simp only [List.isEmpty_nil, if_true]
        refine ⟨[], [], trivial, .unused _, ?_, fun i hi => absurd hi (Nat.not_lt_zero i), rfl, rfl,
          remember_nil _ _ _ _, rfl⟩
        rw [hsent, chunksOf]
        rfl
      | cons u sent =>
        have hne : o.prepared.sent ≠ [] := by
          rw [hsent]
          exact List.cons_ne_nil u sent
        simp only [hsent, List.isEmpty_cons, Bool.false_eq_true, if_false] at h ⊢
        obtain ⟨calls, answers, hfinished⟩ := send_ok hne h
        exact ⟨calls, answers, trivial, hfinished⟩

namespace Opening.Finished

variable {calls : List Call} {answers : Table Text Text} {e : Ending σ}

theorem ended (h : o.Finished t now w calls answers e) (hresult : e.result = .ok result) :
    o.Ended e.trace.results answers result.translations := by
  have hsame := Except.ok.inj (hresult.symm.trans h.result)
  constructor
  · rw [map_fst_served, h.results, texts_resultsFrom, h.chunks, flatten_chunksOf]
  · rw [h.results]
    exact h.restored
  · rw [hsame, h.results]
    rfl

theorem remembered (h : o.Finished t now w calls answers e) :
    o.Remembered now e.trace.results answers w.memory e.workspace.memory := by
  intro m hm
  obtain ⟨m', v', hm', hstore⟩ := remember_ok h.stored hm
  rw [h.results]
  exact ⟨m', _, v', hm', hstore⟩

end Opening.Finished

theorem translate_ok (h : (translate t g now r w).result = .ok result) :
    ∃ o w₁ answers, openRun g now r w = (.ok o, w₁) ∧
      o.Ended (translate t g now r w).trace.results answers result.translations ∧
      o.Remembered now (translate t g now r w).trace.results answers w₁.memory
        (translate t g now r w).workspace.memory := by
  obtain ⟨o, w₁, calls, answers, hopen, hfinished⟩ := translate_finished h
  exact ⟨o, w₁, answers, hopen, hfinished.ended h, hfinished.remembered⟩

namespace Opening.Ended

variable {results : List ChunkResult} {answers : Table Text Text} {translations : Table Text Json}
  {s : Text}

theorem nodup_keys_answers (h : o.Ended results answers translations) : answers.keys.Nodup := by
  rw [(Glossary.restoreAll_ok h.restored).1]
  exact Collection.nodup_keys_answers _ _

theorem nodup_keys_translations (h : o.Ended results answers translations)
    (hn : o.settled.keys.Nodup) : translations.keys.Nodup := by
  rw [h.translations, Opening.translations]
  exact Table.nodup_keys_merge (Table.nodup_keys_merge hn _) _

/-- Answers come before the strings of failed chunks, and these before what was settled. -/
theorem find?_eq (h : o.Ended results answers translations) (s : Text) :
    Table.find? translations s = ((Table.find? answers s).map Json.str).or
      ((if s ∈ (Collection.ofResults o.sourceOf results).kept then some (.str s) else none).or
        (Table.find? o.settled s)) := by
  have hanswers : Table.find? (answers.map fun p => (p.1, Json.str p.2)).reverse s =
      (Table.find? answers s).map Json.str := by
    have hkeys : (Table.keys (answers.map fun p => (p.1, Json.str p.2))).Nodup := by
      rw [Table.keys, List.map_map]
      exact h.nodup_keys_answers
    rw [Table.find?_reverse hkeys]
    exact Table.find?_map_values answers Json.str s
  have hkept : ∀ kept : List Text, Table.find? (kept.map fun t => (t, Json.str t)).reverse s =
      if s ∈ kept then some (.str s) else none := by
    intro kept
    simp only [← List.map_reverse, Table.find?_map_self, List.mem_reverse]
  rw [h.translations, Opening.translations]
  simp only [Table.find?_merge, hkept]
  rw [← hanswers]

theorem mem_keys_answers (h : o.Ended results answers translations) :
    s ∈ answers.keys ↔ ∃ p ∈ served results, p.2.translations ≠ none ∧
      Collection.sourceIn o.sourceOf p.1 = s := by
  rw [(Glossary.restoreAll_ok h.restored).1, Table.mem_keys_iff, Collection.find?_answers,
    Option.isSome_map, List.find?_isSome]
  simp [Option.isSome_iff_ne_none]

/-- A string has a translation if it was settled or some text sent leads back to it. -/
theorem mem_keys (h : o.Ended results answers translations) :
    s ∈ translations.keys ↔ s ∈ o.settled.keys ∨
      ∃ u ∈ o.prepared.sent, Collection.sourceIn o.sourceOf u = s := by
  have hserved : ∀ u, u ∈ o.prepared.sent ↔ ∃ p ∈ served results, p.1 = u := by
    intro u
    rw [← h.complete, List.mem_map]
  have hkept : s ∈ (Collection.ofResults o.sourceOf results).kept ↔
      ∃ p ∈ served results, p.2.translations = none ∧
        Collection.sourceIn o.sourceOf p.1 = s := Collection.mem_kept
  rw [Table.mem_keys_iff, h.find?_eq, Option.isSome_or, Option.isSome_or, Option.isSome_map,
    Bool.or_eq_true, Bool.or_eq_true, ← Table.mem_keys_iff, ← Table.mem_keys_iff,
    h.mem_keys_answers]
  constructor
  · rintro (⟨p, hp, -, hsource⟩ | hk | hsettled)
    · exact .inr ⟨p.1, (hserved p.1).mpr ⟨p, hp, rfl⟩, hsource⟩
    · by_cases hmem : s ∈ (Collection.ofResults o.sourceOf results).kept
      · obtain ⟨p, hp, -, hsource⟩ := hkept.mp hmem
        exact .inr ⟨p.1, (hserved p.1).mpr ⟨p, hp, rfl⟩, hsource⟩
      · rw [if_neg hmem] at hk
        cases hk
    · exact .inl hsettled
  · rintro (hsettled | ⟨u, hu, hsource⟩)
    · exact .inr (.inr hsettled)
    · obtain ⟨p, hp, rfl⟩ := (hserved u).mp hu
      by_cases hfailed : p.2.translations = none
      · refine .inr (.inl ?_)
        rw [if_pos (hkept.mpr ⟨p, hp, hfailed, hsource⟩)]
        rfl
      · exact .inl ⟨p, hp, hfailed, hsource⟩

theorem mem_sent_of_served (h : o.Ended results answers translations) {p : Text × ChunkResult}
    (hp : p ∈ served results) : p.1 ∈ o.prepared.sent := by
  rw [← h.complete]
  exact List.mem_map_of_mem hp

variable {known whole : Text → Option Json} {i : Nat} {u : Text}

/-- Only strings that were sent are answered. -/
theorem mem_pending_of_mem_answers (h : o.Ended results answers translations)
    (hd : o.Divided known whole) (hs : s ∈ answers.keys) : s ∈ o.prepared.pending := by
  obtain ⟨p, hp, -, hsource⟩ := h.mem_keys_answers.mp hs
  exact (hd.exists_source_iff.mp ⟨p.1, h.mem_sent_of_served hp, hsource⟩).1

/-- Where no two strings are sent as the same text, all strings of the request have translations. -/
theorem mem_keys_iff_of_nodup (h : o.Ended results answers translations)
    (hd : o.Divided known whole) (hn : o.prepared.sent.Nodup) :
    s ∈ translations.keys ↔ s ∈ unique o.checked.strings := by
  rw [h.mem_keys, hd.exists_source_iff, hd.mem_keys_settled]
  constructor
  · rintro (⟨hs, -⟩ | ⟨hs, -⟩)
    · exact hs
    · exact (hd.mem_pending.mp hs).1
  · intro hs
    by_cases hpending : s ∈ o.prepared.pending
    · exact .inr ⟨hpending, hd.forall_not_shadowed_iff.mpr hn s hpending⟩
    · exact .inl ⟨hs, hpending⟩

/-- What has been sent for a string has been served. -/
theorem exists_served (h : o.Ended results answers translations) (hd : o.Divided known whole)
    (hs : o.prepared.pending[i]? = some s) :
    ∃ u R, o.prepared.sent[i]? = some u ∧ (served results)[i]? = some (u, R) := by
  obtain ⟨hlt, -⟩ := List.getElem?_eq_some_iff.mp hs
  have hlength : (served results).length = o.prepared.pending.length := by
    rw [← hd.length, ← h.complete, List.length_map]
  obtain ⟨p, hp⟩ : ∃ p, (served results)[i]? = some p :=
    ⟨_, List.getElem?_eq_getElem (hlength ▸ hlt)⟩
  refine ⟨p.1, p.2, ?_, hp⟩
  rw [← h.complete, List.getElem?_map, hp]
  rfl

/-- A string that was not sent has what was settled. -/
theorem find?_of_not_pending (h : o.Ended results answers translations)
    (hd : o.Divided known whole) (hs : s ∉ o.prepared.pending) :
    Table.find? translations s = Table.find? o.settled s := by
  have hsource : ∀ p ∈ served results, Collection.sourceIn o.sourceOf p.1 ≠ s := by
    intro p hp hps
    exact hs (hd.exists_source_iff.mp ⟨p.1, h.mem_sent_of_served hp, hps⟩).1
  have hanswers : Table.find? answers s = none := by
    rw [Table.find?_eq_none_iff, h.mem_keys_answers]
    rintro ⟨p, hp, -, hps⟩
    exact hsource p hp hps
  have hkept : s ∉ (Collection.ofResults o.sourceOf results).kept := by
    rw [Collection.mem_kept]
    rintro ⟨p, hp, -, hps⟩
    exact hsource p hp hps
  rw [h.find?_eq, hanswers, if_neg hkept]
  rfl

/-- What is answered for a string that is not shadowed. -/
theorem find?_answers_pending (h : o.Ended results answers translations)
    (hd : o.Divided known whole) (hs : o.prepared.pending[i]? = some s)
    (hu : o.prepared.sent[i]? = some u) (hshadowed : ¬ o.Shadowed s) :
    (lastServed? results u = none → Table.find? answers s = none) ∧
      ∀ R, lastServed? results u = some R →
        ∃ v, Glossary.restore o.prepared.reservations ((R.answer? u).getD u) = .ok v ∧
          Table.find? answers s = some v := by
  have hfind : (served results).reverse.find? (fun p => p.2.translations.isSome &&
        decide (Collection.sourceIn o.sourceOf p.1 = s)) =
      (served results).reverse.find? fun p =>
        p.2.translations.isSome && decide (p.1 = u) := by
    rw [← List.head?_filter, ← List.head?_filter]
    refine congrArg List.head? (List.filter_congr fun p hp => ?_)
    have hp := h.mem_sent_of_served (List.mem_reverse.mp hp)
    rw [decide_eq_decide.mpr (hd.sourceIn_eq_iff_eq hs hu hshadowed hp)]
  have hlast : Table.find? (Collection.ofResults o.sourceOf results).answers s =
      (lastServed? results u).map fun R => (R.answer? u).getD u := by
    rw [Collection.find?_answers, hfind, lastServed?]
    cases hlast : (served results).reverse.find? fun p =>
        p.2.translations.isSome && decide (p.1 = u) with
    | none => rfl
    | some p =>
      have hp := List.find?_some hlast
      rw [Bool.and_eq_true, decide_eq_true_eq] at hp
      rw [Option.map_some, Option.map_some, Option.map_some, hp.2]
  obtain ⟨hkeys, hvalues⟩ := Glossary.restoreAll_ok h.restored
  constructor
  · intro hnone
    rw [Table.find?_eq_none_iff, hkeys, ← Table.find?_eq_none_iff, hlast, hnone]
    rfl
  · intro R hR
    rw [hR, Option.map_some] at hlast
    exact hvalues s _ hlast

/-- A string that was sent and is not shadowed has what came back for its text, and its own text
where every chunk with it has failed. -/
theorem find?_pending (h : o.Ended results answers translations) (hd : o.Divided known whole)
    (hs : o.prepared.pending[i]? = some s) (hu : o.prepared.sent[i]? = some u)
    (hshadowed : ¬ o.Shadowed s) :
    (lastServed? results u = none → Table.find? translations s = some (.str s)) ∧
      ∀ R, lastServed? results u = some R →
        ∃ v, Glossary.restore o.prepared.reservations ((R.answer? u).getD u) = .ok v ∧
          Table.find? translations s = some (.str v) := by
  obtain ⟨hfailed, hserved⟩ := h.find?_answers_pending hd hs hu hshadowed
  constructor
  · intro hnone
    obtain ⟨u', R, hu', hR⟩ := h.exists_served hd hs
    obtain rfl : u' = u := Option.some.inj (hu'.symm.trans hu)
    have hmem := List.mem_of_getElem? hR
    have htranslations : R.translations = none := by
      have hlast := hnone
      rw [lastServed?, Option.map_eq_none_iff, List.find?_eq_none] at hlast
      simpa using hlast (u', R) (List.mem_reverse.mpr hmem)
    have hsource : Collection.sourceIn o.sourceOf u' = s :=
      (hd.sourceIn_eq_iff_eq hs hu hshadowed (h.mem_sent_of_served hmem)).mpr rfl
    rw [h.find?_eq, hfailed hnone,
      if_pos (Collection.mem_kept.mpr ⟨(u', R), hmem, htranslations, hsource⟩)]
    rfl
  · intro R hR
    obtain ⟨v, hv, hfind⟩ := hserved R hR
    refine ⟨v, hv, ?_⟩
    rw [h.find?_eq, hfind]
    rfl

end Opening.Ended

/-! ### Simple runs -/

/-- A translator that answers each text by itself and leaves out those that it has nothing for. -/
def Translator.answering (answer : Text → Option Text) : Translator Unit where
  prepare s := (.ok (), s)
  translate s texts _ _ :=
    (.gave (.obj (texts.filterMap fun t => (answer t).map fun a => (t, .str a))) .null, [], s)

/-- A request for some texts in Spanish, with nothing out of the ordinary. -/
def Request.ofTexts (texts : List String) : Request where
  strings := .arr (texts.map Json.lit)
  language := Json.lit "es"
  key := Json.lit "key"
  options := {}

/-- A workspace with an empty volume. -/
def Workspace.fresh (memory : Option Memory) : Workspace Unit := ⟨memory, ⟨[], []⟩, ()⟩

theorem exists_result {e : Ending σ} {p : Result → Bool} (h : e.result.toOption.any p = true) :
    ∃ result, e.result = .ok result ∧ p result = true := exists_ok_of_any h

end Localize.Batch
