import Localize.Proofs.Batch.Ending
import Localize.Proofs.Memory.Storing

/-!
# A second run over the same memory

What a run has been answered is what its memory learns, and nothing else. So a second run with the
same strings sends what the first one could neither find nor settle and got no answer for; it finds
the other answers in the memory, trimmed, and the strings that the first run found or settled come
out as they did.
-/

namespace Localize.Batch

open Placeholder

/-- The strings that were sent in a chunk that gave a usable answer for them. -/
def Opening.answered (o : Opening) (results : List ChunkResult) : List Text :=
  (o.prepared.pending.zip (served results)).filterMap fun p =>
    (p.2.2.answer? p.2.1).map fun _ => p.1

variable {o : Opening} {results : List ChunkResult} {answers : Table Text Text}
  {translations : Table Text Json} {known whole : Text → Option Json} {s : Text}

theorem mem_answered : s ∈ o.answered results ↔ ∃ (i : Nat) (u : Text) (R : ChunkResult),
    o.prepared.pending[i]? = some s ∧ (served results)[i]? = some (u, R) ∧
      R.answer? u ≠ none := by
  rw [Opening.answered, List.mem_filterMap]
  constructor
  · rintro ⟨⟨s', u, R⟩, hmem, h⟩
    obtain ⟨i, hi⟩ := List.mem_iff_getElem?.mp hmem
    obtain ⟨x, hx, rfl⟩ := Option.map_eq_some_iff.mp h
    obtain ⟨hs, hR⟩ := List.getElem?_zip_eq_some.mp hi
    exact ⟨i, u, R, hs, hR, by rw [hx]; exact Option.some_ne_none x⟩
  · rintro ⟨i, u, R, hs, hR, hanswer⟩
    obtain ⟨x, hx⟩ := Option.ne_none_iff_exists'.mp hanswer
    have hi : (o.prepared.pending.zip (served results))[i]? = some (s, u, R) :=
      List.getElem?_zip_eq_some.mpr ⟨hs, hR⟩
    exact ⟨(s, u, R), List.mem_of_getElem? hi, by rw [hx]; rfl⟩

theorem answered_subset_pending (o : Opening) (results : List ChunkResult) :
    o.answered results ⊆ o.prepared.pending := by
  intro s hs
  obtain ⟨i, u, R, hi, -⟩ := mem_answered.mp hs
  exact List.mem_of_getElem? hi

theorem Opening.Divided.answered_subset (hd : o.Divided known whole)
    (results : List ChunkResult) : o.answered results ⊆ unique o.checked.strings := by
  intro s hs
  exact (hd.mem_pending.mp (answered_subset_pending o results hs)).1

namespace Opening.Ended

/-- Where all texts sent differ, one of them leads back to a string, in one chunk. -/
theorem served_of_source (h : o.Ended results answers translations) (hd : o.Divided known whole)
    (hn : o.prepared.sent.Nodup) {p : Text × ChunkResult} (hp : p ∈ served results)
    (hsource : Collection.sourceIn o.sourceOf p.1 = s) :
    ∃ i : Nat, o.prepared.pending[i]? = some s ∧ (served results)[i]? = some p := by
  obtain ⟨i, hs, hu, -⟩ := (sourceIn_eq_iff hd.length (h.mem_sent_of_served hp)).mp hsource
  obtain ⟨u, R, hu', hR⟩ := h.exists_served hd hs
  have hpu : p.1 = u := Option.some.inj (hu.symm.trans hu')
  have hpR : p = (u, R) :=
    List.inj_on_of_nodup_map (h.complete.symm ▸ hn) hp (List.mem_of_getElem? hR) hpu
  exact ⟨i, hs, hpR ▸ hR⟩

/-- A string that was answered has its restored answer, which goes to the memory. -/
theorem exists_stored (h : o.Ended results answers translations) (hd : o.Divided known whole)
    (hn : o.prepared.sent.Nodup) (hs : s ∈ o.answered results) :
    ∃ v, Table.find? translations s = some (.str v) ∧
      (s, v) ∈ (Collection.ofResults o.sourceOf results).answered answers := by
  obtain ⟨i, u, R, hpending, hR, hanswer⟩ := mem_answered.mp hs
  have hshadowed : ¬ o.Shadowed s :=
    hd.forall_not_shadowed_iff.mpr hn s (List.mem_of_getElem? hpending)
  have hu : o.prepared.sent[i]? = some u := by
    rw [← h.complete, List.getElem?_map, hR]
    rfl
  have hgood : R.translations ≠ none := by
    intro hnone
    rw [ChunkResult.answer?, hnone] at hanswer
    exact hanswer rfl
  have hlast := (lastServed?_of_nodup (h.complete.symm ▸ hn) (List.mem_of_getElem? hR)).2 hgood
  obtain ⟨v, hv, hfind⟩ := (h.find?_answers_pending hd hpending hu hshadowed).2 R hlast
  obtain ⟨v', hv', hfind'⟩ := (h.find?_pending hd hpending hu hshadowed).2 R hlast
  have hsame : v' = v := Except.ok.inj (hv'.symm.trans hv)
  have husable : s ∉ (Collection.ofResults o.sourceOf results).unanswered := by
    rw [Collection.mem_unanswered]
    rintro ⟨p, hp, ⟨-, hnone⟩, hsource⟩
    obtain ⟨j, hj, hpj⟩ := h.served_of_source hd hn hp hsource
    obtain rfl : j = i := hd.index_unique hj hpending
    obtain rfl : p = (u, R) := Option.some.inj (hpj.symm.trans hR)
    exact hanswer hnone
  refine ⟨v, hsame ▸ hfind', List.mem_filter.mpr ⟨Table.mem_of_find? hfind, ?_⟩⟩
  simpa using husable

/-- Only strings that were answered go to the memory. -/
theorem mem_answered_of_stored (h : o.Ended results answers translations)
    (hd : o.Divided known whole) (hn : o.prepared.sent.Nodup) {v : Text}
    (hs : (s, v) ∈ (Collection.ofResults o.sourceOf results).answered answers) :
    s ∈ o.answered results := by
  obtain ⟨hmem, hunanswered⟩ := List.mem_filter.mp hs
  have husable : s ∉ (Collection.ofResults o.sourceOf results).unanswered := by
    simpa using hunanswered
  obtain ⟨p, hp, hgood, hsource⟩ := h.mem_keys_answers.mp (List.mem_map.mpr ⟨_, hmem, rfl⟩)
  obtain ⟨i, hpending, hpi⟩ := h.served_of_source hd hn hp hsource
  refine mem_answered.mpr ⟨i, p.1, p.2, hpending, hpi, fun hnone => husable ?_⟩
  rw [Collection.mem_unanswered]
  exact ⟨p, hp, ⟨Option.isSome_iff_ne_none.mpr hgood, hnone⟩, hsource⟩

/-- The answers are stored under keys that differ, if those of the strings do. -/
theorem nodup_stored_keys (h : o.Ended results answers translations)
    (hd : o.Divided known whole) (hn : o.prepared.sent.Nodup) {m : Memory}
    (hkeys : ((unique o.checked.strings).map (m.key o.direction)).Nodup) :
    (((Collection.ofResults o.sourceOf results).answered answers).map
      fun p => m.key o.direction p.1).Nodup := by
  have hfst : (Table.keys ((Collection.ofResults o.sourceOf results).answered answers)).Nodup :=
    (List.filter_sublist.map Prod.fst).nodup h.nodup_keys_answers
  have hunique : ∀ p ∈ (Collection.ofResults o.sourceOf results).answered answers,
      p.1 ∈ unique o.checked.strings := fun p hp =>
    hd.answered_subset results (h.mem_answered_of_stored hd hn hp)
  refine (List.Nodup.of_map Prod.fst hfst).map_on fun p hp p' hp' heq => ?_
  have hsame : p.1 = p'.1 :=
    List.inj_on_of_nodup_map hkeys (hunique p hp) (hunique p' hp') heq
  exact List.inj_on_of_nodup_map hfst hp hp' hsame

end Opening.Ended

/-! ### What the memory learns -/

/-- What a run with given translations has made of a memory. -/
structure Opening.Learned (o : Opening) (answered : List Text) (translations : Table Text Json)
    (m m' : Memory) : Prop where
  digest : m'.digest = m.digest
  /-- The strings that were answered are recalled with their trimmed translations. -/
  learned : ∀ s ∈ answered, ∃ v, Table.find? translations s = some (.str v) ∧
    m'.known? o.direction s = some (.str (Text.strip v))
  /-- Under any other key the texts are those from before. -/
  others : ∀ key, (∀ s ∈ answered, key ≠ m.key o.direction s) →
    m'.textsAt key = m.textsAt key
  /-- The strings can be looked up again. -/
  ready : ∀ s ∈ unique o.checked.strings, m'.Ready o.direction s
  hits : m.counters.hits.quantity?.isSome → m'.counters.hits.quantity?.isSome

/-- Storing the answers of a run in the memory in which its strings have been looked up. -/
theorem Opening.Ended.learned (h : o.Ended results answers translations)
    (hd : o.Divided known whole) (hn : o.prepared.sent.Nodup) {now : Nat} {m m₁ : Memory}
    {after : Option Memory} (hused : m.Used m₁)
    (hready : ∀ s ∈ unique o.checked.strings, m₁.Ready o.direction s)
    (hkeys : ((unique o.checked.strings).map (m.key o.direction)).Nodup)
    (hafter : o.Remembered now results answers (some m₁) after) :
    ∃ m', after = some m' ∧ o.Learned (o.answered results) translations m m' := by
  obtain ⟨m', v, v', hm', hstore⟩ := hafter m₁ rfl
  have hholds := Memory.storeAll_ok hstore
  have hkey : ∀ s, m₁.key o.direction s = m.key o.direction s :=
    Memory.key_congr hused.digest o.direction
  have hsub : o.answered results ⊆ unique o.checked.strings := hd.answered_subset results
  have hnodup : (((Collection.ofResults o.sourceOf results).answered answers).map
      fun p => m₁.key o.direction p.1).Nodup := by
    simp only [hkey]
    exact h.nodup_stored_keys hd hn hkeys
  have hother : ∀ key, (∀ s ∈ o.answered results, key ≠ m.key o.direction s) →
      key ∉ Table.keys (((Collection.ofResults o.sourceOf results).answered answers).map
        fun p => (m₁.key o.direction p.1, Memory.stored now o.direction o.notes p)) := by
    intro key hne hmem
    rw [Table.keys, List.map_map] at hmem
    obtain ⟨p, hp, rfl⟩ := List.mem_map.mp hmem
    exact hne _ (h.mem_answered_of_stored hd hn hp) (hkey p.1)
  refine ⟨m', hm', ?_⟩
  constructor
  case digest => exact hholds.digest.trans hused.digest
  case learned =>
    intro s hs
    obtain ⟨v, hv, hmem⟩ := h.exists_stored hd hn hs
    exact ⟨v, hv, (hholds.known?_of_stored hnodup hmem).1⟩
  case others =>
    intro key hne
    rw [Memory.textsAt, hholds.find?_of_not_mem (hother key hne)]
    exact hused.texts key
  case ready =>
    intro s hs
    by_cases hanswered : s ∈ o.answered results
    · obtain ⟨v, -, hmem⟩ := h.exists_stored hd hn hanswered
      exact (hholds.known?_of_stored hnodup hmem).2
    · refine hholds.ready_of_not_mem (hother _ fun s' hs' heq => ?_) (hready s hs)
      rw [hkey] at heq
      exact hanswered (List.inj_on_of_nodup_map hkeys hs (hsub hs') heq ▸ hs')
  case hits =>
    intro hhits
    rw [hholds.hits]
    exact hused.counters.hits.mpr hhits

namespace Opening.Learned

variable {answered : List Text} {m m' : Memory}

/-- A string that was not answered is recalled as before, if no other one has its key. -/
theorem known?_eq (h : o.Learned answered translations m m')
    (hkeys : ((unique o.checked.strings).map (m.key o.direction)).Nodup)
    (hsub : answered ⊆ unique o.checked.strings) (hs : s ∈ unique o.checked.strings)
    (hnot : s ∉ answered) : m'.known? o.direction s = m.known? o.direction s := by
  refine Memory.known?_congr h.digest (h.others _ fun s' hs' heq => ?_)
  exact hnot (List.inj_on_of_nodup_map hkeys hs (hsub hs') heq ▸ hs')

/-- The strings not recalled afterwards are those not recalled before and not answered. -/
theorem known?_eq_none_iff (h : o.Learned answered translations m m')
    (hkeys : ((unique o.checked.strings).map (m.key o.direction)).Nodup)
    (hsub : answered ⊆ unique o.checked.strings) (hs : s ∈ unique o.checked.strings) :
    m'.known? o.direction s = none ↔ m.known? o.direction s = none ∧ s ∉ answered := by
  by_cases hanswered : s ∈ answered
  · obtain ⟨v, -, hv⟩ := h.learned s hanswered
    simp [hv, hanswered]
  · rw [h.known?_eq hkeys hsub hs hanswered]
    simp [hanswered]

end Opening.Learned

/-! ### The second run -/

/-- The same strings and languages. The rest may differ, as long as the second request passes the
checks. -/
structure Request.Repeats (r₁ r₂ : Request) : Prop where
  strings : r₂.strings = r₁.strings
  language : r₂.language = r₁.language
  sourceLanguage : r₂.options.sourceLanguage = r₁.options.sourceLanguage
  passes : ∃ c, r₂.check = .ok c

theorem Request.Repeats.check {r₁ r₂ : Request} (h : r₁.Repeats r₂) {c : Checked}
    (hc : r₁.check = .ok c) :
    ∃ c₂, r₂.check = .ok c₂ ∧ c₂.strings = c.strings ∧ c₂.language = c.language := by
  obtain ⟨c₂, hc₂⟩ := h.passes
  obtain ⟨hlanguage, hstrings, -⟩ := check_ok hc
  obtain ⟨hlanguage₂, hstrings₂, -⟩ := check_ok hc₂
  rw [h.language] at hlanguage₂
  rw [h.strings] at hstrings₂
  exact ⟨c₂, hc₂, Except.ok.inj (hstrings₂.symm.trans hstrings),
    Except.ok.inj (hlanguage₂.symm.trans hlanguage)⟩

/-- What an opening leaves when more is recalled than in an earlier one. -/
theorem pending_of_known {o₁ o₂ : Opening} {known₁ known₂ : Text → Option Json}
    {answered : List Text} (hd₁ : o₁.Divided known₁ whole) (hd₂ : o₂.Divided known₂ whole)
    (hstrings : o₂.checked.strings = o₁.checked.strings)
    (hknown : ∀ s ∈ unique o₁.checked.strings,
      known₂ s = none ↔ known₁ s = none ∧ s ∉ answered) :
    o₂.prepared.pending = (unique o₁.checked.strings).filter fun s =>
      s ∉ o₁.recalled.found.keys ∧ s ∉ o₁.prepared.finals.keys ∧ s ∉ answered := by
  rw [hd₂.pending, hd₂.missing, List.filter_filter, hstrings]
  refine List.filter_congr fun s hs => ?_
  rw [Bool.eq_iff_iff, decide_eq_true_eq, Bool.and_eq_true, Option.isNone_iff_eq_none,
    Option.isNone_iff_eq_none, ← Table.find?_eq_none_iff, ← Table.find?_eq_none_iff, hd₁.found,
    hd₁.finals, if_pos hs, hknown s hs]
  by_cases hr : known₁ s = none
  · rw [if_pos (hd₁.mem_missing.mpr ⟨hs, hr⟩)]
    exact and_left_comm
  · simp [hr]

/-- How the translations of a second run compare with those of the first one. -/
structure Opening.Repeated (o : Opening) (answered : List Text) (first second : Table Text Json) :
    Prop where
  /-- An answer comes back trimmed. -/
  trimmed : ∀ s ∈ answered, ∃ v, Table.find? first s = some (.str v) ∧
    Table.find? second s = some (.str (Text.strip v))
  /-- What the first run found or settled comes out as it did. -/
  settled : ∀ s, s ∈ o.recalled.found.keys ∨ s ∈ o.prepared.finals.keys →
    s ∈ first.keys ∧ Table.find? second s = Table.find? first s

variable {σ τ : Type} {t₁ : Translator σ} {t₂ : Translator τ} {g : Option Glossary}
  {now₁ now₂ : Nat} {r₁ r₂ : Request} {w₁ : Workspace σ} {w₂ : Workspace τ} {e₁ : Ending σ}
  {e₂ : Ending τ} {m : Memory} {c : Checked} {result₁ : Result}

/-- Translations made with what a memory has learned. -/
theorem Opening.Learned.repeated {o₁ o₂ : Opening} {answered : List Text} {m m' : Memory}
    {results₁ results₂ : List ChunkResult} {answers₁ answers₂ : Table Text Text}
    {first second : Table Text Json} (h : o₁.Learned answered first m m')
    (hkeys : ((unique o₁.checked.strings).map (m.key o₁.direction)).Nodup)
    (hpending : answered ⊆ o₁.prepared.pending)
    (hd₁ : o₁.Divided (m.known? o₁.direction) whole)
    (hd₂ : o₂.Divided (m'.known? o₁.direction) whole)
    (hstrings : o₂.checked.strings = o₁.checked.strings)
    (hended₁ : o₁.Ended results₁ answers₁ first)
    (hended₂ : o₂.Ended results₂ answers₂ second) : o₁.Repeated answered first second := by
  have hsub : answered ⊆ unique o₁.checked.strings := fun s hs =>
    (hd₁.mem_pending.mp (hpending hs)).1
  have hsecond : ∀ s, s ∈ unique o₁.checked.strings →
      m'.known? o₁.direction s ≠ none ∨ whole s ≠ none →
      Table.find? second s = (m'.known? o₁.direction s).or (whole s) := by
    intro s hs hne
    have hnot : s ∉ o₂.prepared.pending := by
      rw [hd₂.mem_pending]
      rintro ⟨-, hr, hw⟩
      rcases hne with hne | hne
      · exact hne hr
      · exact hne hw
    rw [hended₂.find?_of_not_pending hd₂ hnot, hd₂.find?_settled, hstrings, if_pos hs]
  constructor
  case trimmed =>
    intro s hs
    obtain ⟨v, hv, hknown⟩ := h.learned s hs
    refine ⟨v, hv, ?_⟩
    rw [hsecond s (hsub hs) (.inl (by simp [hknown])), hknown]
    rfl
  case settled =>
    intro s hs
    have hkey : s ∈ o₁.settled.keys := by
      rw [Opening.settled, Table.mem_keys_merge]
      exact hs
    obtain ⟨hunique, hnot⟩ := hd₁.mem_keys_settled.mp hkey
    have hfirst := hended₁.find?_of_not_pending hd₁ hnot
    have hknown := h.known?_eq hkeys hsub hunique fun hs' => hnot (hpending hs')
    have hne : m'.known? o₁.direction s ≠ none ∨ whole s ≠ none := by
      rw [hknown]
      by_contra hboth
      rw [not_or, not_not, not_not] at hboth
      exact hnot (hd₁.mem_pending.mpr ⟨hunique, hboth⟩)
    constructor
    · rw [Table.mem_keys_iff, hfirst, ← Table.mem_keys_iff]
      exact hkey
    · rw [hsecond s hunique hne, hfirst, hd₁.find?_settled, if_pos hunique, hknown]

/-- After a first run over a memory a second one with the same inputs sends exactly the strings
that the first one neither found nor settled nor got an answer for; it opens unless the memory's
hits cannot be counted. The first run has changed texts only under the keys of answered strings. -/
theorem second_run_sends_unanswered (he₁ : translate t₁ g now₁ r₁ w₁ = e₁)
    (he₂ : translate t₂ g now₂ r₂ w₂ = e₂) (hm : w₁.memory = some m)
    (hchecked : r₁.check = .ok c) (hmark : ∀ s, Json.str s ∈ c.strings → ¬ mark <:+: s)
    (hkeys : ((unique c.strings).map
      (m.key ⟨r₁.options.sourceLanguage, .str c.language⟩)).Nodup)
    (hfirst : e₁.result = .ok result₁) (hrepeats : r₁.Repeats r₂)
    (hafter : w₂.memory = e₁.workspace.memory) :
    ∃ o₁ w₁' m', openRun g now₁ r₁ w₁ = (.ok o₁, w₁') ∧ w₂.memory = some m' ∧
      (∀ key, (∀ s ∈ o₁.answered e₁.trace.results,
          key ≠ m.key ⟨r₁.options.sourceLanguage, .str c.language⟩ s) →
        m'.textsAt key = m.textsAt key) ∧
      (m.counters.hits.quantity?.isSome →
        ∃ o₂ w₂', openRun g now₂ r₂ w₂ = (.ok o₂, w₂')) ∧
      ∀ o₂ w₂', openRun g now₂ r₂ w₂ = (.ok o₂, w₂') →
        o₂.prepared.pending = ((unique c.strings).filter fun s =>
          s ∉ o₁.recalled.found.keys ∧ s ∉ o₁.prepared.finals.keys ∧
            s ∉ o₁.answered e₁.trace.results) ∧
        ∀ result₂, e₂.result = .ok result₂ →
          (served e₂.trace.results).map Prod.fst = o₂.prepared.sent ∧
          o₁.Repeated (o₁.answered e₁.trace.results) result₁.translations
            result₂.translations := by
  subst he₁ he₂
  obtain ⟨o₁, w₁', answers, hopen, hended, hremembered⟩ := translate_ok hfirst
  obtain ⟨hcheck, hrequest, hprep, hd, -, hmemory⟩ := openRun_ok hopen
  obtain ⟨m₁, hm₁, hused, hready⟩ := hmemory m hm
  obtain rfl : o₁.checked = c := Except.ok.inj (hcheck.symm.trans hchecked)
  have hdirection : o₁.direction =
      ⟨r₁.options.sourceLanguage, .str o₁.checked.language⟩ := by
    rw [Opening.direction, hrequest]
  rw [← hdirection] at hkeys ⊢
  have hn := hd.nodup_sent hprep hmark
  rw [hm₁] at hremembered
  obtain ⟨m', hm', hlearned⟩ := hended.learned hd hn hused hready hkeys hremembered
  rw [hm'] at hafter
  rw [Workspace.known?_eq hm] at hd
  have hpending := answered_subset_pending o₁ (translate t₁ g now₁ r₁ w₁).trace.results
  have hsub := hd.answered_subset (translate t₁ g now₁ r₁ w₁).trace.results
  have hknown : ∀ s ∈ unique o₁.checked.strings, m'.known? o₁.direction s = none ↔
      m.known? o₁.direction s = none ∧
        s ∉ o₁.answered (translate t₁ g now₁ r₁ w₁).trace.results := fun s hs =>
    hlearned.known?_eq_none_iff hkeys hsub hs
  obtain ⟨c₂, hc₂, hstrings, hlanguage⟩ := hrepeats.check hchecked
  have hdirection₂ : (⟨r₂.options.sourceLanguage, .str c₂.language⟩ : Memory.Direction) =
      o₁.direction := by
    rw [hdirection, hrepeats.sourceLanguage, hlanguage]
  refine ⟨o₁, w₁', m', hopen, hafter, hlearned.others, fun hhits => ?_,
    fun o₂ w₂' hopen₂ => ?_⟩
  · refine exists_openRun now₂ hc₂ hafter (hlearned.hits hhits) ?_ ?_
    · rw [hstrings, hdirection₂]
      exact hlearned.ready
    · rw [hstrings, hdirection₂, hlanguage, Workspace.known?_eq hafter]
      refine exists_prepareFor hprep fun s hs => ?_
      obtain ⟨hs, hnone⟩ := List.mem_filter.mp hs
      rw [Option.isNone_iff_eq_none, hknown s hs] at hnone
      exact hd.mem_missing.mpr ⟨hs, hnone.1⟩
  · obtain ⟨hcheck₂, hrequest₂, -, hd₂, -⟩ := openRun_ok hopen₂
    obtain rfl : o₂.checked = c₂ := Except.ok.inj (hcheck₂.symm.trans hc₂)
    have hsame : o₂.direction = o₁.direction := by
      rw [Opening.direction, hrequest₂, hdirection₂]
    rw [hsame, hlanguage, Workspace.known?_eq hafter] at hd₂
    refine ⟨pending_of_known hd hd₂ hstrings hknown, fun result₂ hsecond => ?_⟩
    obtain ⟨o, w, answers₂, hopen₂', hended₂, -⟩ := translate_ok hsecond
    rw [hopen₂] at hopen₂'
    obtain rfl : o₂ = o := Except.ok.inj (Prod.mk.inj hopen₂').1
    exact ⟨hended₂.complete,
      hlearned.repeated hkeys hpending hd hd₂ hstrings hended hended₂⟩

/-- An empty memory that is not written to a file. -/
def blankMemory : Memory := .empty (.ofText "memory".toList) id 0

/-- A greeting that is answered with a blank before it and a farewell that is not answered. -/
def greetingRun : Ending Unit :=
  translate (.answering fun t => if t = "Bye".toList then none else some (' ' :: t)) none 0
    (.ofTexts ["Hello", "Bye"]) (.fresh (some blankMemory))

/-- The same strings in chunks of one. -/
def greetingAgain : Request :=
  { Request.ofTexts ["Hello", "Bye"] with options := { chunkSize := .nat 1 } }

theorem second_run_sends_farewell : ∃ result₁ o₁ w₁' m' o₂ w₂',
    greetingRun.result = .ok result₁ ∧
    openRun none 0 (.ofTexts ["Hello", "Bye"]) (.fresh (some blankMemory)) = (.ok o₁, w₁') ∧
    greetingRun.workspace.memory = some m' ∧
    openRun none 1 greetingAgain (.fresh (some m')) = (.ok o₂, w₂') ∧
    o₁.answered greetingRun.trace.results = ["Hello".toList] ∧
    o₂.prepared.pending = ["Bye".toList] := by
  have hrun : greetingRun.result.toOption.any (fun _ => true) = true := by decide +kernel
  have hfirst : ((openRun none 0 (.ofTexts ["Hello", "Bye"])
      (.fresh (some blankMemory))).1.toOption.all fun o =>
        decide (o.recalled.found.keys = [] ∧ o.prepared.finals.keys = [] ∧
          o.answered greetingRun.trace.results = ["Hello".toList])) = true := by
    decide +kernel
  obtain ⟨result₁, hresult₁, -⟩ := exists_result hrun
  have hmemory : greetingRun.workspace.memory.isSome = true := by decide +kernel
  obtain ⟨m', hm'⟩ := Option.isSome_iff_exists.mp hmemory
  have hstrings : (Request.ofTexts ["Hello", "Bye"]).check =
      .ok ⟨[Json.lit "Hello", Json.lit "Bye"], "es".toList, 50⟩ := rfl
  have hmark : ∀ s, Json.str s ∈ [Json.lit "Hello", Json.lit "Bye"] → ¬ mark <:+: s := by
    intro s hs
    simp only [Json.lit, List.mem_cons, Json.str.injEq, List.not_mem_nil, or_false] at hs
    rcases hs with rfl | rfl
    · decide
    · decide
  have hkeys : ((unique [Json.lit "Hello", Json.lit "Bye"]).map
      (blankMemory.key ⟨Json.lit "en", .str "es".toList⟩)).Nodup := by
    decide +kernel
  have hrepeats : (Request.ofTexts ["Hello", "Bye"]).Repeats greetingAgain :=
    ⟨rfl, rfl, rfl, ⟨_, rfl⟩⟩
  have he₁ : translate (.answering fun t => if t = "Bye".toList then none else some (' ' :: t))
      none 0 (.ofTexts ["Hello", "Bye"]) (.fresh (some blankMemory)) = greetingRun := rfl
  have he₂ : translate (.answering some) none 1 greetingAgain (.fresh (some m')) =
      translate (.answering some) none 1 greetingAgain (.fresh (some m')) := rfl
  obtain ⟨o₁, w₁', -, hopen₁, -, -, hopens, hsecond⟩ :=
    second_run_sends_unanswered he₁ he₂ rfl hstrings hmark hkeys hresult₁ hrepeats hm'.symm
  obtain ⟨o₂, w₂', hopen₂⟩ := hopens (by decide)
  rw [hopen₁] at hfirst
  obtain ⟨hfound, hfinals, hanswered⟩ := of_decide_eq_true hfirst
  refine ⟨result₁, o₁, w₁', m', o₂, w₂', hresult₁, hopen₁, hm', hopen₂, hanswered, ?_⟩
  rw [(hsecond o₂ w₂' hopen₂).1, hfound, hfinals, hanswered]
  decide

end Localize.Batch
