import Localize.Proofs.Markup.Union
import Localize.Proofs.Project.Independence

/-!
# Every locale file is complete

The strings of a source are divided once: those that a skip pattern matches stand for themselves in
every language, and of the others each is settled by the memory or the glossary, or something is
sent for it and comes back or not. So each turn of a run ends with a file that has exactly the
strings of the source. What a turn does is told with its calls of the translator and with the texts
it gives to the memory; no skipped string is among them. The memory trims what it is given, though,
so it may hold a text that is skipped as the source of another one.
-/

namespace Localize

/-! ### The strings of a source -/

namespace Source

variable {v : Volume} {s : Selection} {strings : List Text}

theorem Selection.notBlank_of_mem {page : Text} (h : s.strings page = .ok strings) :
    ∀ t ∈ strings, Text.allBlank t = false := by
  obtain ⟨selectors, -, h⟩ := bind_ok_iff.mp h
  obtain ⟨names, -, h⟩ := bind_ok_iff.mp h
  cases h
  exact fun t ht => Markup.notBlank_of_mem_extract ht

theorem notBlank_of_mem_pageStrings {p : Path} (h : pageStrings v s p = .ok strings) :
    ∀ t ∈ strings, Text.allBlank t = false := by
  unfold pageStrings at h
  split at h
  · cases h
  · split at h
    · next hstrings =>
      cases h
      exact Selection.notBlank_of_mem hstrings
    · cases h

theorem notBlank_of_mem_readableStrings {paths : List Path}
    (h : readableStrings v s paths = .ok strings) : ∀ t ∈ strings, Text.allBlank t = false := by
  induction paths generalizing strings with
  | nil =>
    cases h
    exact fun t ht => absurd ht List.not_mem_nil
  | cons p paths ih =>
    rw [readableStrings] at h
    split at h
    · exact ih h
    · obtain ⟨first, hfirst, h⟩ := bind_ok_iff.mp h
      obtain ⟨rest, hrest, h⟩ := bind_ok_iff.mp h
      cases h
      intro t ht
      rcases List.mem_append.mp ht with ht | ht
      · exact Selection.notBlank_of_mem hfirst t ht
      · exact ih hrest t ht

/-- No string of a source is blank. -/
theorem notBlank_of_mem_strings {source : Source} (h : source.strings v s = .ok strings) :
    ∀ t ∈ strings, Text.allBlank t = false := by
  unfold Source.strings at h
  split at h
  · cases h
  · split at h
    · unfold folderStrings at h
      split at h
      · cases h
      · split at h
        · next hreadable =>
          cases h
          exact fun t ht => notBlank_of_mem_readableStrings hreadable t (Text.mem_sortedSet.mp ht)
        · cases h
    · split at h
      · exact notBlank_of_mem_pageStrings h
      · cases h

end Source

namespace Project

open Placeholder

variable {σ : Type} {t : Batch.Translator σ} {g : Option Glossary} {now : Nat} {m : Material}
  {p : Plan} {language code s : Text} {strings codes : List Text} {w w' w₁ : Batch.Workspace σ}
  {run run' : Run} {waits : List Nat} {translations : Fields} {result : Option Batch.Result}

/-! ### What is asked for -/

/-- The parts of a text between its commas, or the texts of a list. -/
def listed : Json → List Text
  | .str t => Text.splitOn ',' t
  | value => (value.elements?.getD []).filterMap Json.text?

/-- The languages that a value names, as often as it names them. -/
def requested (value : Json) : List Text :=
  ((listed value).map Text.strip).filter fun code => !Text.allBlank code

theorem languagesOf_eq {value : Json} (h : languagesOf value = .ok codes) :
    codes = (requested value).eraseDups := by
  unfold languagesOf at h
  simp only at h
  split at h
  · cases h
  · next given hgiven =>
    have hlisted : given = listed value := by
      cases value with
      | str text =>
        cases hgiven
        rfl
      | null | bool _ | int _ | float _ | arr _ | obj _ =>
        obtain ⟨items, hitems, rfl⟩ := Option.map_eq_some_iff.mp hgiven
        simp only [listed, hitems, Option.getD_some]
    split at h
    · cases h
    · cases h
      rw [hlisted, requested, ← Batch.unique_map_str, List.map_map]
      rfl

/-- Strings that are not blank and do not hold the mark, each either to be translated or skipped. -/
structure Material.Proper (m : Material) : Prop where
  notBlank : ∀ s ∈ m.strings, Text.allBlank s = false
  unmarked : ∀ s ∈ m.strings, ¬ mark <:+: s
  divided : ∀ s, s ∈ m.strings ↔ s ∈ m.translatable ∨ s ∈ m.skipped
  apart : ∀ s ∈ m.skipped, s ∉ m.translatable

/-- The strings that a skip pattern matches are skipped, and the others are to be translated. -/
theorem Plan.material_ok (h : p.material strings = .ok m) :
    m.strings = strings ∧ ∃ written, skipPatternsOf p.skipPatterns = .ok written ∧
      (∀ s, s ∈ m.skipped ↔ s ∈ strings ∧ Skip.skips (Skip.patternsOf written) s = true) ∧
      ∀ s, s ∈ m.translatable ↔
        s ∈ strings ∧ Skip.skips (Skip.patternsOf written) s = false := by
  obtain ⟨written, hwritten, h⟩ := bind_ok_iff.mp h
  simp only [Skip.split, List.partition_eq_filter_filter] at h
  cases h
  refine ⟨rfl, written, hwritten, fun s => ?_, fun s => ?_⟩
  · simp
  · simp

theorem Plan.proper_of_material (h : p.material strings = .ok m)
    (hblank : ∀ s ∈ strings, Text.allBlank s = false) (hmark : ∀ s ∈ strings, ¬ mark <:+: s) :
    m.Proper := by
  obtain ⟨rfl, written, -, hskipped, htranslatable⟩ := material_ok h
  refine ⟨hblank, hmark, fun s => ?_, fun s hs hs' => ?_⟩
  · rw [hskipped, htranslatable]
    cases Skip.skips (Skip.patternsOf written) s with
    | true => simp
    | false => simp
  · have hskips := ((htranslatable s).mp hs').2
    rw [((hskipped s).mp hs).2] at hskips
    cases hskips

/-! ### Strings that stand for themselves -/

theorem find?_addIdentities (translations : Fields) (strings : List Text) (s : Text) :
    Table.find? (addIdentities translations strings) s =
      if s ∈ strings then some (.str s) else Table.find? translations s := by
  rw [addIdentities, Table.find?_merge, ← List.map_reverse,
    Table.find?_map_self strings.reverse Json.str]
  by_cases hs : s ∈ strings
  · simp [hs]
  · simp [hs]

theorem mem_keys_addIdentities : s ∈ (addIdentities translations strings).keys ↔
    s ∈ translations.keys ∨ s ∈ strings := by
  rw [addIdentities, Table.mem_keys_merge]
  simp [Table.keys]

/-! ### Turns -/

/-- What the turn of a language has done: the calls of the translator, and the translations given to
the memory by their sources. -/
structure Turn where
  language : Text
  calls : List Batch.Call
  stored : Table Text Text

namespace Plan

/-- How a turn goes from a workspace to its translations and a workspace: all strings stand for
themselves and nothing is touched, or a run of the translator comes to a result. -/
inductive Takes (p : Plan) (t : Batch.Translator σ) (g : Option Glossary) (now : Nat) (m : Material)
    (w : Batch.Workspace σ) : Turn → Fields → Batch.Workspace σ → Prop
  | plain {language : Text}
      (hplain : .str language = p.options.sourceLanguage ∨ m.translatable = []) :
      Takes p t g now m w ⟨language, [], []⟩ (addIdentities [] m.strings) w
  | translated {language : Text} {o : Batch.Opening} {w₁ : Batch.Workspace σ}
      {calls : List Batch.Call} {answers : Table Text Text} {e : Batch.Ending σ} {r : Batch.Result}
      (hforeign : .str language ≠ p.options.sourceLanguage)
      (hopen : Batch.openRun g now (p.request m language) w = (.ok o, w₁))
      (hfinished : o.Finished t now w₁ calls answers e) (hresult : e.result = .ok r) :
      Takes p t g now m w ⟨language, calls, (o.collected calls).answered answers⟩
        (addIdentities r.translations m.skipped) e.workspace

/-- Turns one after another, each of which ends with the locale file of its language. -/
inductive Turns (p : Plan) (t : Batch.Translator σ) (g : Option Glossary) (now : Nat)
    (m : Material) : Batch.Workspace σ → List Turn → Batch.Workspace σ → Prop
  | nil (w : Batch.Workspace σ) : Turns p t g now m w [] w
  | cons {w w₁ w' : Batch.Workspace σ} {turn : Turn} {turns : List Turn} {translations : Fields}
      {file : Path} {v : Volume} (htakes : p.Takes t g now m w turn translations w₁)
      (hwrite : Locale.write w₁.volume p.output turn.language translations = (.ok file, v))
      (hrest : Turns p t g now m { w₁ with volume := v } turns w') :
      Turns p t g now m w (turn :: turns) w'

theorem inLanguage_takes
    (h : p.inLanguage t g now m language w = (.ok (translations, result), waits, w₁)) :
    ∃ turn : Turn, turn.language = language ∧ p.Takes t g now m w turn translations w₁ := by
  by_cases hself : .str language = p.options.sourceLanguage ∨ m.translatable = []
  · rw [inLanguage_plain hself] at h
    cases h
    exact ⟨_, rfl, .plain hself⟩
  · rcases inLanguage_ok h with ⟨hplain, -⟩ | ⟨r, hr, rfl, rfl⟩
    · exact absurd hplain hself
    · obtain ⟨o, w₂, calls, answers, hopen, hfinished⟩ := Batch.translate_finished hr
      exact ⟨_, rfl, .translated (fun hsource => hself (.inl hsource)) hopen hfinished hr⟩

/-- A run is its turns, a file for each of them. -/
theorem inLanguages_turns
    (h : (p.inLanguages t g now m run waits w codes).result = .ok run') :
    ∃ turns, p.Turns t g now m w turns (p.inLanguages t g now m run waits w codes).workspace ∧
      turns.map Turn.language = codes ∧
      run'.files = run.files ++ codes.map (Locale.path p.output) := by
  induction codes generalizing run waits w with
  | nil =>
    cases h
    exact ⟨[], .nil w, rfl, (List.append_nil _).symm⟩
  | cons language rest ih =>
    obtain ⟨translations, result, more, w₁, file, v, hturn, hwrite⟩ := exists_turn h
    obtain ⟨run₁, hfiles, -, -, hcons⟩ := inLanguages_cons hturn hwrite run waits rest
    obtain ⟨turn, rfl, htakes⟩ := inLanguage_takes hturn
    rw [hcons] at h ⊢
    obtain ⟨turns, hturns, hlanguages, hmore⟩ := ih h
    refine ⟨turn :: turns, .cons htakes hwrite hturns, by rw [List.map_cons, hlanguages], ?_⟩
    rw [hmore, hfiles, Locale.write_path hwrite, List.map_cons, List.append_assoc,
      List.singleton_append]

/-! ### What a turn leaves -/

/-- The translations of a complete locale file: exactly the strings of the source, the skipped ones
as they are, and all of them as they are in the language of the source. -/
structure Complete (p : Plan) (m : Material) (language : Text) (translations : Fields) : Prop where
  distinct : translations.keys.Nodup
  keys : ∀ s, s ∈ translations.keys ↔ s ∈ m.strings
  skipped : ∀ s ∈ m.skipped, Table.find? translations s = some (.str s)
  own : .str language = p.options.sourceLanguage →
    ∀ s ∈ m.strings, Table.find? translations s = some (.str s)

/-- A turn that neither sends a skipped string nor gives one to the memory, and does nothing of
either for the language of the source. -/
structure Discreet (p : Plan) (m : Material) (turn : Turn) : Prop where
  unsent : ∀ call ∈ turn.calls, ∀ s ∈ m.skipped, s ∉ call.texts
  unstored : ∀ s ∈ m.skipped, s ∉ turn.stored.keys
  sources : ∀ s ∈ turn.stored.keys, s ∈ m.translatable
  own : .str turn.language = p.options.sourceLanguage → turn.calls = [] ∧ turn.stored = []

theorem strings_of_check {c : Batch.Checked} (h : (p.request m language).check = .ok c) :
    c.strings = m.translatable.map .str :=
  Batch.checkStrings_arr (Batch.check_ok h).2.1

/-- The strings of a turn's request are those to be translated. -/
theorem mem_unique_request {c : Batch.Checked} (hm : m.Proper)
    (h : (p.request m language).check = .ok c) :
    s ∈ Batch.unique c.strings ↔ s ∈ m.translatable := by
  have hstr : Json.str s ∈ m.translatable.map .str ↔ s ∈ m.translatable := by simp
  rw [Batch.mem_unique, strings_of_check h, hstr]
  exact ⟨And.left, fun hs => ⟨hs, hm.notBlank s ((hm.divided s).mpr (.inl hs))⟩⟩

theorem Takes.complete {turn : Turn} (h : p.Takes t g now m w turn translations w₁)
    (hm : m.Proper) : p.Complete m turn.language translations := by
  cases h with
  | plain hplain =>
    have hself : ∀ s ∈ m.strings,
        Table.find? (addIdentities [] m.strings) s = some (.str s) := fun s hs => by
      rw [find?_addIdentities, if_pos hs]
    refine ⟨Table.nodup_keys_ofPairs _, fun s => ?_,
      fun s hs => hself s ((hm.divided s).mpr (.inr hs)), fun _ => hself⟩
    rw [mem_keys_addIdentities]
    simp
  | @translated language o w₁ calls answers e r hforeign hopen hfinished hresult =>
    obtain ⟨hcheck, -, hprep, hd, -⟩ := Batch.openRun_ok hopen
    have hended := hfinished.ended hresult
    have hsent : o.prepared.sent.Nodup := by
      refine hd.nodup_sent hprep fun s hs => ?_
      rw [strings_of_check hcheck] at hs
      obtain ⟨s', hs', hsame⟩ := List.mem_map.mp hs
      cases hsame
      exact hm.unmarked s ((hm.divided s).mpr (.inl hs'))
    have htranslations := hended.nodup_keys_translations (Batch.nodup_keys_settled hopen)
    refine ⟨Table.nodup_keys_merge htranslations _, fun s => ?_, fun s hs => ?_,
      fun hown => absurd hown hforeign⟩
    · rw [mem_keys_addIdentities, hended.mem_keys_iff_of_nodup hd hsent,
        mem_unique_request hm hcheck, hm.divided]
    · rw [find?_addIdentities, if_pos hs]

theorem Takes.discreet {turn : Turn} (h : p.Takes t g now m w turn translations w₁)
    (hm : m.Proper) : p.Discreet m turn := by
  cases h with
  | plain hplain => exact ⟨nofun, fun _ _ => List.not_mem_nil, nofun, fun _ => ⟨rfl, rfl⟩⟩
  | @translated language o w₁ calls answers e r hforeign hopen hfinished hresult =>
    obtain ⟨hcheck, -, hprep, hd, -⟩ := Batch.openRun_ok hopen
    have hended := hfinished.ended hresult
    have hpending : ∀ s ∈ o.prepared.pending, s ∈ m.translatable := fun s hs =>
      (mem_unique_request hm hcheck).mp (hd.mem_pending.mp hs).1
    have hsources : ∀ s ∈ ((o.collected calls).answered answers).keys, s ∈ m.translatable := by
      intro s hs
      obtain ⟨q, hq, rfl⟩ := List.mem_map.mp hs
      have hanswer : q.1 ∈ answers.keys := List.mem_map_of_mem (List.mem_filter.mp hq).1
      exact hpending _ (hended.mem_pending_of_mem_answers hd hanswer)
    refine ⟨fun call hcall s hs hin => ?_, fun s hs hin => hm.apart s hs (hsources s hin), hsources,
      fun hown => absurd hown hforeign⟩
    -- A skipped string would be sent for itself, since it does not hold the mark.
    have hsent : s ∈ o.prepared.sent := by
      rw [← Batch.flatten_chunksOf o.checked.chunkSize o.prepared.sent, ← hfinished.chunks]
      exact List.mem_flatten_of_mem (List.mem_map_of_mem hcall) hin
    have hmark := hm.unmarked s ((hm.divided s).mpr (.inr hs))
    exact hm.apart s hs (hpending s (Batch.mem_pending_of_mem_sent hprep hsent hmark))

/-- The memory of a workspace, if it has one, has gained its new sources from some strings. -/
def GainedFrom (sources : List Text) (w w' : Batch.Workspace σ) : Prop :=
  ∀ n', w'.memory = some n' → ∃ n, w.memory = some n ∧ n.GainedFrom sources n'

theorem gainedFrom_of_memory_eq (sources : List Text) (h : w'.memory = w.memory) :
    GainedFrom sources w w' := fun n' hn' =>
  ⟨n', h ▸ hn', (Memory.SameTexts.refl n').gainedFrom sources⟩

theorem GainedFrom.trans {sources : List Text} (h : GainedFrom sources w w₁)
    (h' : GainedFrom sources w₁ w') : GainedFrom sources w w' := by
  intro n' hn'
  obtain ⟨n₁, hn₁, hlater⟩ := h' n' hn'
  obtain ⟨n, hn, hfirst⟩ := h n₁ hn₁
  exact ⟨n, hn, hfirst.trans hlater⟩

theorem gainedFrom_of_openRun {r : Batch.Request} {o : Batch.Opening}
    (h : Batch.openRun g now r w = (.ok o, w₁)) (sources : List Text) :
    GainedFrom sources w w₁ := by
  obtain ⟨-, -, -, -, hnone, hsome⟩ := Batch.openRun_ok h
  intro n' hn'
  cases hn : w.memory with
  | none =>
    rw [hnone hn] at hn'
    cases hn'
  | some n =>
    obtain ⟨n₁, hn₁, hused, -⟩ := hsome n hn
    obtain rfl : n₁ = n' := Option.some.inj (hn₁.symm.trans hn')
    exact ⟨n, rfl, hused.toSameTexts.gainedFrom sources⟩

theorem gainedFrom_of_remember {d : Memory.Direction} {notes : Fields} {answers : Table Text Text}
    {sources : List Text} (h : Batch.remember w now d notes answers = (.ok (), w₁))
    (hsources : ∀ s ∈ answers.keys, s ∈ sources) : GainedFrom sources w w₁ := by
  intro n' hn'
  cases hn : w.memory with
  | none =>
    rw [Batch.remember, hn] at h
    cases h
    rw [hn] at hn'
    cases hn'
  | some n =>
    obtain ⟨n₁, v, hn₁, hstore⟩ := Batch.remember_ok h hn
    obtain rfl : n₁ = n' := Option.some.inj (hn₁.symm.trans hn')
    exact ⟨n, rfl, (Memory.storeAll_ok hstore).gainedFrom fun q hq =>
      hsources q.1 (List.mem_map_of_mem hq)⟩

theorem Takes.gainedFrom {turn : Turn} (h : p.Takes t g now m w turn translations w₁)
    (hm : m.Proper) : GainedFrom m.translatable w w₁ := by
  have hdiscreet := h.discreet hm
  cases h with
  | plain hplain => exact gainedFrom_of_memory_eq _ rfl
  | @translated language o w₁ calls answers e r hforeign hopen hfinished hresult =>
    have hstored : GainedFrom m.translatable { w₁ with translator := e.workspace.translator }
        e.workspace := gainedFrom_of_remember hfinished.stored hdiscreet.sources
    refine (gainedFrom_of_openRun hopen _).trans (.trans ?_ hstored)
    exact gainedFrom_of_memory_eq _ rfl

/-! ### What a run leaves -/

theorem Turns.discreet {turns : List Turn} (h : p.Turns t g now m w turns w') (hm : m.Proper) :
    ∀ turn ∈ turns, p.Discreet m turn := by
  induction h with
  | nil w => exact fun turn hturn => absurd hturn List.not_mem_nil
  | cons htakes hwrite hrest ih => exact List.forall_mem_cons.mpr ⟨htakes.discreet hm, ih⟩

theorem Turns.gainedFrom {turns : List Turn} (h : p.Turns t g now m w turns w') (hm : m.Proper) :
    GainedFrom m.translatable w w' := by
  induction h with
  | nil w => exact gainedFrom_of_memory_eq _ rfl
  | @cons w w₁ w' turn turns translations file v htakes hwrite hrest ih =>
    have hwritten : GainedFrom m.translatable w₁ { w₁ with volume := v } :=
      gainedFrom_of_memory_eq _ rfl
    exact (htakes.gainedFrom hm).trans (hwritten.trans ih)

/-- Saving at the end touches neither the memory nor the translator. -/
theorem workspace_close (now : Nat) (e : Ending σ) :
    (close now e).workspace.memory = e.workspace.memory ∧
      (close now e).workspace.translator = e.workspace.translator := by
  unfold close
  split
  · split
    · exact ⟨rfl, rfl⟩
    · exact ⟨rfl, rfl⟩
  · exact ⟨rfl, rfl⟩

/-- What a run that has succeeded has done: a turn for every language asked for, each once and in
order, each with a complete file, and nothing with the skipped strings. -/
structure Completed (p : Plan) (t : Batch.Translator σ) (g : Option Glossary) (now : Nat)
    (m : Material) (w : Batch.Workspace σ) (run : Run) (turns : List Turn) (e : Ending σ) :
    Prop where
  languages : run.languages = (requested p.languages).eraseDups
  files : run.files = run.languages.map (Locale.path p.output)
  complete : ∀ language ∈ run.languages, ∃ translations, p.Complete m language translations ∧
    e.localeFile? p.output language = some (.text (Json.obj translations).document)
  taken : ∃ w', p.Turns t g now m w turns w' ∧ e.workspace.memory = w'.memory ∧
    e.workspace.translator = w'.translator
  order : turns.map Turn.language = run.languages
  discreet : ∀ turn ∈ turns, p.Discreet m turn
  gained : GainedFrom m.translatable w e.workspace

/-- A run that succeeds with strings that do not hold the mark has written one file for each language
asked for, in order, and each holds exactly the strings of the source. Strings that a skip pattern
matches stand for themselves; they are not sent, nor given to the memory, which holds new sources
only as it has trimmed them from other strings. For the language of the source nothing is done. -/
theorem locale_files_complete (hsource : p.options.sourceLanguage = .str code)
    (hcode : Language.isSupported code = true)
    (hstrings : p.source.strings w.volume p.selection = .ok strings)
    (hmark : ∀ s ∈ strings, ¬ mark <:+: s)
    (h : (p.carryOut t g now w).result = .ok run) (hsucceeded : run.succeeded = true) :
    ∃ m turns, p.material strings = .ok m ∧ m.strings = strings ∧
      (∃ written, skipPatternsOf p.skipPatterns = .ok written ∧ ∀ s, s ∈ m.skipped ↔
        s ∈ strings ∧ Skip.skips (Skip.patternsOf written) s = true) ∧
      p.Completed t g now m w run turns (p.carryOut t g now w) := by
  obtain ⟨strings', m, hcarried⟩ := carryOut_ok hsource hcode h hsucceeded
  obtain rfl : strings' = strings := Except.ok.inj (hcarried.extracted.symm.trans hstrings)
  obtain ⟨hm, written, hwritten, hskipped, -⟩ := material_ok hcarried.divided
  have hproper := proper_of_material hcarried.divided (Source.notBlank_of_mem_strings hstrings) hmark
  have hrun : p.carryOut t g now w = close now
      (p.inLanguages t g now m (.start run.languages m) [] w run.languages) :=
    carryOut_eq hcarried.checked hstrings hcarried.nonempty hcarried.divided
  have hresult := (close_ok (hrun ▸ h)).1
  obtain ⟨turns, hturns, horder, hfiles⟩ := inLanguages_turns hresult
  obtain ⟨hmemory, htranslator⟩ := workspace_close now
    (p.inLanguages t g now m (.start run.languages m) [] w run.languages)
  rw [← hrun] at hmemory htranslator
  refine ⟨m, turns, hcarried.divided, hm, ⟨written, hwritten, hskipped⟩, ?_⟩
  constructor
  case languages => exact languagesOf_eq (check_ok hcarried.checked).1
  case files => exact hfiles
  case complete =>
    intro language hlanguage
    obtain ⟨translations, result, waits, w₁, w₂, -, hturn, hcontent⟩ :=
      hcarried.gave language hlanguage
    obtain ⟨turn, rfl, htakes⟩ := inLanguage_takes hturn
    exact ⟨translations, htakes.complete hproper, hcontent⟩
  case taken => exact ⟨_, hturns, hmemory, htranslator⟩
  case order => exact horder
  case discreet => exact hturns.discreet hproper
  case gained => exact (hturns.gainedFrom hproper).trans (gainedFrom_of_memory_eq _ hmemory)

/-- A page with a text that has a blank before it and another one that is the same without it. -/
def helloPage : Volume := .ofEntries [("index.html".toList, .file (.text
  "<p>&nbsp;Hello</p><p>Hello</p>".toList))]

/-- The page to be translated, but for texts that are exactly a greeting. -/
def hellos : Plan where
  source := .path ⟨false, ["index.html".toList]⟩
  languages := .str "es,en, es".toList
  key := Json.lit "key"
  output := ⟨false, ["out".toList]⟩
  selection := {}
  skipPatterns := .arr [Json.lit "^Hello$"]
  options := {}

/-- The page with an empty memory. -/
def helloWorkspace : Batch.Workspace Unit :=
  ⟨some (.empty ⟨false, ["mem".toList]⟩ Memory.shortDigest 50), helloPage, ()⟩

/-- Puts the language before every text. -/
def labeller : Batch.Translator Unit := .computing fun texts language _ =>
  .gave (.obj (texts.map fun t => (t, .str (language ++ ':' :: t)))) .null

theorem strings_hellos : hellos.source.strings helloPage hellos.selection =
    .ok [" Hello".toList, "Hello".toList] := rfl

/-- Both languages get a file with both strings. -/
theorem locale_files_complete_hellos : ∃ run m turns,
    (hellos.carryOut labeller none 0 helloWorkspace).result = .ok run ∧ run.succeeded = true ∧
      m.skipped = ["Hello".toList] ∧
      run.files = [Locale.path hellos.output "es".toList, Locale.path hellos.output "en".toList] ∧
      hellos.Completed labeller none 0 m helloWorkspace run turns
        (hellos.carryOut labeller none 0 helloWorkspace) := by
  have hrun : (hellos.carryOut labeller none 0 helloWorkspace).result.toOption.any (fun run =>
      run.succeeded && decide (run.languages = ["es".toList, "en".toList])) = true := by
    decide +kernel
  obtain ⟨run, hresult, hchecked⟩ := exists_ok_of_any hrun
  rw [Bool.and_eq_true, decide_eq_true_eq] at hchecked
  obtain ⟨hsucceeded, hlanguages⟩ := hchecked
  have hsource : hellos.options.sourceLanguage = .str "en".toList := rfl
  obtain ⟨m, turns, hmaterial, -, -, hcompleted⟩ := locale_files_complete hsource (by decide)
    strings_hellos (by decide) hresult hsucceeded
  have hskipped : ((hellos.material [" Hello".toList, "Hello".toList]).toOption.any fun m =>
      decide (m.skipped = ["Hello".toList])) = true := by
    decide +kernel
  rw [hmaterial] at hskipped
  refine ⟨run, m, turns, hresult, hsucceeded, of_decide_eq_true hskipped, ?_, hcompleted⟩
  rw [hcompleted.files, hlanguages]
  rfl

/-- A skipped string can be the source text of what a run puts into an empty memory: another string
has been sent and stored that is trimmed to it. -/
theorem skipped_text_remembered : ∃ run m memory,
    (hellos.carryOut labeller none 0 helloWorkspace).result = .ok run ∧ run.succeeded = true ∧
      hellos.source.strings helloPage hellos.selection =
        .ok [" Hello".toList, "Hello".toList] ∧
      hellos.material [" Hello".toList, "Hello".toList] = .ok m ∧ "Hello".toList ∈ m.skipped ∧
      (∀ s ∈ [" Hello".toList, "Hello".toList], ¬ mark <:+: s) ∧
      helloWorkspace.memory.map Memory.size = some 0 ∧
      (hellos.carryOut labeller none 0 helloWorkspace).workspace.memory = some memory ∧
      memory.cache.values.map Memory.Entry.sourceText = [Json.lit "Hello"] := by
  have hrun : (hellos.carryOut labeller none 0 helloWorkspace).result.toOption.any
      Run.succeeded = true := by
    decide +kernel
  obtain ⟨run, hresult, hsucceeded⟩ := exists_ok_of_any hrun
  have hmaterial : ((hellos.material [" Hello".toList, "Hello".toList]).toOption.any fun m =>
      decide ("Hello".toList ∈ m.skipped)) = true := by
    decide +kernel
  obtain ⟨m, hm, hskipped⟩ := exists_ok_of_any hmaterial
  have hmemory : ((hellos.carryOut labeller none 0 helloWorkspace).workspace.memory.map
      fun memory => memory.cache.values.map Memory.Entry.sourceText) = some [Json.lit "Hello"] := by
    decide +kernel
  obtain ⟨memory, hafter, hsources⟩ := Option.map_eq_some_iff.mp hmemory
  exact ⟨run, m, memory, hresult, hsucceeded, strings_hellos, hm, of_decide_eq_true hskipped,
    by decide, rfl, hafter, hsources⟩

end Plan

end Project

end Localize
