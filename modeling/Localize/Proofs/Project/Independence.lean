import Localize.Proofs.Batch.Purity
import Localize.Proofs.Project.Plan

/-!
# Languages do not influence each other

A project is translated into its languages in turn, with one memory for all of them. Each turn
leaves a memory that is alike in the direction of every other language, and of the files it changes
that of the memory and its own. So at its turn a language finds what it would have found at the
beginning, and its file is the same whatever the other languages are and in whatever order they
come.
-/

namespace Localize.Project

variable {σ τ : Type} {f : List Text → Text → Text → Batch.Answer} {t : Batch.Translator σ}
  {t' : Batch.Translator τ} {g : Option Glossary} {now now' : Nat} {m : Material}
  {p : Plan} {language code : Text} {codes codes' : List Text} {w w₁ w₂ : Batch.Workspace σ}
  {w' w₁' : Batch.Workspace τ} {run run' : Run} {waits : List Nat}
  {translations translations' : Fields} {result result' : Option Batch.Result}

/-- The run has succeeded with a language among its own. -/
def Ending.Covers (e : Ending σ) (language : Text) : Prop :=
  ∃ run, e.result = .ok run ∧ run.succeeded = true ∧ language ∈ run.languages

/-- What the locale file of a language holds in the end. -/
def Ending.localeFile? (e : Ending σ) (output : Path) (language : Text) : Option Content :=
  e.workspace.volume.content? (Locale.path output language)

namespace Plan

/-- The direction from the language of the source to another. -/
def direction (p : Plan) (code : Text) : Memory.Direction :=
  ⟨p.options.sourceLanguage, .str code⟩

/-- What the turns of some languages leave of a workspace: a memory that is alike in the direction
of every other language, and all files but those of the memory and of these languages. -/
structure Turned (p : Plan) (codes : List Text) (w w' : Batch.Workspace σ) : Prop where
  alike : ∀ d : Memory.Direction, (∀ code ∈ codes, d.Apart (p.direction code)) → w.Alike d w'
  files : w'.memoryFiles = w.memoryFiles
  kept : w.volume.Kept (w.memoryFiles ++ codes.map (Locale.path p.output)) w'.volume

theorem Turned.nil (p : Plan) (w : Batch.Workspace σ) : p.Turned [] w w :=
  ⟨fun d _ => .of_memory_eq d rfl, rfl, .refl _ _⟩

theorem Turned.append (h : p.Turned codes w w₁) (h' : p.Turned codes' w₁ w₂) :
    p.Turned (codes ++ codes') w w₂ := by
  constructor
  case alike =>
    intro d hapart
    have hfirst := h.alike d fun code hcode => hapart code (List.mem_append_left _ hcode)
    have hsecond := h'.alike d fun code hcode => hapart code (List.mem_append_right _ hcode)
    exact hfirst.trans hsecond
  case files => exact h'.files.trans h.files
  case kept =>
    have hsecond := h'.kept
    rw [h.files] at hsecond
    rw [List.map_append]
    refine (h.kept.mono ?_).trans hsecond ?_
    · intro q hq
      rw [← List.append_assoc]
      exact List.mem_append_left _ hq
    · intro q hq
      rcases List.mem_append.mp hq with hq | hq
      · exact List.mem_append_left _ hq
      · exact List.mem_append_right _ (List.mem_append_right _ hq)

/-! ### One turn -/

theorem inLanguage_plain (h : .str language = p.options.sourceLanguage ∨ m.translatable = []) :
    p.inLanguage t g now m language w = (.ok (addIdentities [] m.strings, none), [], w) := by
  have hplain : (decide (Json.str language = p.options.sourceLanguage) ||
      m.translatable.isEmpty) = true := by simpa using h
  rw [inLanguage, if_pos hplain]

/-- All strings stand for themselves, or they are those of a run of the translator. -/
theorem inLanguage_ok
    (h : p.inLanguage t g now m language w = (.ok (translations, result), waits, w₁)) :
    ((.str language = p.options.sourceLanguage ∨ m.translatable = []) ∧
        translations = addIdentities [] m.strings ∧ w₁ = w) ∨
      ∃ r, (Batch.translate t g now (p.request m language) w).result = .ok r ∧
        translations = addIdentities r.translations m.skipped ∧
        w₁ = (Batch.translate t g now (p.request m language) w).workspace := by
  unfold inLanguage at h
  split at h
  · next hself =>
    cases h
    left
    simpa using hself
  · right
    cases hresult : (Batch.translate t g now (p.request m language) w).result with
    | error failure =>
      simp only [hresult] at h
      cases h
    | ok r =>
      simp only [hresult] at h
      cases h
      exact ⟨r, rfl, rfl, rfl⟩

theorem inLanguage_into (p : Plan) (languages : Json) (t : Batch.Translator σ)
    (g : Option Glossary) (now : Nat) (m : Material) (language : Text) (w : Batch.Workspace σ) :
    (p.into languages).inLanguage t g now m language w = p.inLanguage t g now m language w := rfl

theorem inLanguage_spared
    (h : p.inLanguage t g now m language w = (.ok (translations, result), waits, w₁)) :
    w.Spared (p.direction language) w₁ := by
  rcases inLanguage_ok h with ⟨-, -, rfl⟩ | ⟨r, hr, -, rfl⟩
  · exact ⟨fun d _ => .of_memory_eq d rfl, rfl, .refl _ _⟩
  · exact Batch.translate_spared hr

/-- At turns with memories that are alike in its direction a language has the same translations. -/
theorem inLanguage_eq {waits' : List Nat} (hf : t.Computes f) (hf' : t'.Computes f)
    (halike : w.Alike (p.direction language) w')
    (h : p.inLanguage t g now m language w = (.ok (translations, result), waits, w₁))
    (h' : p.inLanguage t' g now' m language w' = (.ok (translations', result'), waits', w₁')) :
    translations' = translations := by
  by_cases hself : .str language = p.options.sourceLanguage ∨ m.translatable = []
  · rw [inLanguage_plain hself] at h h'
    cases h
    cases h'
    rfl
  · rcases inLanguage_ok h with ⟨hplain, -⟩ | ⟨r, hr, rfl, -⟩
    · exact absurd hplain hself
    rcases inLanguage_ok h' with ⟨hplain, -⟩ | ⟨r', hr', rfl, -⟩
    · exact absurd hplain hself
    rw [Batch.translations_eq hf hf' halike.known?_eq hr hr']

/-- Where the memory can be saved, a language that had its translations at one turn has translations
at any other with a memory that is alike. -/
theorem exists_inLanguage {larger : Volume} (hf : t.Computes f) (hf' : t'.Computes f)
    (halike : w.Alike (p.direction language) w')
    (h : p.inLanguage t g now m language w = (.ok (translations, result), waits, w₁))
    (hsavable : w'.Savable larger) (now' : Nat) :
    ∃ translations' result' waits' w₁', p.inLanguage t' g now' m language w' =
      (.ok (translations', result'), waits', w₁') ∧ w₁'.Savable larger := by
  unfold inLanguage
  split
  · exact ⟨_, _, _, w', rfl, hsavable⟩
  · next hself =>
    rcases inLanguage_ok h with ⟨hplain, -⟩ | ⟨r, hr, -⟩
    · exact absurd (by simpa using hplain) hself
    · have hrequest : w.Alike (p.request m language).direction w' := halike
      obtain ⟨r', hr', hsavable'⟩ := Batch.translate_alike hf hf' hrequest hr hsavable now'
      simp only [hr']
      exact ⟨_, _, _, _, rfl, hsavable'⟩

/-- A turn ends with the locale file of its language. -/
theorem turned_of_write {file : Path} {v : Volume}
    (hname : Path.IsName (Language.fileName language))
    (h : p.inLanguage t g now m language w = (.ok (translations, result), waits, w₁))
    (hwrite : Locale.write w₁.volume p.output language translations = (.ok file, v)) :
    p.Turned [language] w { w₁ with volume := v } ∧
      v.content? (Locale.path p.output language) =
        some (.text (Json.obj translations).document) := by
  have hspared := inLanguage_spared h
  have hwritten := Locale.written_of_write hname hwrite
  refine ⟨⟨fun d hapart => ?_, hspared.files, ?_⟩, hwritten.done rfl⟩
  · have hbefore := hspared.alike d (hapart language (List.mem_singleton_self _))
    exact hbefore.trans (.of_memory_eq d rfl)
  · refine (hspared.kept.mono (List.subset_append_left _ _)).trans hwritten.kept ?_
    exact List.subset_append_right _ _

/-! ### All turns -/

/-- Somewhere in a run a language had its turn, with a memory alike in its direction to that of the
beginning, and in the end its translations are in its file. -/
def Gave (p : Plan) (t : Batch.Translator σ) (g : Option Glossary) (now : Nat) (m : Material)
    (w : Batch.Workspace σ) (v : Volume) (language : Text) : Prop :=
  ∃ translations result waits w₁ w₂, w.Alike (p.direction language) w₁ ∧
    p.inLanguage t g now m language w₁ = (.ok (translations, result), waits, w₂) ∧
    v.content? (Locale.path p.output language) = some (.text (Json.obj translations).document)

theorem apart_of_supported (hcode : Language.isSupported code = true)
    (hlanguage : Language.isSupported language = true) (hne : code ≠ language) :
    (p.direction code).Apart (p.direction language) :=
  Memory.apart_of_target_ne (Language.isCode_of_isSupported hcode).noColon
    (Language.isCode_of_isSupported hlanguage).noColon hne

/-- The locale file of a language is left alone by the turns of others. -/
theorem content?_of_kept {v v' : Volume} {w : Batch.Workspace σ}
    (h : v.Kept (w.memoryFiles ++ codes.map (Locale.path p.output)) v')
    (hcodes : ∀ code ∈ codes, Language.isSupported code = true)
    (hlanguage : Language.isSupported language = true) (hnot : language ∉ codes) :
    v'.content? (Locale.path p.output language) = v.content? (Locale.path p.output language) := by
  have hcode := Language.isCode_of_isSupported hlanguage
  apply h.content?_child (Language.isName_fileName hcode.noSlash)
  intro q hq
  rcases List.mem_append.mp hq with hq | hq
  · obtain ⟨memory, -, rfl⟩ := List.mem_map.mp hq
    exact ⟨memory.folder, _, rfl, Memory.isName_memory, hcode.fileName_ne_memory⟩
  · obtain ⟨other, hother, rfl⟩ := List.mem_map.mp hq
    have hslash := (Language.isCode_of_isSupported (hcodes other hother)).noSlash
    refine ⟨p.output, _, rfl, Language.isName_fileName hslash, fun hname => hnot ?_⟩
    rw [Language.fileName_injective hname]
    exact hother

/-- A run that goes on after the first turn has its translations and has written them. -/
theorem exists_turn {rest : List Text}
    (h : (p.inLanguages t g now m run waits w (language :: rest)).result = .ok run') :
    ∃ translations result more w₁ file v,
      p.inLanguage t g now m language w = (.ok (translations, result), more, w₁) ∧
      Locale.write w₁.volume p.output language translations = (.ok file, v) := by
  rw [inLanguages] at h
  cases hturn : p.inLanguage t g now m language w with
  | mk outcome more =>
    obtain ⟨more, w₁⟩ := more
    cases outcome with
    | error failure =>
      simp only [hturn] at h
      cases h
    | ok given =>
      obtain ⟨translations, result⟩ := given
      cases hwrite : Locale.write w₁.volume p.output language translations with
      | mk written v =>
        cases written with
        | error e =>
          simp only [hturn, hwrite] at h
          cases h
        | ok file => exact ⟨translations, result, more, w₁, file, v, rfl, hwrite⟩

theorem inLanguages_cons {file : Path} {v : Volume} {more : List Nat}
    (hturn : p.inLanguage t g now m language w = (.ok (translations, result), more, w₁))
    (hwrite : Locale.write w₁.volume p.output language translations = (.ok file, v))
    (run : Run) (waits : List Nat) (rest : List Text) :
    ∃ run₁ : Run, run₁.files = run.files ++ [file] ∧ run₁.languages = run.languages ∧
      run₁.succeeded = run.succeeded ∧
      p.inLanguages t g now m run waits w (language :: rest) =
        p.inLanguages t g now m run₁ (waits ++ more) { w₁ with volume := v } rest := by
  rw [inLanguages]
  simp only [hturn, hwrite]
  refine ⟨_, ?_, ?_, ?_, rfl⟩
  · cases result with
    | none => rfl
    | some r => rfl
  · cases result with
    | none => rfl
    | some r => rfl
  · cases result with
    | none => rfl
    | some r => rfl

theorem inLanguages_ok (hcodes : ∀ code ∈ codes, Language.isSupported code = true)
    (hdistinct : codes.Nodup)
    (h : (p.inLanguages t g now m run waits w codes).result = .ok run') :
    run'.languages = run.languages ∧
      p.Turned codes w (p.inLanguages t g now m run waits w codes).workspace ∧
      ∀ code ∈ codes, p.Gave t g now m w
        (p.inLanguages t g now m run waits w codes).workspace.volume code := by
  induction codes generalizing run waits w with
  | nil =>
    cases h
    exact ⟨rfl, .nil p w, fun code hcode => absurd hcode List.not_mem_nil⟩
  | cons language rest ih =>
    obtain ⟨hlanguage, hrest⟩ := List.forall_mem_cons.mp hcodes
    obtain ⟨hnot, hdistinct⟩ := List.nodup_cons.mp hdistinct
    have hname := Language.isName_fileName (Language.isCode_of_isSupported hlanguage).noSlash
    obtain ⟨translations, result, more, w₁, file, v, hturn, hwrite⟩ := exists_turn h
    obtain ⟨hturned, hcontent⟩ := turned_of_write hname hturn hwrite
    obtain ⟨run₁, -, hlanguages, -, hcons⟩ := inLanguages_cons hturn hwrite run waits rest
    rw [hcons] at h ⊢
    obtain ⟨hsame, hturns, hgave⟩ := ih hrest hdistinct h
    refine ⟨hsame.trans hlanguages, hturned.append hturns, List.forall_mem_cons.mpr ⟨?_, ?_⟩⟩
    · refine ⟨translations, result, more, w, w₁, .of_memory_eq _ rfl, hturn, ?_⟩
      rw [content?_of_kept hturns.kept hrest hlanguage hnot]
      exact hcontent
    · -- The turns before that of the language are apart from it, so its memory is as it was.
      intro code hcode
      obtain ⟨translations', result', waits', w₂, w₃, halike, hlater⟩ := hgave code hcode
      have hne : code ≠ language := fun hsame => hnot (hsame ▸ hcode)
      refine ⟨translations', result', waits', w₂, w₃, ?_, hlater⟩
      refine (hturned.alike _ fun other hother => ?_).trans halike
      rw [List.mem_singleton.mp hother]
      exact apart_of_supported (hrest code hcode) hlanguage hne

/-! ### Whole runs -/

theorem close_ok {e : Ending σ} (h : (close now e).result = .ok run) :
    e.result = .ok run ∧
      e.workspace.volume.Kept e.workspace.memoryFiles (close now e).workspace.volume ∧
      ∀ q ∈ e.workspace.memoryFiles, ((close now e).workspace.volume.content? q).isSome := by
  unfold close at h ⊢
  cases hresult : e.result with
  | error failure =>
    simp only [hresult] at h
    cases h
  | ok result =>
    cases hm : e.workspace.memory with
    | none =>
      simp only [hresult, hm] at h ⊢
      refine ⟨h, .refl _ _, fun q hq => ?_⟩
      simp [Batch.Workspace.memoryFiles, hm] at hq
    | some memory =>
      cases hsave : memory.save now e.workspace.volume with
      | mk outcome v =>
        have hwritten := Memory.save_written hsave
        cases outcome with
        | error failure =>
          simp only [hresult, hm, hsave] at h
          cases h
        | ok u =>
          simp only [hresult, hm, hsave] at h ⊢
          simp only [Batch.Workspace.memoryFiles, hm, Option.toList_some, List.map_cons,
            List.map_nil, List.mem_singleton, forall_eq]
          refine ⟨h, hwritten.kept, ?_⟩
          rw [Memory.file, hwritten.done rfl]
          rfl

theorem exists_close {e : Ending σ} {larger : Volume} (h : e.result = .ok run)
    (hsavable : e.workspace.Savable larger) (now : Nat) : (close now e).result = .ok run := by
  unfold close
  cases hm : e.workspace.memory with
  | none => simp only [h]
  | some memory =>
    obtain ⟨v, hsave, -⟩ := Memory.exists_save hsavable.free (hsavable.content? hm) now
    simp only [h, hsave]

theorem supported_of_check (h : p.check = .ok codes)
    (hsource : p.options.sourceLanguage = .str code) (hcode : Language.isSupported code = true) :
    ∀ language ∈ codes, Language.isSupported language = true := by
  intro language hlanguage
  obtain ⟨-, hsupported, -⟩ := check_ok h
  rcases hsupported language hlanguage with hself | hself
  · rw [hsource] at hself
    cases hself
    exact hcode
  · exact hself

theorem carryOut_eq {strings : List Text} (hcheck : p.check = .ok codes)
    (hstrings : p.source.strings w.volume p.selection = .ok strings) (hne : strings ≠ [])
    (hm : p.material strings = .ok m) :
    p.carryOut t g now w =
      close now (p.inLanguages t g now m (.start codes m) [] w codes) := by
  obtain ⟨first, rest, rfl⟩ := List.exists_cons_of_ne_nil hne
  unfold carryOut
  simp only [hcheck, hstrings, hm]

/-- A run that has succeeded has had strings to translate. -/
theorem exists_material (h : (p.carryOut t g now w).result = .ok run)
    (hsucceeded : run.succeeded = true) :
    ∃ codes strings m, p.check = .ok codes ∧
      p.source.strings w.volume p.selection = .ok strings ∧ strings ≠ [] ∧
      p.material strings = .ok m := by
  unfold carryOut at h
  cases hcheck : p.check with
  | error failure =>
    simp only [hcheck] at h
    cases h
  | ok codes =>
    cases hstrings : p.source.strings w.volume p.selection with
    | error failure =>
      simp only [hcheck, hstrings] at h
      cases h
    | ok strings =>
      cases strings with
      | nil =>
        simp only [hcheck, hstrings] at h
        cases h
        cases hsucceeded
      | cons first strings =>
        cases hm : p.material (first :: strings) with
        | error fault =>
          simp only [hcheck, hstrings, hm] at h
          cases h
        | ok m => exact ⟨codes, first :: strings, m, rfl, rfl, List.cons_ne_nil _ _, hm⟩

/-- What a run that has succeeded has read and written. -/
structure Carried (p : Plan) (t : Batch.Translator σ) (g : Option Glossary) (now : Nat)
    (w : Batch.Workspace σ) (codes strings : List Text) (m : Material) (v : Volume) : Prop where
  checked : p.check = .ok codes
  extracted : p.source.strings w.volume p.selection = .ok strings
  nonempty : strings ≠ []
  divided : p.material strings = .ok m
  within : w.volume.Within v
  saved : ∀ q ∈ w.memoryFiles, (v.content? q).isSome
  gave : ∀ language ∈ codes, p.Gave t g now m w v language

theorem carryOut_ok (hsource : p.options.sourceLanguage = .str code)
    (hcode : Language.isSupported code = true) (h : (p.carryOut t g now w).result = .ok run)
    (hsucceeded : run.succeeded = true) :
    ∃ strings m, p.Carried t g now w run.languages strings m
      (p.carryOut t g now w).workspace.volume := by
  obtain ⟨codes, strings, m, hcheck, hstrings, hne, hm⟩ := exists_material h hsucceeded
  rw [carryOut_eq hcheck hstrings hne hm] at h ⊢
  have hcodes := supported_of_check hcheck hsource hcode
  have hdistinct := languagesOf_ok (check_ok hcheck).1
  obtain ⟨hresult, hkept, hsaved⟩ := close_ok h
  obtain ⟨hrun, hturned, hgave⟩ := inLanguages_ok hcodes hdistinct hresult
  obtain rfl : run.languages = codes := hrun
  rw [hturned.files] at hkept hsaved
  refine ⟨strings, m, hcheck, hstrings, hne, hm,
    Entries.Within.trans hturned.kept.within hkept.within, hsaved, fun language hlanguage => ?_⟩
  obtain ⟨translations, result, waits, w₁, w₂, halike, hturn, hcontent⟩ := hgave language hlanguage
  refine ⟨translations, result, waits, w₁, w₂, halike, hturn, hcontent ▸ ?_⟩
  exact content?_of_kept (hkept.mono (List.subset_append_left _ (List.map _ [])))
    (fun _ h => absurd h List.not_mem_nil) (hcodes language hlanguage) List.not_mem_nil

/-- A language that was among those of a run can be translated into alone, if the medium does not
refuse to write. -/
theorem covers_alone (hf : t.Computes f) (hf' : t'.Computes f)
    (hlanguage : Language.isSupported language = true) {strings : List Text} {v : Volume}
    (h : p.Carried t g now w codes strings m v) (hmem : language ∈ codes)
    (hmemory : w'.memory = w.memory) (hvolume : w'.volume = w.volume)
    (hmedium : w.volume.refusals = []) (now' : Nat) :
    ((p.into (.arr [.str language])).carryOut t' g now' w').Covers language := by
  have hsavable : w'.Savable v := by
    refine ⟨⟨?_, ?_⟩, ?_⟩
    · rw [hvolume]
      exact h.within
    · rw [hvolume]
      exact hmedium
    · rw [Batch.Workspace.memoryFiles, hmemory]
      exact h.saved
  obtain ⟨translations, result, waits, w₁, w₂, halike, hturn, hcontent⟩ := h.gave language hmem
  have hstart : w₁.Alike (p.direction language) w' :=
    halike.symm.trans (.of_memory_eq _ hmemory)
  obtain ⟨translations', result', waits', w₁', hturn', hsavable'⟩ :=
    exists_inLanguage hf hf' hstart hturn hsavable now'
  rw [← inLanguage_into p (.arr [.str language])] at hturn'
  have hname := Language.isName_fileName (Language.isCode_of_isSupported hlanguage).noSlash
  have hfile : (v.content? (Locale.path p.output language)).isSome := by
    rw [hcontent]
    rfl
  obtain ⟨v', hwrite, hfree⟩ :=
    Locale.exists_write hname hsavable'.free hfile translations'
  obtain ⟨run, -, hlanguages, hsucceeded, hrun⟩ :=
    inLanguages_cons hturn' hwrite (.start [language] m) [] []
  have hextracted : (p.into (.arr [.str language])).source.strings w'.volume
      (p.into (.arr [.str language])).selection = .ok strings := by
    rw [hvolume]
    exact h.extracted
  refine ⟨run, ?_, hsucceeded, ?_⟩
  · rw [carryOut_eq (check_into_singleton h.checked hmem hlanguage) hextracted h.nonempty
      h.divided, hrun]
    exact exists_close rfl ⟨hfree, hsavable'.filed⟩ now'
  · rw [hlanguages]
    exact List.mem_singleton_self _

/-- The file of a language does not depend on the other languages of a run or on their order, nor on
the state of a translator that computes a function, nor on the time: every run from the same volume
and the same memory that succeeds with the language among its own leaves the same document there. A
run for the language alone is such a run, unless the medium refuses to write. -/
theorem languages_independent (hf : t.Computes f) (hsource : p.options.sourceLanguage = .str code)
    (hcode : Language.isSupported code = true)
    (h : (p.carryOut t g now w).Covers language) :
    ∃ document,
      (p.carryOut t g now w).localeFile? p.output language = some (.text document) ∧
      (∀ {τ : Type} (t' : Batch.Translator τ) (s : τ) (now' : Nat) (languages : Json),
        t'.Computes f →
        ((p.into languages).carryOut t' g now' ⟨w.memory, w.volume, s⟩).Covers language →
        ((p.into languages).carryOut t' g now' ⟨w.memory, w.volume, s⟩).localeFile? p.output
          language = some (.text document)) ∧
      (w.volume.refusals = [] → ∀ {τ : Type} (t' : Batch.Translator τ) (s : τ) (now' : Nat),
        t'.Computes f → ((p.into (.arr [.str language])).carryOut t' g now'
          ⟨w.memory, w.volume, s⟩).Covers language) := by
  obtain ⟨run, hrun, hsucceeded, hlanguage⟩ := h
  obtain ⟨strings, m, hcarried⟩ := carryOut_ok hsource hcode hrun hsucceeded
  obtain ⟨translations, result, waits, w₁, w₂, halike, hturn, hcontent⟩ :=
    hcarried.gave language hlanguage
  refine ⟨_, hcontent, fun {τ} t' s now' languages hf' hcovers => ?_,
    fun hmedium τ t' s now' hf' => ?_⟩
  · obtain ⟨run', hrun', hsucceeded', hlanguage'⟩ := hcovers
    obtain ⟨strings', m', hcarried'⟩ :=
      carryOut_ok (p := p.into languages) hsource hcode hrun' hsucceeded'
    obtain ⟨translations', result', waits', w₁', w₂', halike', hturn', hcontent'⟩ :=
      hcarried'.gave language hlanguage'
    obtain rfl : strings = strings' :=
      Except.ok.inj (hcarried.extracted.symm.trans hcarried'.extracted)
    obtain rfl : m = m' := Except.ok.inj (hcarried.divided.symm.trans hcarried'.divided)
    have hstart : w.Alike (p.direction language) ⟨w.memory, w.volume, s⟩ := .of_memory_eq _ rfl
    have hboth : w₁.Alike (p.direction language) w₁' := halike.symm.trans (hstart.trans halike')
    rw [inLanguage_into] at hturn'
    rw [← inLanguage_eq hf hf' hboth hturn hturn']
    exact hcontent'
  · have hsupported := supported_of_check hcarried.checked hsource hcode language hlanguage
    exact covers_alone hf hf' hsupported hcarried hlanguage rfl rfl hmedium now'

/-- A page with two buttons and a line. -/
def buttonPage : Volume := .ofEntries [("index.html".toList, .file (.text
  "<button>Save</button><button>Open</button><p>Done</p>".toList))]

/-- The page to be translated into three languages, one of them its own, a string at a time. -/
def buttons : Plan where
  source := .path ⟨false, ["index.html".toList]⟩
  languages := .str "es, en,fr".toList
  key := Json.lit "key"
  output := ⟨false, ["locales".toList]⟩
  selection := {}
  skipPatterns := .null
  options := { chunkSize := .nat 1, pause := .nat 0 }

/-- An empty memory beside the locale files, under a digest that is the same for all texts. -/
def buttonWorkspace : Batch.Workspace Unit :=
  ⟨some (.empty ⟨false, ["locales".toList]⟩ (fun _ => ['0']) 2), buttonPage, ()⟩

/-- Marks every text with the language, but fails for one text in Spanish. -/
def marked (texts : List Text) (language _ : Text) : Batch.Answer :=
  if texts = ["Open".toList] && language = "es".toList then .failed
  else .gave (.obj (texts.map fun t => (t, .str (language ++ ':' :: t)))) .null

theorem covers_of_any {e : Ending σ}
    (h : e.result.toOption.any (fun run => run.succeeded && run.languages.contains language) =
      true) : e.Covers language := by
  obtain ⟨run, hresult, hboth⟩ := exists_ok_of_any h
  rw [Bool.and_eq_true, List.contains_iff_mem] at hboth
  exact ⟨run, hresult, hboth⟩

theorem languages_independent_buttons : ∃ document,
    (buttons.carryOut (.computing marked) none 0 buttonWorkspace).localeFile? buttons.output
      "es".toList = some (.text document) ∧
    ((buttons.into (Json.lit "fr,es")).carryOut (.computing marked) none 1
      buttonWorkspace).localeFile? buttons.output "es".toList = some (.text document) ∧
    ((buttons.into (.arr [Json.lit "es"])).carryOut (.computing marked) none 2
      buttonWorkspace).localeFile? buttons.output "es".toList = some (.text document) := by
  have hcovers : (buttons.carryOut (.computing marked) none 0 buttonWorkspace).Covers
      "es".toList := covers_of_any (by decide +kernel)
  have hturned : ((buttons.into (Json.lit "fr,es")).carryOut (.computing marked) none 1
      buttonWorkspace).Covers "es".toList := covers_of_any (by decide +kernel)
  have hcomputes := Batch.Translator.computes_computing marked
  have hsource : buttons.options.sourceLanguage = .str "en".toList := rfl
  obtain ⟨document, hdocument, hsame, halone⟩ :=
    languages_independent hcomputes hsource (by decide) hcovers
  have hsolo := halone rfl (.computing marked) () 2 hcomputes
  exact ⟨document, hdocument, hsame (.computing marked) () 1 _ hcomputes hturned,
    hsame (.computing marked) () 2 _ hcomputes hsolo⟩

end Plan

end Localize.Project
