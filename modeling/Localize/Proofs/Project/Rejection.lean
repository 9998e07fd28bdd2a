import Localize.Proofs.Batch.Rejection
import Localize.Proofs.Project.Completeness

/-!
# Plans that are turned down

The languages and the key of a plan are checked before anything is read, and a source without a
place is found before anything is written. The chunk size is checked with the request of a language,
so it is found bad at the turn of the first language that is not that of the source. Languages are
distinct, so at most one turn lies before, and that turn writes the locale file of the source. These
are all the ways in which a plan can be turned down; in none of them is the translator asked or the
memory touched.
-/

namespace Localize

theorem Locale.isRejection_write {v v' : Volume} {folder : Path} {language : Text}
    {translations : Fields} {e : Error}
    (h : write v folder language translations = (.error e, v')) : e.isRejection = false := by
  unfold write at h
  rcases Volume.writeJson_cases v (path folder language) (.obj translations) with
    ⟨v₁, hwrite, -⟩ | ⟨e₁, v₁, hwrite, hcategory, -⟩
  · simp only [hwrite] at h
    cases h
  · simp only [hwrite] at h
    cases h
    exact Error.isRejection_of_persistence hcategory

namespace Project

variable {σ : Type} {t : Batch.Translator σ} {g : Option Glossary} {now : Nat} {p : Plan}
  {m : Material} {run : Run} {waits : List Nat} {w w₁ : Batch.Workspace σ} {failure : Failure}
  {language : Text} {codes : List Text} {e : Error}

/-- The run was ended because what was asked for is not right. -/
def Ending.isRejected (e : Ending σ) : Bool :=
  match e.result with
  | .ok _ => false
  | .error failure => failure.isRejection

theorem Ending.isRejected_iff {e : Ending σ} :
    e.isRejected = true ↔ ∃ failure, e.result = .error failure ∧ failure.isRejection = true := by
  unfold isRejected
  cases e.result with
  | ok run => simp
  | error failure => simp

namespace Plan

/-- Whether the language is that of the source. -/
def IsOwn (p : Plan) (language : Text) : Prop := .str language = p.options.sourceLanguage

/-- What is to be translated by a plan, if its source has strings at all. -/
structure Reads (p : Plan) (v : Volume) (m : Material) : Prop where
  extracted : p.source.strings v p.selection = .ok m.strings
  nonempty : m.strings ≠ []
  divided : p.material m.strings = .ok m

/-- The chunk size of a plan is bad, and found so behind the turn of a first language only: that of
the source. -/
structure Belated (p : Plan) (v : Volume) (code : Text) (m : Material) : Prop where
  languages : ∃ next rest, p.check = .ok (code :: next :: rest)
  own : p.IsOwn code
  reads : p.Reads v m
  work : m.translatable ≠ []
  size : ∃ e, Batch.checkChunkSize p.options.chunkSize = .error e

/-- How a plan fails before anything is translated, with what is left of the volume. -/
inductive TurnedDown (p : Plan) (v : Volume) : Failure → Volume → Prop
  | unfit {failure : Failure} (hcheck : p.check = .error failure) : TurnedDown p v failure v
  | unread {codes : List Text} {failure : Failure} (hcheck : p.check = .ok codes)
      (hstrings : p.source.strings v p.selection = .error failure) : TurnedDown p v failure v
  | early {code : Text} {rest : List Text} {m : Material} {e : Error}
      (hcheck : p.check = .ok (code :: rest)) (hforeign : ¬ p.IsOwn code) (hreads : p.Reads v m)
      (hwork : m.translatable ≠ [])
      (hsize : Batch.checkChunkSize p.options.chunkSize = .error e) : TurnedDown p v (.error e) v
  | late {code : Text} {m : Material} {e : Error} {file : Path} {v' : Volume}
      (hbelated : p.Belated v code m)
      (hsize : Batch.checkChunkSize p.options.chunkSize = .error e)
      (hwrite : Locale.write v p.output code (addIdentities [] m.strings) = (.ok file, v')) :
      TurnedDown p v (.error e) v'

/-! ### One turn -/

/-- What the checks of a plan have left to those of a request: the chunk size. -/
theorem check_request (hsupported : Language.isSupported language = true)
    (hwork : m.translatable ≠ []) (hkey : p.key.isSomething = true) :
    (p.request m language).check = ((Batch.checkChunkSize p.options.chunkSize).map fun chunkSize =>
      ⟨m.translatable.map .str, language, chunkSize⟩).mapError Failure.error := by
  obtain ⟨first, rest, hcons⟩ := List.exists_cons_of_ne_nil hwork
  have hstrings : Batch.checkStrings (.arr (m.translatable.map .str)) =
      .ok (m.translatable.map .str) := by
    rw [hcons]
    rfl
  have hlanguage : Batch.checkLanguage (.str language) = .ok language := by
    rw [Batch.checkLanguage, if_pos hsupported]
  cases hsize : Batch.checkChunkSize p.options.chunkSize with
  | error e =>
    simp only [Batch.Request.check, request, hlanguage, hstrings, hkey, hsize, if_true]
    rfl
  | ok chunkSize =>
    simp only [Batch.Request.check, request, hlanguage, hstrings, hkey, hsize, if_true]
    rfl

theorem foreign_of_check (h : p.check = .ok codes) (hmem : language ∈ codes)
    (hforeign : ¬ p.IsOwn language) :
    Language.isSupported language = true ∧ p.key.isSomething = true := by
  obtain ⟨-, hsupported, hkey⟩ := check_ok h
  exact ⟨(hsupported language hmem).resolve_left hforeign,
    hkey.resolve_right fun hall => hforeign (hall language hmem)⟩

theorem inLanguage_badSize (hcheck : p.check = .ok codes) (hmem : language ∈ codes)
    (hforeign : ¬ p.IsOwn language) (hwork : m.translatable ≠ [])
    (hsize : Batch.checkChunkSize p.options.chunkSize = .error e) :
    p.inLanguage t g now m language w = (.error (.error e), [], w) := by
  obtain ⟨hsupported, hkey⟩ := foreign_of_check hcheck hmem hforeign
  have hrequest : (p.request m language).check = .error (.error e) := by
    rw [check_request hsupported hwork hkey, hsize]
    rfl
  have hturn : ¬ (decide (Json.str language = p.options.sourceLanguage) ||
      m.translatable.isEmpty) = true := by
    simpa [IsOwn] using And.intro hforeign hwork
  rw [inLanguage, if_neg hturn, Batch.translate_of_check hrequest]
  rfl

/-- A turn is turned down for the chunk size only. -/
theorem badSize_of_inLanguage (ht : p.key.isSomething = true → t.Accepting)
    (hcheck : p.check = .ok codes) (hmem : language ∈ codes)
    (h : (p.inLanguage t g now m language w).1 = .error failure)
    (hrejection : failure.isRejection = true) :
    ¬ p.IsOwn language ∧ m.translatable ≠ [] ∧
      ∃ e, failure = .error e ∧ Batch.checkChunkSize p.options.chunkSize = .error e := by
  by_cases hplain : .str language = p.options.sourceLanguage ∨ m.translatable = []
  · rw [inLanguage_plain hplain] at h
    cases h
  · obtain ⟨hforeign, hwork⟩ := not_or.mp hplain
    obtain ⟨hsupported, hkey⟩ := foreign_of_check hcheck hmem hforeign
    refine ⟨hforeign, hwork, ?_⟩
    unfold inLanguage at h
    rw [if_neg (by simpa using hplain)] at h
    cases hresult : (Batch.translate t g now (p.request m language) w).result with
    | ok r =>
      simp only [hresult] at h
      cases h
    | error failure' =>
      simp only [hresult] at h
      cases h
      have hrequest := Batch.check_of_rejection (ht hkey) hresult hrejection
      rw [check_request hsupported hwork hkey] at hrequest
      cases hsize : Batch.checkChunkSize p.options.chunkSize with
      | ok chunkSize =>
        rw [hsize] at hrequest
        cases hrequest
      | error e =>
        rw [hsize] at hrequest
        cases hrequest
        exact ⟨e, rfl, rfl⟩

/-! ### All turns -/

/-- Turns are turned down for the chunk size only, and at that of a language that is not that of
the source. -/
theorem badSize_of_inLanguages (ht : p.key.isSomething = true → t.Accepting) {given : List Text}
    (hcheck : p.check = .ok given) (hsub : codes ⊆ given)
    (h : (p.inLanguages t g now m run waits w codes).result = .error failure)
    (hrejection : failure.isRejection = true) :
    m.translatable ≠ [] ∧ (∃ code ∈ codes, ¬ p.IsOwn code) ∧
      ∃ e, failure = .error e ∧ Batch.checkChunkSize p.options.chunkSize = .error e := by
  induction codes generalizing run waits w with
  | nil => cases h
  | cons language rest ih =>
    obtain ⟨hmem, hsub⟩ := List.cons_subset.mp hsub
    rcases hturn : p.inLanguage t g now m language w with ⟨outcome, more, w₁⟩
    cases outcome with
    | error failure' =>
      simp only [inLanguages, hturn] at h
      cases h
      obtain ⟨hforeign, hwork, hsize⟩ :=
        badSize_of_inLanguage ht hcheck hmem (by rw [hturn]) hrejection
      exact ⟨hwork, ⟨language, List.mem_cons_self, hforeign⟩, hsize⟩
    | ok given =>
      rcases hwrite : Locale.write w₁.volume p.output language given.1 with ⟨written, v⟩
      cases written with
      | error e =>
        simp only [inLanguages, hturn, hwrite] at h
        cases h
        have hnone := Locale.isRejection_write hwrite
        rw [Failure.isRejection, hnone] at hrejection
        cases hrejection
      | ok file =>
        simp only [inLanguages, hturn, hwrite] at h
        obtain ⟨hwork, ⟨code, hcode, hforeign⟩, hsize⟩ := ih hsub h
        exact ⟨hwork, ⟨code, List.mem_cons_of_mem language hcode, hforeign⟩, hsize⟩

theorem inLanguages_foreign {rest : List Text} (hcheck : p.check = .ok codes)
    (hmem : language ∈ codes) (hforeign : ¬ p.IsOwn language) (hwork : m.translatable ≠ [])
    (hsize : Batch.checkChunkSize p.options.chunkSize = .error e) :
    p.inLanguages t g now m run waits w (language :: rest) = ⟨.error (.error e), waits, w⟩ := by
  simp only [inLanguages, inLanguage_badSize hcheck hmem hforeign hwork hsize, List.append_nil]

/-- Behind the language of the source, which is written, the next one is turned down. -/
theorem inLanguages_own {code next : Text} {rest : List Text} {file : Path} {v : Volume}
    (hcheck : p.check = .ok (code :: next :: rest)) (hown : p.IsOwn code)
    (hwork : m.translatable ≠ [])
    (hsize : Batch.checkChunkSize p.options.chunkSize = .error e)
    (hwrite : Locale.write w.volume p.output code (addIdentities [] m.strings) = (.ok file, v)) :
    p.inLanguages t g now m run waits w (code :: next :: rest) =
      ⟨.error (.error e), waits, { w with volume := v }⟩ := by
  have hdistinct := languagesOf_ok (check_ok hcheck).1
  have hforeign : ¬ p.IsOwn next := by
    intro hnext
    have hsame : code = next := Json.str.inj (hown.trans hnext.symm)
    exact (List.nodup_cons.mp hdistinct).1 (hsame ▸ List.mem_cons_self)
  have hturn : p.inLanguage t g now m code w = (.ok (addIdentities [] m.strings, none), [], w) :=
    inLanguage_plain (.inl hown)
  obtain ⟨run₁, -, -, -, hcons⟩ := inLanguages_cons hturn hwrite run waits (next :: rest)
  rw [hcons, List.append_nil]
  exact inLanguages_foreign hcheck (List.mem_cons_of_mem _ List.mem_cons_self) hforeign hwork hsize

/-- A turn of the language of the source that fails to write is no rejection. -/
theorem exists_write_of_rejection {rest : List Text} (hown : p.IsOwn language)
    (h : (p.inLanguages t g now m run waits w (language :: rest)).result = .error failure)
    (hrejection : failure.isRejection = true) :
    ∃ file v,
      Locale.write w.volume p.output language (addIdentities [] m.strings) = (.ok file, v) := by
  rcases hwrite : Locale.write w.volume p.output language (addIdentities [] m.strings) with
    ⟨written, v⟩
  cases written with
  | ok file => exact ⟨file, v, rfl⟩
  | error e =>
    simp only [inLanguages, inLanguage_plain (.inl hown), hwrite] at h
    cases h
    rw [Failure.isRejection, Locale.isRejection_write hwrite] at hrejection
    cases hrejection

/-! ### Whole plans -/

theorem result_of_close {e : Ending σ} (h : (close now e).result = .error failure)
    (hrejection : failure.isRejection = true) : e.result = .error failure := by
  unfold close at h
  split at h
  · next memory hresult hm =>
    split at h
    · next hsave =>
      rw [hresult] at h
      cases h
    · next hsave =>
      cases h
      have hfailed : (memory.save now e.workspace.volume).1 = .error failure := by rw [hsave]
      rw [Memory.isRejection_save hfailed] at hrejection
      cases hrejection
  · exact h

/-- Each way leads to its failure and leaves its volume, whatever the translator, the glossary and
the time. -/
theorem TurnedDown.carryOut_eq {v : Volume} (h : p.TurnedDown w.volume failure v)
    (t : Batch.Translator σ) (g : Option Glossary) (now : Nat) :
    p.carryOut t g now w = ⟨.error failure, [], { w with volume := v }⟩ := by
  cases h with
  | unfit hcheck => simp only [carryOut, hcheck]
  | unread hcheck hstrings => simp only [carryOut, hcheck, hstrings]
  | early hcheck hforeign hreads hwork hsize =>
    rw [Plan.carryOut_eq hcheck hreads.extracted hreads.nonempty hreads.divided,
      inLanguages_foreign hcheck List.mem_cons_self hforeign hwork hsize]
    rfl
  | late hbelated hsize hwrite =>
    obtain ⟨⟨next, rest, hcheck⟩, hown, hreads, hwork, -⟩ := hbelated
    rw [Plan.carryOut_eq hcheck hreads.extracted hreads.nonempty hreads.divided,
      inLanguages_own hcheck hown hwork hsize hwrite]
    rfl

/-- Turns are turned down at the first one, or behind that of the language of the source. -/
theorem turnedDown_of_inLanguages (ht : p.key.isSomething = true → t.Accepting)
    (hcheck : p.check = .ok codes) (hreads : p.Reads w.volume m)
    (h : (p.inLanguages t g now m run waits w codes).result = .error failure)
    (hrejection : failure.isRejection = true) : ∃ v, p.TurnedDown w.volume failure v := by
  obtain ⟨hwork, ⟨other, hother, hforeign⟩, e, rfl, hsize⟩ :=
    badSize_of_inLanguages ht hcheck (List.Subset.refl codes) h hrejection
  obtain ⟨code, rest, rfl⟩ := List.exists_cons_of_ne_nil (List.ne_nil_of_mem hother)
  by_cases hown : p.IsOwn code
  · obtain ⟨file, v, hwrite⟩ := exists_write_of_rejection hown h hrejection
    cases rest with
    | nil => exact absurd (List.mem_singleton.mp hother ▸ hown) hforeign
    | cons next rest =>
      have hbelated : p.Belated w.volume code m :=
        ⟨⟨next, rest, hcheck⟩, hown, hreads, hwork, e, hsize⟩
      exact ⟨v, .late hbelated hsize hwrite⟩
  · exact ⟨w.volume, .early hcheck hown hreads hwork hsize⟩

/-- A plan is turned down in no other way. -/
theorem turnedDown_of_rejection (ht : p.key.isSomething = true → t.Accepting)
    (h : (p.carryOut t g now w).result = .error failure)
    (hrejection : failure.isRejection = true) : ∃ v, p.TurnedDown w.volume failure v := by
  cases hcheck : p.check with
  | error failure' =>
    simp only [carryOut, hcheck] at h
    cases h
    exact ⟨w.volume, .unfit hcheck⟩
  | ok codes =>
    cases hstrings : p.source.strings w.volume p.selection with
    | error failure' =>
      simp only [carryOut, hcheck, hstrings] at h
      cases h
      exact ⟨w.volume, .unread hcheck hstrings⟩
    | ok strings =>
      cases strings with
      | nil =>
        simp only [carryOut, hcheck, hstrings] at h
        cases h
      | cons first others =>
        cases hmaterial : p.material (first :: others) with
        | error fault =>
          simp only [carryOut, hcheck, hstrings, hmaterial] at h
          cases h
          cases hrejection
        | ok m =>
          rw [Plan.carryOut_eq hcheck hstrings (List.cons_ne_nil first others) hmaterial] at h
          obtain ⟨hm, -⟩ := material_ok hmaterial
          rw [← hm] at hstrings hmaterial
          have hreads : p.Reads w.volume m :=
            ⟨hstrings, hm ▸ List.cons_ne_nil first others, hmaterial⟩
          exact turnedDown_of_inLanguages ht hcheck hreads (result_of_close h hrejection)
            hrejection

/-- Where the size is found bad behind the first language, that language has been written. -/
theorem Belated.turnedDown {code : Text} (hbelated : p.Belated w.volume code m)
    (h : (p.carryOut t g now w).result = .error failure)
    (hrejection : failure.isRejection = true) : ∃ e file v, p.TurnedDown w.volume (.error e) v ∧
      Locale.write w.volume p.output code (addIdentities [] m.strings) = (.ok file, v) := by
  have ⟨⟨next, rest, hcheck⟩, hown, hreads, _, e, hsize⟩ := hbelated
  rw [Plan.carryOut_eq hcheck hreads.extracted hreads.nonempty hreads.divided] at h
  obtain ⟨file, v, hwrite⟩ :=
    exists_write_of_rejection hown (result_of_close h hrejection) hrejection
  exact ⟨e, file, v, .late hbelated hsize hwrite, hwrite⟩

/-- A plan that is turned down leaves the translator and the memory alone, whatever they are, and
all files as well, unless its chunk size is found bad behind the first language only: then the
locale file of the source has been written, and no other file has changed. -/
theorem rejection_leaves_no_trace (ht : p.key.isSomething = true → t.Accepting)
    (h : (p.carryOut t g now w).isRejected = true) :
    (∀ (t' : Batch.Translator σ) (g' : Option Glossary) (now' : Nat),
        p.carryOut t' g' now' w = p.carryOut t g now w) ∧
      (p.carryOut t g now w).waits = [] ∧
      (p.carryOut t g now w).workspace.translator = w.translator ∧
      (p.carryOut t g now w).workspace.memory = w.memory ∧
      ((∀ code m, ¬ p.Belated w.volume code m) →
        (p.carryOut t g now w).workspace.volume = w.volume) ∧
      ∀ code m, p.Belated w.volume code m → ∀ names,
        (p.carryOut t g now w).workspace.volume.entries.content? names =
          if (Locale.path p.output code).names? = some names then
            some (.text (Json.obj (addIdentities [] m.strings)).document)
          else w.volume.entries.content? names := by
  obtain ⟨failure, hresult, hrejection⟩ := Ending.isRejected_iff.mp h
  obtain ⟨v, hdown⟩ := turnedDown_of_rejection ht hresult hrejection
  have hend := hdown.carryOut_eq t g now
  refine ⟨fun t' g' now' => ?_, ?_, ?_, ?_, fun hnever => ?_, fun code m hbelated names => ?_⟩
  · rw [hdown.carryOut_eq, hend]
  · rw [hend]
  · rw [hend]
  · rw [hend]
  · rw [hend]
    cases hdown with
    | unfit _ => rfl
    | unread _ _ => rfl
    | early _ _ _ _ _ => rfl
    | late hbelated _ _ => exact absurd hbelated (hnever _ _)
  · obtain ⟨e, file, v, hlate, hwrite⟩ := hbelated.turnedDown hresult hrejection
    rw [hlate.carryOut_eq]
    exact Locale.content?_write hwrite names

/-- The plan for the buttons, with chunks of no size. -/
def unsized (languages : String) : Plan :=
  { buttons with
    languages := Json.lit languages
    options := { buttons.options with chunkSize := .nat 0 } }

/-- A provider out of reach. -/
def silent : Provider.Endpoint Unit := fun _ _ => (.timedOut, ())

/-- The service under the first settings, to be set up when it is needed. -/
def setUpLater : Batch.Translator (Batch.Remote Unit) :=
  Batch.Remote.fresh silent
    (Service.ofSettings Settings.default [] buttons.key buttons.options.model .null false)

/-- A run of the plan beside a memory, by a translator that has not been used yet. -/
def sizeless (t : Batch.Translator (Batch.Remote Unit)) (languages : String) :
    Ending (Batch.Remote Unit) :=
  (unsized languages).carryOut t none 0
    ⟨some (.empty buttons.output (fun _ => ['0']) 2), buttonPage, ⟨none, ()⟩⟩

theorem belated_buttons : ∃ m, m.strings = ["Done", "Open", "Save"].map String.toList ∧
    (unsized "en,es").Belated buttonPage "en".toList m := by
  have hcheck : ∃ codes, (unsized "en,es").check = .ok codes ∧
      decide (codes = ["en".toList, "es".toList]) = true :=
    exists_ok_of_any (by decide +kernel)
  have hstrings : ∃ strings, buttons.source.strings buttonPage buttons.selection = .ok strings ∧
      decide (strings = ["Done", "Open", "Save"].map String.toList) = true :=
    exists_ok_of_any (by decide +kernel)
  have hmaterial : ∃ m, buttons.material (["Done", "Open", "Save"].map String.toList) = .ok m ∧
      decide (m.translatable ≠ []) = true :=
    exists_ok_of_any (by decide +kernel)
  obtain ⟨codes, hcheck, hcodes⟩ := hcheck
  obtain ⟨strings, hstrings, hlisted⟩ := hstrings
  obtain ⟨m, hmaterial, hwork⟩ := hmaterial
  rw [decide_eq_true_eq] at hcodes hlisted hwork
  obtain ⟨hm, -⟩ := material_ok hmaterial
  rw [hcodes] at hcheck
  rw [hlisted, ← hm] at hstrings
  rw [← hm] at hmaterial
  have hsize : Batch.checkChunkSize (.nat 0) = .error (.badChunkSize (.nat 0)) := rfl
  exact ⟨m, hm, ⟨_, _, hcheck⟩, rfl, ⟨hstrings, hm ▸ List.cons_ne_nil _ _, hmaterial⟩, hwork,
    _, hsize⟩

theorem not_belated_buttons (code : Text) (m : Material) :
    ¬ (unsized "es,en").Belated buttonPage code m := by
  intro hbelated
  obtain ⟨next, rest, hcheck⟩ := hbelated.languages
  have hfirst : (unsized "es,en").check.toOption.any
      (fun codes => codes.head? = some "es".toList) = true := by
    decide +kernel
  rw [hcheck] at hfirst
  have hspanish : code = "es".toList := by simpa [Except.toOption] using hfirst
  have hsource : code = "en".toList := Json.str.inj hbelated.own
  exact absurd (hspanish.symm.trans hsource) (by decide)

/-- Spanish first, nothing is left behind; behind English there is a file. -/
theorem rejection_leaves_no_trace_buttons :
    ((sizeless (Batch.Remote.standing silent) "es,en").isRejected = true ∧
      (sizeless (Batch.Remote.standing silent) "es,en").workspace.volume = buttonPage) ∧
    (sizeless setUpLater "en,es").isRejected = true ∧
      (sizeless setUpLater "en,es").localeFile? (unsized "en,es").output "en".toList =
        some (.text (Json.obj (addIdentities []
          (["Done", "Open", "Save"].map String.toList))).document) := by
  have hstanding : buttons.key.isSomething = true → (Batch.Remote.standing silent).Accepting :=
    fun _ => Batch.Remote.accepting_standing
  have hlater : buttons.key.isSomething = true → setUpLater.Accepting := fun hkey =>
    Batch.Remote.accepting_fresh fun failure h => Service.isRejection_ofSettings hkey h
  have hearly : (sizeless (Batch.Remote.standing silent) "es,en").isRejected = true := by
    decide +kernel
  have hlate : (sizeless setUpLater "en,es").isRejected = true := by
    decide +kernel
  refine ⟨⟨hearly, ?_⟩, hlate, ?_⟩
  · obtain ⟨-, -, -, -, hvolume, -⟩ :=
      rejection_leaves_no_trace (p := unsized "es,en") hstanding hearly
    rw [sizeless]
    exact hvolume not_belated_buttons
  · obtain ⟨m, hstrings, hbelated⟩ := belated_buttons
    obtain ⟨-, -, -, -, -, hfile⟩ := rejection_leaves_no_trace (p := unsized "en,es") hlater hlate
    have hnames : (Locale.path (unsized "en,es").output "en".toList).names? =
        some ["locales".toList, "en.json".toList] := by
      decide +kernel
    have hcontent := hfile _ m hbelated ["locales".toList, "en.json".toList]
    rw [if_pos hnames, hstrings] at hcontent
    rw [Ending.localeFile?, Volume.content?_eq, hnames, Option.bind_some, sizeless]
    exact hcontent

end Plan

end Project

end Localize
