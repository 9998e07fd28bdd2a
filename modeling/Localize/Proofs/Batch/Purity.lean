import Localize.Proofs.Batch.Ending
import Localize.Proofs.Memory.Separation

/-!
# Runs whose translator computes a function

A translator that computes a function answers a call by the texts, the language and the prompt, and
never mind what came before. Two runs of one request then give the same translations if their
memories recall the same. If the memories are alike in the direction of the request, one run comes
to a result when the other does, unless the medium refuses to save the memory. A run for one
language leaves a memory that is alike in the direction of every other.
-/

namespace Localize.Batch

variable {σ τ : Type} {f : List Text → Text → Text → Answer} {t : Translator σ} {t' : Translator τ}
  {g : Option Glossary} {now now' : Nat} {r : Request} {w w₁ : Workspace σ} {w' : Workspace τ}
  {o : Opening} {result : Result} {result' : Result}

/-- The translator can always be prepared, and what it does for texts is told by the texts, the
language and the prompt. -/
structure Translator.Computes (t : Translator σ) (f : List Text → Text → Text → Answer) :
    Prop where
  prepare : ∀ s, (t.prepare s).1 = .ok ()
  translate : ∀ s texts language prompt,
    (t.translate s texts language prompt).1 = f texts language prompt

/-- A translator of one state that computes a function. -/
def Translator.computing (f : List Text → Text → Text → Answer) : Translator Unit where
  prepare s := (.ok (), s)
  translate s texts language prompt := (f texts language prompt, [], s)

theorem Translator.computes_computing (f : List Text → Text → Text → Answer) :
    (computing f).Computes f :=
  ⟨fun _ => rfl, fun _ _ _ _ => rfl⟩

/-- The calls for the strings that an opening sends, when a function answers them. -/
def Opening.callsBy (o : Opening) (f : List Text → Text → Text → Answer) : List Call :=
  (chunksOf o.checked.chunkSize o.prepared.sent).map fun texts =>
    ⟨texts, f texts o.checked.language (o.course 0).prompt⟩

/-- The direction of a request. -/
def Request.direction (r : Request) : Memory.Direction := ⟨r.options.sourceLanguage, r.language⟩

/-- Two workspaces are without a memory, or their memories are alike in a direction. -/
inductive Workspace.Alike (d : Memory.Direction) (w : Workspace σ) (w' : Workspace τ) : Prop
  | without (hw : w.memory = none) (hw' : w'.memory = none)
  | both {m m' : Memory} (hm : w.memory = some m) (hm' : w'.memory = some m') (h : m.Alike d m')

theorem direction_of_openRun (h : openRun g now r w = (.ok o, w₁)) : o.direction = r.direction := by
  obtain ⟨hcheck, hrequest, -⟩ := openRun_ok_iff.mp h
  obtain ⟨hlanguage, -, -⟩ := check_ok hcheck
  have hcode : r.language = .str o.checked.language := by
    unfold checkLanguage at hlanguage
    split at hlanguage
    · next code hcode =>
      split at hlanguage
      · cases hlanguage
        exact hcode
      · cases hlanguage
    · split at hlanguage
      · cases hlanguage
      · cases hlanguage
  rw [Opening.direction, Request.direction, hrequest, hcode]

namespace Workspace.Alike

variable {d : Memory.Direction} {ρ : Type} {w'' : Workspace ρ}

theorem of_memory_eq (d : Memory.Direction) (h : w'.memory = w.memory) : w.Alike d w' := by
  cases hm : w.memory with
  | none => exact .without hm (h.trans hm)
  | some m => exact .both hm (h.trans hm) (.refl d m)

theorem symm (h : w.Alike d w') : w'.Alike d w := by
  cases h with
  | without hw hw' => exact .without hw' hw
  | both hm hm' h => exact .both hm' hm h.symm

theorem trans (h : w.Alike d w') (h' : w'.Alike d w'') : w.Alike d w'' := by
  cases h with
  | without hw hw' =>
    cases h' with
    | without _ hw'' => exact .without hw hw''
    | both hm' => exact absurd (hw'.symm.trans hm') nofun
  | both hm hm' h =>
    cases h' with
    | without hw' => exact absurd (hw'.symm.trans hm') nofun
    | both hm₁ hm'' h' =>
      cases hm'.symm.trans hm₁
      exact .both hm hm'' (h.trans h')

theorem known?_eq (h : w.Alike d w') : w'.known? d = w.known? d := by
  cases h with
  | without hw hw' =>
    funext t
    rw [Workspace.known?, Workspace.known?, hw, hw']
  | both hm hm' h => rw [Workspace.known?_eq hm, Workspace.known?_eq hm', h.known?_eq]

end Workspace.Alike

/-! ### The calls -/

theorem Translator.Computes.calls_eq (hf : t.Computes f) {language prompt : Text} {s s' : σ}
    {calls : List Call} (h : t.Answers language prompt s calls s') :
    calls = (calls.map Call.texts).map fun texts => ⟨texts, f texts language prompt⟩ := by
  induction h with
  | done s => rfl
  | @call s s' s'' texts answer waits calls hanswer _ ih =>
    have hcomputed := hf.translate s texts language prompt
    rw [hanswer] at hcomputed
    rw [List.map_cons, List.map_cons, ← ih, ← hcomputed]

theorem Translator.Computes.session_eq (hf : t.Computes f) {language prompt : Text} {s s' : σ}
    {calls : List Call} (h : t.Session language prompt s calls s') :
    calls = (calls.map Call.texts).map fun texts => ⟨texts, f texts language prompt⟩ := by
  cases h with
  | unused => rfl
  | used _ _ hanswers => exact hf.calls_eq hanswers

theorem Opening.Finished.calls_eq {calls : List Call} {answers : Table Text Text} {e : Ending σ}
    (h : o.Finished t now w calls answers e) (hf : t.Computes f) : calls = o.callsBy f := by
  rw [Opening.callsBy, ← h.chunks]
  exact hf.session_eq h.session

/-- Runs that open in the same way and whose translators compute the same have the same
translations. -/
theorem Opening.Finished.translations_eq {calls calls' : List Call}
    {answers answers' : Table Text Text} {e : Ending σ} {e' : Ending τ} (h : o.Finished t now w calls answers e)
    (h' : o.Finished t' now' w' calls' answers' e') (hf : t.Computes f) (hf' : t'.Computes f)
    (hresult : e.result = .ok result) (hresult' : e'.result = .ok result') :
    result'.translations = result.translations := by
  obtain rfl : calls = calls' := (h.calls_eq hf).trans (h'.calls_eq hf').symm
  obtain rfl : answers = answers' := Except.ok.inj (h.restored.symm.trans h'.restored)
  have hfirst := Except.ok.inj (hresult.symm.trans h.result)
  have hsecond := Except.ok.inj (hresult'.symm.trans h'.result)
  rw [hfirst, hsecond]
  rfl

/-! ### Openings -/

theorem opening_eq {w₁' : Workspace τ} {o' : Opening}
    (hknown : w'.known? r.direction = w.known? r.direction)
    (h : openRun g now r w = (.ok o, w₁)) (h' : openRun g now' r w' = (.ok o', w₁')) : o' = o := by
  have hdirection := direction_of_openRun h
  have hdirection' := direction_of_openRun h'
  obtain ⟨hcheck, hrequest, htotal, hlook, hprep⟩ := openRun_ok_iff.mp h
  obtain ⟨hcheck', hrequest', htotal', hlook', hprep'⟩ := openRun_ok_iff.mp h'
  have hchecked : o'.checked = o.checked := Except.ok.inj (hcheck'.symm.trans hcheck)
  have hrecalled : o'.recalled = o.recalled := by
    rw [(lookUp_ok hlook').1, (lookUp_ok hlook).1, hdirection', hdirection, hchecked, hknown]
  rw [hchecked, hrecalled] at hprep'
  rw [hchecked] at htotal'
  obtain ⟨request, checked, total, recalled, prepared⟩ := o
  obtain ⟨request', checked', total', recalled', prepared'⟩ := o'
  rw [Opening.mk.injEq]
  exact ⟨hrequest'.trans hrequest.symm, hchecked, htotal'.trans htotal.symm, hrecalled,
    Except.ok.inj (hprep'.symm.trans hprep)⟩

/-- Two runs of a request have the same translations if the same is recalled and their translators
compute the same. -/
theorem translations_eq (hf : t.Computes f) (hf' : t'.Computes f)
    (hknown : w'.known? r.direction = w.known? r.direction)
    (h : (translate t g now r w).result = .ok result)
    (h' : (translate t' g now' r w').result = .ok result') :
    result'.translations = result.translations := by
  obtain ⟨o, w₁, calls, answers, hopen, hfinished⟩ := translate_finished h
  obtain ⟨o', w₁', calls', answers', hopen', hfinished'⟩ := translate_finished h'
  obtain rfl := opening_eq hknown hopen hopen'
  exact hfinished.translations_eq hfinished' hf hf' h h'

theorem lookUp_alike {d : Memory.Direction} {strings : List Text} {l : Memory.Lookups}
    (halike : w.Alike d w') (h : lookUp w now d strings = (.ok l, w₁)) (now' : Nat) :
    ∃ w₁', lookUp w' now' d strings = (.ok l, w₁') := by
  obtain ⟨hl, -, -, hserves⟩ := lookUp_ok h
  suffices hok : ∃ l' w₁', lookUp w' now' d strings = (.ok l', w₁') by
    obtain ⟨l', w₁', hlook⟩ := hok
    have hsame : l' = l := by rw [hl, (lookUp_ok hlook).1, halike.known?_eq]
    exact ⟨w₁', by rw [hlook, hsame]⟩
  cases halike with
  | without _ hw' =>
    rw [lookUp, hw']
    exact ⟨_, _, rfl⟩
  | both hm hm' halike =>
    obtain ⟨m₁, -, -, hall⟩ := hserves _ hm
    obtain ⟨l', m₁', hlook⟩ :=
      Memory.exists_lookupAll now' fun t ht => halike.serves (hall t ht)
    rw [lookUp, hm']
    simp only [hlook]
    exact ⟨_, _, rfl⟩

theorem openRun_alike (halike : w.Alike r.direction w')
    (h : openRun g now r w = (.ok o, w₁)) (now' : Nat) :
    ∃ w₁', openRun g now' r w' = (.ok o, w₁') := by
  have hdirection := direction_of_openRun h
  obtain ⟨hcheck, hrequest, htotal, hlook, hprep⟩ := openRun_ok_iff.mp h
  rw [← hdirection] at halike
  obtain ⟨w₁', hlook'⟩ := lookUp_alike halike hlook now'
  exact ⟨w₁', openRun_ok_iff.mpr ⟨hcheck, hrequest, htotal, hlook', hprep⟩⟩

/-- An opening leaves the volume and the translator, and a memory that is alike in every
direction. -/
theorem openRun_kept (h : openRun g now r w = (.ok o, w₁)) :
    (w₁.volume = w.volume ∧ w₁.translator = w.translator) ∧ ∀ d, w.Alike d w₁ := by
  obtain ⟨-, -, -, hlook, -⟩ := openRun_ok_iff.mp h
  obtain ⟨-, hsame, hnone, hsome⟩ := lookUp_ok hlook
  refine ⟨hsame, fun d => ?_⟩
  cases hm : w.memory with
  | none => exact .without hm (hnone hm)
  | some m =>
    obtain ⟨m₁, hm₁, hused, -⟩ := hsome m hm
    exact .both hm hm₁ (hused.alike d)

/-! ### Other directions -/

/-- The file of the memory, if there is one. -/
def Workspace.memoryFiles (w : Workspace σ) : List Path := w.memory.toList.map Memory.file

theorem Workspace.Alike.memoryFiles_eq {d : Memory.Direction} (h : w.Alike d w') :
    w'.memoryFiles = w.memoryFiles := by
  cases h with
  | without hw hw' => rw [memoryFiles, memoryFiles, hw, hw']
  | both hm hm' h =>
    rw [memoryFiles, memoryFiles, hm, hm']
    simp [Memory.file_eq h.folder]

/-- What a run in one direction leaves of a workspace: a memory that is alike in every direction
apart from that one, and all files but that of the memory. -/
structure Workspace.Spared (d : Memory.Direction) (w w' : Workspace σ) : Prop where
  alike : ∀ d' : Memory.Direction, d'.Apart d → w.Alike d' w'
  files : w'.memoryFiles = w.memoryFiles
  kept : w.volume.Kept w.memoryFiles w'.volume

theorem remember_spared {d : Memory.Direction} {notes : Fields} {answers : List (Text × Text)}
    (h : remember w now d notes answers = (.ok (), w₁)) : w.Spared d w₁ := by
  unfold remember at h
  cases hm : w.memory with
  | none =>
    simp only [hm] at h
    cases h
    exact ⟨fun _ _ => .without hm hm, rfl, .refl _ _⟩
  | some m =>
    cases hstore : m.storeAll now w.volume d notes (answers.map fun p => (p.1, .str p.2)) with
    | mk outcome rest =>
      obtain ⟨m₁, v₁⟩ := rest
      simp only [hm, hstore] at h
      cases h
      constructor
      case alike =>
        intro d' hapart
        exact .both hm rfl (Memory.storeAll_alike hapart hstore)
      case files =>
        simp [Workspace.memoryFiles, hm, Memory.file_eq (Memory.storeAll_ok hstore).folder]
      case kept =>
        rw [Workspace.memoryFiles, hm]
        exact Memory.storeAll_kept hstore

theorem translate_spared (h : (translate t g now r w).result = .ok result) :
    w.Spared r.direction (translate t g now r w).workspace := by
  obtain ⟨o, w₁, calls, answers, hopen, hfinished⟩ := translate_finished h
  obtain ⟨⟨hvolume, -⟩, halike⟩ := openRun_kept hopen
  have hbefore : ∀ d, w.Alike d { w₁ with
      translator := (translate t g now r w).workspace.translator } :=
    fun d => (halike d).trans (.of_memory_eq d rfl)
  have hfiles := (hbefore r.direction).memoryFiles_eq
  have hspared := remember_spared hfinished.stored
  rw [direction_of_openRun hopen] at hspared
  constructor
  case alike =>
    intro d hapart
    exact (hbefore d).trans (hspared.alike d hapart)
  case files => exact hspared.files.trans hfiles
  case kept =>
    rw [← hfiles, ← hvolume]
    exact hspared.kept

/-! ### A run that goes like another -/

/-- A larger volume has the file of the memory, and the medium refuses nothing. -/
structure Workspace.Savable (w : Workspace σ) (larger : Volume) : Prop where
  free : w.volume.FreeWithin larger
  filed : ∀ p ∈ w.memoryFiles, (larger.content? p).isSome

theorem Workspace.Savable.content? {larger : Volume} {m : Memory} (h : w.Savable larger)
    (hm : w.memory = some m) : (larger.content? m.file).isSome := by
  apply h.filed
  simp [memoryFiles, hm]

theorem remember_alike {d : Memory.Direction} {notes : Fields} {answers : List (Text × Text)}
    {larger : Volume} (halike : w.Alike d w')
    (h : remember w now d notes answers = (.ok (), w₁)) (hsavable : w'.Savable larger)
    (now' : Nat) :
    ∃ w₁', remember w' now' d notes answers = (.ok (), w₁') ∧ w₁'.Savable larger := by
  unfold remember at h ⊢
  cases halike with
  | without _ hw' =>
    simp only [hw']
    exact ⟨w', rfl, hsavable⟩
  | @both m m' hm hm' halike =>
    cases hstore : m.storeAll now w.volume d notes (answers.map fun p => (p.1, .str p.2)) with
    | mk outcome rest =>
      obtain ⟨m₁, v₁⟩ := rest
      simp only [hm, hstore] at h
      cases h
      have htakes : m'.Takes answers :=
        (Memory.takes_of_storeAll hstore).of_alike halike.counters
      obtain ⟨m₁', v₁', hstore', hfree'⟩ :=
        Memory.exists_storeAll htakes hsavable.free (hsavable.content? hm') now' d notes
      have hfile := Memory.file_eq (Memory.storeAll_ok hstore').folder
      simp only [hm', hstore']
      refine ⟨_, rfl, hfree', fun p hp => hsavable.filed p ?_⟩
      simpa [Workspace.memoryFiles, hm', hfile] using hp

theorem Workspace.Savable.of_alike {larger : Volume} {d : Memory.Direction} {w₂ : Workspace τ}
    (h : w'.Savable larger) (halike : w'.Alike d w₂) (hvolume : w₂.volume = w'.volume) :
    w₂.Savable larger := by
  refine ⟨?_, ?_⟩
  · rw [hvolume]
    exact h.free
  · rw [halike.memoryFiles_eq]
    exact h.filed

/-- What has been collected from one run is collected from another one that opens in the same way,
and it can be stored where the memory can be saved. -/
theorem send_alike {larger : Volume} {calls : List Call} {answers : Table Text Text} {e : Ending σ}
    (hf : t.Computes f) (hf' : t'.Computes f) (halike : w.Alike o.direction w')
    (h : o.Finished t now w calls answers e) (hsavable : w'.Savable larger) (now' : Nat) :
    ∃ result', (o.send t' now' w').result = .ok result' ∧
      (o.send t' now' w').workspace.Savable larger := by
  have hlength : (chunksOf o.checked.chunkSize o.prepared.sent).length = calls.length := by
    rw [← h.chunks, List.length_map]
  have hpaced := h.paced
  rw [← hlength] at hpaced
  have hprepare := hf'.prepare w'.translator
  unfold Opening.send
  cases hprepared : t'.prepare w'.translator with
  | mk outcome s =>
    rw [hprepared] at hprepare
    obtain rfl : outcome = .ok () := hprepare
    obtain ⟨trace, s', hrun⟩ := exists_runFrom hpaced t' 0 0 s
    obtain ⟨-, calls', hanswers, hchunks, hresults⟩ := runFrom_ok hrun
    -- The strings sent tell the calls, so the same is collected, whatever the two runs did before.
    have hcalls : calls' = calls := by
      rw [h.calls_eq hf, Opening.callsBy, ← hchunks]
      exact hf'.calls_eq hanswers
    rw [hcalls] at hresults
    have hafter : w.Alike o.direction { w' with translator := s' } :=
      halike.trans (.of_memory_eq o.direction rfl)
    have hself : Workspace.Alike o.direction { w with translator := e.workspace.translator } w :=
      .of_memory_eq o.direction rfl
    have hbefore := hself.trans hafter
    obtain ⟨w₁, hremember, hsavable₁⟩ := remember_alike hbefore h.stored
      (hsavable.of_alike (.of_memory_eq o.direction rfl) rfl) now'
    have hrestored : Glossary.restoreAll o.prepared.reservations
        (Collection.ofResults o.sourceOf trace.results).answers = .ok answers := by
      rw [hresults]
      exact h.restored
    rw [Opening.collected, ← hresults] at hremember
    simp only [run, hrun, Opening.close, hrestored, hremember]
    exact ⟨_, rfl, hsavable₁⟩

/-- If one run has a result, then so has the other, whose translator computes the same and whose
memory is alike and can be saved. -/
theorem translate_alike {larger : Volume} (hf : t.Computes f) (hf' : t'.Computes f)
    (halike : w.Alike r.direction w') (h : (translate t g now r w).result = .ok result)
    (hsavable : w'.Savable larger) (now' : Nat) :
    ∃ result', (translate t' g now' r w').result = .ok result' ∧
      (translate t' g now' r w').workspace.Savable larger := by
  obtain ⟨o, w₁, calls, answers, hopen, hfinished⟩ := translate_finished h
  obtain ⟨w₁', hopen'⟩ := openRun_alike halike hopen now'
  obtain ⟨-, hfirst⟩ := openRun_kept hopen
  obtain ⟨⟨hvolume, -⟩, hsecond⟩ := openRun_kept hopen'
  have hsavable₁ := hsavable.of_alike (hsecond r.direction) hvolume
  have halike₁ := ((hfirst r.direction).symm.trans halike).trans (hsecond r.direction)
  rw [← direction_of_openRun hopen] at halike₁
  unfold translate
  simp only [hopen']
  split
  · exact ⟨_, rfl, hsavable₁⟩
  · exact send_alike hf hf' halike₁ hfinished hsavable₁ now'

end Localize.Batch
