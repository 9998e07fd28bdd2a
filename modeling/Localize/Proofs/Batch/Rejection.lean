import Localize.Batch.Remote
import Localize.Proofs.Batch.Ending
import Localize.Proofs.Volume.Atomic

/-!
# Requests that are turned down

Errors of three classes tell that what was asked for is not right. A request is turned down by its
checks alone and then nothing has been touched. What ends a run behind the checks is of another
kind: a value that has not the shape for its use, a write that fails, or a service that cannot be
set up.
-/

namespace Localize

/-- Whether an error tells that what was asked for is not right. -/
def Error.isRejection (e : Error) : Bool :=
  match e.category with
  | .invalidInput | .unsupportedLanguage | .missingCredential => true
  | .general | .translation | .persistence => false

/-- Whether an operation was ended because what was asked for is not right. -/
def Failure.isRejection : Failure → Bool
  | .error e => e.isRejection
  | .fault _ => false

theorem Error.isRejection_of_persistence {e : Error} (h : e.category = .persistence) :
    e.isRejection = false := by
  rw [isRejection, h]

variable {failure : Failure}

/-! ### Set-up -/

/-- Where a key is given, a service that cannot be set up lacks settings. -/
theorem Service.isRejection_ofSettings {s : Settings} {env : Environment}
    {key model provider : Json} {ownConnection : Bool} (hkey : key.isSomething = true)
    (h : ofSettings s env key model provider ownConnection = .error failure) :
    failure.isRejection = false := by
  have hgiven : ∀ name, s.key? env key name = .ok (some key) := fun name => by
    rw [Settings.key?, if_pos hkey]
  unfold ofSettings at h
  cases hcheck : check s (provider.orElse s.provider) with
  | ok name =>
    simp only [hcheck, hgiven] at h
    cases h
  | error failure' =>
    simp only [hcheck] at h
    cases h
    unfold check at hcheck
    split at hcheck
    · split at hcheck
      · cases hcheck
        rfl
      · split at hcheck
        · cases hcheck
        · cases hcheck
          rfl
    · split at hcheck
      · cases hcheck
        rfl
      · cases hcheck
        rfl

namespace Batch

variable {σ : Type}

/-- A translator whose preparation does not turn a request down. -/
def Translator.Accepting (t : Translator σ) : Prop :=
  ∀ s failure s', t.prepare s = (.error failure, s') → failure.isRejection = false

namespace Remote

variable {ε : Type} {post : Provider.Endpoint ε}

theorem accepting_standing : (standing post).Accepting := by
  intro r failure r' hprepare
  cases congrArg Prod.fst hprepare

theorem accepting_fresh {setUp : Except Failure Service}
    (h : ∀ failure, setUp = .error failure → failure.isRejection = false) :
    (fresh post setUp).Accepting := by
  intro r failure r' hprepare
  cases setUp with
  | ok s => cases hprepare
  | error failure' =>
    cases hprepare
    exact h failure rfl

end Remote

end Batch

/-! ### Storing -/

namespace Memory

variable {m : Memory} {now : Nat} {v : Volume} {d : Direction} {notes : Fields}

theorem isRejection_save (h : (m.save now v).1 = .error failure) : failure.isRejection = false := by
  unfold save at h
  rcases Volume.writeJson_cases v m.file (m.document now) with
    ⟨v', hwrite, -⟩ | ⟨e, v', hwrite, hcategory, -⟩
  · simp only [hwrite] at h
    cases h
  · simp only [hwrite] at h
    cases h
    exact Error.isRejection_of_persistence hcategory

theorem isRejection_store {source u : Text} {verified : Bool}
    (hsource : Text.allBlank source = false)
    (h : (m.store now v d (.str source) (.str u) notes verified).1 = .error failure) :
    failure.isRejection = false := by
  unfold store at h
  simp only [hsource, Bool.false_eq_true, if_false] at h
  split at h
  · cases h
    rfl
  · split at h
    · split at h
      · cases h
      · next hsave =>
        cases h
        exact isRejection_save (by rw [hsave])
    · cases h

theorem isRejection_storeAll {pairs : List (Text × Text)}
    (hsources : ∀ p ∈ pairs, Text.allBlank p.1 = false)
    (h : (m.storeAll now v d notes (pairs.map fun p => (p.1, .str p.2))).1 = .error failure) :
    failure.isRejection = false := by
  induction pairs generalizing m v with
  | nil => cases h
  | cons p pairs ih =>
    obtain ⟨hsource, hsources⟩ := List.forall_mem_cons.mp hsources
    rw [List.map_cons, storeAll] at h
    split at h
    · next hstore =>
      cases h
      exact isRejection_store hsource (by rw [hstore])
    · exact ih hsources h

end Memory

/-! ### Runs -/

namespace Batch

variable {σ : Type} {t : Translator σ} {g : Option Glossary} {now : Nat} {r : Request}
  {w : Workspace σ} {o : Opening} {known whole : Text → Option Json}

theorem isRejection_remember {d : Memory.Direction} {notes : Fields} {answers : List (Text × Text)}
    (hsources : ∀ p ∈ answers, Text.allBlank p.1 = false)
    (h : (remember w now d notes answers).1 = .error failure) : failure.isRejection = false := by
  unfold remember at h
  split at h
  · cases h
  · exact Memory.isRejection_storeAll hsources h

namespace Opening

/-- Only texts of the request are stored, and none of them is blank. -/
theorem isRejection_close {trace : Trace} {chunks : Nat} (hd : o.Divided known whole)
    (hcomplete : (served trace.results).map Prod.fst = o.prepared.sent)
    (h : (o.close now trace chunks w).result = .error failure) : failure.isRejection = false := by
  unfold close at h
  cases hrestored : Glossary.restoreAll o.prepared.reservations
      (Collection.ofResults o.sourceOf trace.results).answers with
  | error fault =>
    simp only [hrestored] at h
    cases h
    rfl
  | ok answers =>
    simp only [hrestored] at h
    have hended : o.Ended trace.results answers _ := ⟨hcomplete, hrestored, rfl⟩
    have hsources : ∀ p ∈ (Collection.ofResults o.sourceOf trace.results).answered answers,
        Text.allBlank p.1 = false := by
      intro p hp
      have hanswer : p.1 ∈ answers.keys := List.mem_map_of_mem (List.mem_filter.mp hp).1
      have hpending := hended.mem_pending_of_mem_answers hd hanswer
      exact (mem_unique.mp (hd.mem_pending.mp hpending).1).2
    split at h
    · next hremember =>
      cases h
      exact isRejection_remember hsources (by rw [hremember])
    · cases h

theorem isRejection_send (ht : t.Accepting) (hd : o.Divided known whole)
    (h : (o.send t now w).result = .error failure) : failure.isRejection = false := by
  unfold send at h
  split at h
  · next hprepare =>
    cases h
    exact ht _ _ _ hprepare
  · simp only at h
    split at h
    · cases h
      rfl
    · next hrun =>
      obtain ⟨-, calls, -, hchunks, hresults⟩ := runFrom_ok hrun
      refine isRejection_close hd ?_ h
      rw [hresults, map_fst_served, texts_resultsFrom, hchunks, flatten_chunksOf]

end Opening

/-- A request is turned down by its checks, or not at all. -/
theorem check_of_rejection (ht : t.Accepting) (h : (translate t g now r w).result = .error failure)
    (hrejection : failure.isRejection = true) : r.check = .error failure := by
  unfold translate at h
  cases hopen : openRun g now r w with
  | mk outcome w₁ =>
    cases outcome with
    | ok o =>
      simp only [hopen] at h
      obtain ⟨-, -, -, hd, -⟩ := openRun_ok hopen
      split at h
      · cases h
      · rw [Opening.isRejection_send ht hd h] at hrejection
        cases hrejection
    | error failure' =>
      simp only [hopen] at h
      cases h
      unfold openRun at hopen
      split at hopen
      · next hcheck =>
        cases hopen
        exact hcheck
      · simp only at hopen
        split at hopen
        · cases hopen
          cases hrejection
        · split at hopen
          · cases hopen
            cases hrejection
          · cases hopen

/-- A request that the checks turn down touches nothing. -/
theorem translate_of_check (h : r.check = .error failure) :
    translate t g now r w = ⟨.error failure, .empty, w⟩ := by
  simp only [translate, openRun, h]

end Batch

end Localize
