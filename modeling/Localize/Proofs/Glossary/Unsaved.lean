import Localize.Glossary.Protection
import Localize.Proofs.Glossary.Acts
import Localize.Proofs.Project.Importing

/-!
# Changes that are not saved

A change is made to the terms first and then written. Nothing takes it back when the write fails:
the glossary is then what it would have been with a write that succeeds, whereas the files are as
they were. So terms and file differ until the file is written again; then it has the change.
-/

namespace Localize.Glossary

variable {g g' : Glossary} {v v' : Volume} {now : Nat} {act : Act}

/-- A save that fails leaves the glossary and all files as they are. -/
theorem saved_error {e : Error} (h : g.saved now v () = (.error (.error e), g', v')) :
    g' = g ∧ v.SameFiles v' ∧ ∃ path, g.path = some path := by
  unfold saved save at h
  cases hpath : g.path with
  | none =>
    rw [hpath] at h
    cases h
  | some path =>
    simp only [hpath] at h
    rcases v.writeJson_cases path (g.document now) with
      ⟨w, hwrite, -⟩ | ⟨e', w, hwrite, -, hfiles⟩
    · simp only [hwrite] at h
      cases h
    · simp only [hwrite] at h
      cases h
      exact ⟨rfl, hfiles, path, rfl⟩

/-- A save that succeeds leaves the glossary in its file. -/
theorem CanSave.content? {path : Path} (h : g.CanSave v) (hpath : g.path = some path) (now : Nat) :
    ∃ v', g.saved now v () = (.ok (), g, v') ∧
      v'.content? path = some (.text (g.document now).document) := by
  obtain ⟨v', hwrite, -⟩ := (h path hpath).writeJson (g.document now)
  exact ⟨v', by simp only [Glossary.saved, save, hpath, hwrite],
    Volume.content?_of_writeJson hwrite⟩

/-- An act that cannot be saved is done all the same. No file changes, the terms are those that the
act makes, and the whole glossary is the one that the act leaves wherever it can be saved; so each
look-up, count and search answers as behind an act that is saved. The next save that succeeds brings
the file up to these terms. -/
theorem unsaved_act_done {e : Error} (hrun : act.run now (g, v) = (.error (.error e), g', v'))
    (hcategory : e.category = .persistence) :
    v.SameFiles v' ∧ act.Makes now g.terms g'.terms ∧
    (∀ w, g.CanSave w → ∃ w', act.run now (g, w) = (.ok (), g', w')) ∧
    ∃ path, g'.path = some path ∧ ∀ later w, g'.CanSave w →
      ∃ w', Act.save.run later (g', w) = (.ok (), g', w') ∧
        w'.content? path = some (.text (g'.document later).document) := by
  cases act.comes now g with
  | nothing r hr _ hnothing =>
    rw [hnothing] at hrun
    cases hrun
    rw [hr e rfl] at hcategory
    cases hcategory
  | saving made hmakes hpath _ _ hsaving =>
    rw [hsaving] at hrun
    obtain ⟨rfl, hfiles, path, hfile⟩ := saved_error hrun
    refine ⟨hfiles, hmakes, fun w hcan => ?_, path, hfile, fun later w hcan => ?_⟩
    · have hcan' : g'.CanSave w := fun path' hpath' => hcan path' (hpath ▸ hpath')
      obtain ⟨w', hsaved, -⟩ := hcan'.saved now ()
      exact ⟨w', by rw [hsaving, hsaved]⟩
    · exact hcan.content? hfile later

/-- A folder stands where the file of the glossary is to be. -/
def blockedState : State :=
  (.empty (some ⟨false, ["glossary.json".toList]⟩),
    .ofEntries [("glossary.json".toList, .folder [])])

def acmeDraft : Draft := { term := Json.lit "Acme", doNotTranslate := .bool true }

/-- A term that could not be saved is looked up, counted, found in texts and taken for a whole
string, and none of this was so before. -/
theorem unsaved_term_seen :
    ∃ e g' v', (Act.add acmeDraft).run 1 blockedState = (.error (.error e), g', v') ∧
      e.category = .persistence ∧
      (blockedState.1.terms.length = 0 ∧ g'.terms.length = 1) ∧
      ((blockedState.1.get? true (Json.lit "Acme")).toOption = some none ∧
        (g'.get? true (Json.lit "Acme")).toOption ≠ some none) ∧
      ((blockedState.1.find "by Acme".toList).toOption.map List.length = some 0 ∧
        (g'.find "by Acme".toList).toOption.map List.length = some 1) ∧
      ((blockedState.1.settle "es".toList ["Acme".toList]).pending = ["Acme".toList] ∧
        (g'.settle "es".toList ["Acme".toList]).pending = []) := by
  refine ⟨.writeFailed ⟨false, ["glossary.json".toList]⟩, _, _, rfl, rfl, ?_⟩
  decide +kernel

/-- The term is there behind the failed save, with the file as it was. -/
theorem unsaved_act_done_blocked :
    ∃ g' v', (Act.add acmeDraft).run 1 blockedState =
        (.error (.error (.writeFailed ⟨false, ["glossary.json".toList]⟩)), g', v') ∧
      blockedState.2.SameFiles v' ∧
      (Act.add acmeDraft).Makes 1 blockedState.1.terms g'.terms ∧ g'.terms.length = 1 := by
  have hrun : ∃ g' v', (Act.add acmeDraft).run 1 blockedState =
      (.error (.error (.writeFailed ⟨false, ["glossary.json".toList]⟩)), g', v') := ⟨_, _, rfl⟩
  have hlength : ((Act.add acmeDraft).run 1 blockedState).2.1.terms.length = 1 := by
    decide +kernel
  obtain ⟨g', v', hrun⟩ := hrun
  obtain ⟨hfiles, hmakes, -⟩ := unsaved_act_done hrun rfl
  rw [hrun] at hlength
  exact ⟨g', v', hrun, hfiles, hmakes, hlength⟩

end Localize.Glossary
