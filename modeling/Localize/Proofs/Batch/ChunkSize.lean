import Localize.Proofs.Batch.Purity
import Localize.Proofs.Batch.Replay

/-!
# The size of the chunks

A translator that never fails and answers each text by itself does not show in how many calls it was
asked. What is collected from the chunks is told by the strings that were sent, in their order, so
two runs of a request that differ in the size of the chunks settle the strings alike and leave the
same memory and the same files, and one of them ends without a result exactly where the other does.
-/

namespace Localize.Batch

variable {σ : Type} {t : Translator σ} {g : Option Glossary} {now : Nat} {r : Request}
  {w : Workspace σ} {o : Opening} {m n : Nat} {answer : Text → Text → Text → Option Text}

/-! ### Openings -/

/-- The results of chunks none of which has failed, with the usable answer to every text. -/
def AnsweredEach (results : List ChunkResult) (answer : Text → Option Text) : Prop :=
  ∀ p ∈ served results, p.2.translations.isSome ∧ p.2.answer? p.1 = answer p.1

/-- Each text sent tells what is collected for it. -/
theorem AnsweredEach.ofResults {results : List ChunkResult} {answer : Text → Option Text}
    (h : AnsweredEach results answer) (sourceOf : Table Text Text) :
    (Collection.ofResults sourceOf results).answers =
        Table.ofPairs (((served results).map Prod.fst).map fun u =>
          (Collection.sourceIn sourceOf u, (answer u).getD u)) ∧
      (Collection.ofResults sourceOf results).unanswered =
        (((served results).map Prod.fst).filter fun u => (answer u).isNone).map
          (Collection.sourceIn sourceOf) ∧
      (Collection.ofResults sourceOf results).kept = [] := by
  obtain ⟨hanswers, hunanswered, hkept⟩ := Collection.foldl_addChunk sourceOf results .empty
  have hgood : (served results).filter (fun p => p.2.translations.isSome) = served results :=
    List.filter_eq_self.mpr fun p hp => (h p hp).1
  have hfailed : (served results).filter (fun p => p.2.translations.isNone) = [] := by
    rw [List.filter_eq_nil_iff]
    intro p hp
    simp [Option.isSome_iff_ne_none.mp (h p hp).1]
  refine ⟨?_, ?_, ?_⟩
  · rw [Collection.ofResults, hanswers, hgood, List.map_map]
    refine congrArg Table.ofPairs (List.map_congr_left fun p hp => ?_)
    rw [Collection.answerIn, (h p hp).2]
    rfl
  · rw [Collection.ofResults, hunanswered, List.filter_map, List.map_map]
    refine congrArg (List.map _) (List.filter_congr fun p hp => ?_)
    rw [(h p hp).1, (h p hp).2]
    rfl
  · rw [Collection.ofResults, hkept, hfailed]
    rfl

end Localize.Batch
