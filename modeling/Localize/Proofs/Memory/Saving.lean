import Localize.Memory.Operations
import Localize.Proofs.Volume.Writing

/-!
# Saving

A memory writes one file, its first one when it starts without any. Where that file has been before,
or is in a larger volume, saving fails only because the medium refuses the write.
-/

namespace Localize.Memory

variable {m m' : Memory} {v v' larger : Volume} {now : Nat}

theorem isName_memory : Path.IsName "memory.json".toList :=
  ⟨by decide, by decide, by decide, by decide⟩

theorem file_eq (h : m'.folder = m.folder) : m'.file = m.file := by
  rw [file, file, h]

theorem save_written {result : Except Failure Unit} (h : m.save now v = (result, v')) :
    v.Written m.folder "memory.json".toList (m.document now).document result v' := by
  unfold save at h
  cases hwrite : v.writeJson m.file (m.document now) with
  | mk outcome v₁ =>
    have hwritten := Volume.written_writeJson isName_memory hwrite
    rw [hwrite] at h
    cases outcome with
    | ok u =>
      cases h
      exact hwritten.of_ok_iff (by simp)
    | error e =>
      cases h
      exact hwritten.of_ok_iff (by simp)

/-- Where a larger volume has the file, only the medium can keep it from being written. -/
theorem save_eq_ok (h : v.Within larger) (hfile : (larger.content? m.file).isSome)
    (hmedium : v.refusals.headD none = none) (now : Nat) : (m.save now v).1 = .ok () := by
  have hok : (v.writeJson m.file (m.document now)).1 = .ok () :=
    (Volume.writeJson_within isName_memory h hfile _).2 hmedium
  cases hwrite : v.writeJson m.file (m.document now) with
  | mk result v' =>
    rw [hwrite] at hok
    rw [save, hwrite, show result = .ok () from hok]

theorem exists_save (h : v.FreeWithin larger) (hfile : (larger.content? m.file).isSome)
    (now : Nat) : ∃ v', m.save now v = (.ok (), v') ∧ v'.FreeWithin larger := by
  obtain ⟨v', hwrite, hfree⟩ := h.writeJson isName_memory hfile (m.document now)
  have hsave : v.writeJson m.file (m.document now) = (.ok (), v') := hwrite
  refine ⟨v', ?_, hfree⟩
  rw [save, hsave]

/-- The medium refuses a write that is to come. -/
def Refuses (v : Volume) : Prop := ∃ refusal ∈ v.refusals, refusal ≠ none

theorem refuses_of_tail (h : v'.refusals = v.refusals.tail) (hrefuses : Refuses v') :
    Refuses v := by
  obtain ⟨refusal, hmem, hne⟩ := hrefuses
  rw [h] at hmem
  exact ⟨refusal, List.mem_of_mem_tail hmem, hne⟩

/-- Saving over a file that is there fails only where the medium refuses it. -/
theorem saved_filed {α : Type} (h : (v.content? m.file).isSome) (now : Nat) (value : α) :
    ∃ r v', m.saved now v value = (r, m, v') ∧ (v'.content? m.file).isSome ∧
      v'.refusals = v.refusals.tail ∧
      (r = .ok value ∨ Refuses v ∧ ∃ failure, r = .error failure) := by
  cases hsave : m.save now v with
  | mk outcome v₁ =>
    have hwritten := save_written hsave
    have hfiled : (v₁.content? m.file).isSome := hwritten.within.content? h
    cases outcome with
    | ok done =>
      refine ⟨.ok value, v₁, ?_, hfiled, hwritten.refusals, .inl rfl⟩
      rw [saved, hsave]
    | error failure =>
      refine ⟨.error failure, v₁, ?_, hfiled, hwritten.refusals, .inr ⟨?_, failure, rfl⟩⟩
      · rw [saved, hsave]
      · have hhead : v.refusals.headD none ≠ none := by
          intro hnone
          have hok := save_eq_ok (Entries.Within.refl v.entries) h hnone now
          rw [hsave] at hok
          cases hok
        cases hrefusals : v.refusals with
        | nil => simp [hrefusals] at hhead
        | cons refusal rest =>
          rw [hrefusals, List.headD_cons] at hhead
          exact ⟨refusal, by rw [hrefusals]; exact List.mem_cons_self, hhead⟩

/-- A memory that starts without a file is empty and has been written. -/
theorem start_fresh {m m₀ : Memory} {v₀ : Volume} (hfile : v.content? m.file = none)
    (hstart : m.start now v = (.ok (), m₀, v₀)) :
    m₀ = m.setHeader "created" (.nat now) ∧ ∃ v₁, m₀.save now v₁ = (.ok (), v₀) := by
  unfold start at hstart
  cases hmade : v.makeFolder? m.folder with
  | none =>
    simp only [hmade] at hstart
    cases hstart
  | some v₁ =>
    simp only [hmade] at hstart
    have hfile₁ : v₁.content? m.file = none := by rw [Volume.content?_makeFolder? hmade, hfile]
    unfold load Volume.readJson at hstart
    cases hplace : v₁.place m.file with
    | file content =>
      rw [Volume.place_eq_file_iff, hfile₁] at hplace
      cases hplace
    | throughFile | folder inner =>
      simp only [hplace] at hstart
      cases hstart
    | missing =>
      simp only [hplace] at hstart
      cases hsave : (m.setHeader "created" (.nat now)).save now v₁ with
      | mk outcome v₂ =>
        rw [hsave] at hstart
        cases hstart
        exact ⟨rfl, v₁, hsave⟩

end Localize.Memory
