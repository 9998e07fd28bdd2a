import Localize.Batch.Translation
import Localize.Proofs.Batch.Request
import Localize.Proofs.Glossary.Preparation
import Localize.Proofs.Memory.Recall

/-!
# The opening of a run

Before anything is sent every string has been looked for in the memory and then among the whole
terms. The strings left keep their order. A string is settled or left, and never both.
-/

namespace Localize.Batch

open Placeholder

variable {σ : Type}

/-- What the memory of a workspace, if it has one, recalls of a text. -/
def Workspace.known? (w : Workspace σ) (d : Memory.Direction) (t : Text) : Option Json :=
  w.memory.bind fun m => m.known? d t

theorem Workspace.known?_eq {w : Workspace σ} {m : Memory} (hm : w.memory = some m)
    (d : Memory.Direction) : w.known? d = m.known? d := by
  funext t
  rw [Workspace.known?, hm]
  rfl

/-- The final form of a text that is exactly a term of the glossary, if there is one. -/
def whole? (g : Option Glossary) (language t : Text) : Option Json :=
  g.bind fun g => g.wholeTerm? language t

/-- How an opening divides the strings, given what is recalled and what is a whole term. -/
structure Opening.Divided (o : Opening) (known whole : Text → Option Json) : Prop where
  missing : o.recalled.missing =
    (unique o.checked.strings).filter fun t => (known t).isNone
  found : ∀ t, Table.find? o.recalled.found t =
    if t ∈ unique o.checked.strings then known t else none
  pending : o.prepared.pending = o.recalled.missing.filter fun t => (whole t).isNone
  finals : ∀ t, Table.find? o.prepared.finals t =
    if t ∈ o.recalled.missing then whole t else none
  distinct : o.prepared.finals.keys.Nodup
  length : o.prepared.sent.length = o.prepared.pending.length

variable {g : Option Glossary} {language : Text} {strings : List Text}

/-! ### Looking up -/

theorem lookUp_ok {w w' : Workspace σ} {now : Nat} {d : Memory.Direction} {l : Memory.Lookups}
    (h : lookUp w now d strings = (.ok l, w')) :
    l = Memory.recalls (w.known? d) strings ∧
      (w'.volume = w.volume ∧ w'.translator = w.translator) ∧
      (w.memory = none → w'.memory = none) ∧
      ∀ m, w.memory = some m → ∃ m', w'.memory = some m' ∧ m.Used m' ∧
        ∀ t ∈ strings, m.Serves d t := by
  unfold lookUp at h
  unfold Workspace.known?
  cases hm : w.memory with
  | none =>
    simp only [hm] at h
    cases h
    refine ⟨?_, ⟨rfl, rfl⟩, fun _ => hm, fun m hm' => absurd hm'.symm (Option.some_ne_none m)⟩
    simp [Memory.recalls, Table.ofPairs, Table.merge]
  | some m =>
    cases hall : m.lookupAll now d strings with
    | mk outcome m' =>
      simp only [hm, hall] at h
      cases h
      obtain ⟨hl, hused, hserves⟩ := Memory.lookupAll_ok hall
      refine ⟨hl, ⟨rfl, rfl⟩, fun hnone => absurd hnone (Option.some_ne_none m), fun m₁ hm₁ => ?_⟩
      cases hm₁
      exact ⟨m', rfl, hused, hserves⟩

/-! ### Preparing -/

theorem prepareFor_some (g : Glossary) (language : Text) (strings : List Text) :
    prepareFor (some g) language strings = g.prepare language strings := by
  cases strings with
  | nil => rfl
  | cons t strings => rfl

theorem prepareFor_ok {p : Glossary.Preparation}
    (h : prepareFor g language strings = .ok p) :
    p.pending = strings.filter (fun t => (whole? g language t).isNone) ∧
      (∀ t, Table.find? p.finals t = if t ∈ strings then whole? g language t else none) ∧
      p.finals.keys.Nodup ∧ p.sent.length = p.pending.length := by
  cases g with
  | none =>
    cases h
    exact ⟨by simp [whole?], by simp [whole?], List.nodup_nil, rfl⟩
  | some g =>
    rw [prepareFor_some] at h
    obtain ⟨-, rfl⟩ := Glossary.prepare_ok_iff.mp h
    refine ⟨?_, Glossary.find?_settle_finals g language strings, ?_,
      Glossary.length_sentFrom g language 0 _⟩
    · rw [Glossary.settle_eq]
      rfl
    · rw [Glossary.settle_eq]
      exact Table.nodup_keys_ofPairs _

/-- Strings without the mark that differ are sent as texts that differ. -/
theorem nodup_sent_of_prepareFor {p : Glossary.Preparation}
    (h : prepareFor g language strings = .ok p) (hdistinct : strings.Nodup)
    (hmark : ∀ t ∈ strings, ¬ mark <:+: t) : p.sent.Nodup := by
  cases g with
  | none =>
    cases h
    exact hdistinct
  | some g =>
    rw [prepareFor_some] at h
    obtain ⟨-, rfl⟩ := Glossary.prepare_ok_iff.mp h
    have hsub := Glossary.settle_pending_sublist g language strings
    exact Glossary.nodup_sentFrom (hsub.nodup hdistinct) (fun t ht => hmark t (hsub.subset ht)) 0

/-- A text without the mark is sent for itself. -/
theorem mem_pending_of_mem_sent {p : Glossary.Preparation}
    (h : prepareFor g language strings = .ok p) {u : Text} (hu : u ∈ p.sent)
    (hmark : ¬ mark <:+: u) : u ∈ p.pending := by
  cases g with
  | none =>
    cases h
    exact hu
  | some g =>
    rw [prepareFor_some] at h
    obtain ⟨-, rfl⟩ := Glossary.prepare_ok_iff.mp h
    exact Glossary.mem_of_mem_sentFrom hu hmark

/-- Some of the strings that can be prepared can be prepared by themselves. -/
theorem exists_prepareFor {p : Glossary.Preparation}
    (h : prepareFor g language strings = .ok p) {some' : List Text} (hsub : some' ⊆ strings) :
    ∃ p', prepareFor g language some' = .ok p' := by
  cases g with
  | none => exact ⟨_, rfl⟩
  | some g =>
    rw [prepareFor_some] at h ⊢
    obtain ⟨hall, -⟩ := Glossary.prepare_ok_iff.mp h
    refine ⟨_, Glossary.prepare_ok_iff.mpr ⟨fun t ht => hall t ?_, rfl⟩⟩
    obtain ⟨hmem, hterm⟩ := Glossary.mem_settle_pending.mp ht
    exact Glossary.mem_settle_pending.mpr ⟨hsub hmem, hterm⟩

/-! ### Opening -/

variable {w w' : Workspace σ} {now : Nat} {r : Request} {o : Opening}

/-- A run opens when the request passes the checks, its texts have been looked up, and those that
are not recalled have been prepared. -/
theorem openRun_ok_iff : openRun g now r w = (.ok o, w') ↔
    r.check = .ok o.checked ∧ o.request = r ∧ o.total = (unique o.checked.strings).length ∧
      lookUp w now o.direction (unique o.checked.strings) = (.ok o.recalled, w') ∧
      prepareFor g o.checked.language o.recalled.missing = .ok o.prepared := by
  unfold openRun
  constructor
  · intro h
    cases hcheck : r.check with
    | error failure =>
      simp only [hcheck] at h
      cases h
    | ok checked =>
      simp only [hcheck] at h
      cases hlook : lookUp w now ⟨r.options.sourceLanguage, .str checked.language⟩
          (unique checked.strings) with
      | mk outcome w₁ =>
        cases outcome with
        | error fault =>
          simp only [hlook] at h
          cases h
        | ok recalled =>
          simp only [hlook] at h
          cases hprep : prepareFor g checked.language recalled.missing with
          | error fault =>
            simp only [hprep] at h
            cases h
          | ok prepared =>
            simp only [hprep] at h
            cases h
            exact ⟨rfl, rfl, rfl, hlook, hprep⟩
  · rintro ⟨hcheck, rfl, htotal, hlook, hprep⟩
    rw [Opening.direction] at hlook
    simp only [hcheck, hlook, hprep, ← htotal]

theorem openRun_ok (h : openRun g now r w = (.ok o, w')) :
    r.check = .ok o.checked ∧ o.request = r ∧
      prepareFor g o.checked.language o.recalled.missing = .ok o.prepared ∧
      o.Divided (w.known? o.direction) (whole? g o.checked.language) ∧
      (w.memory = none → w'.memory = none) ∧
      ∀ m, w.memory = some m → ∃ m', w'.memory = some m' ∧ m.Used m' ∧
        ∀ t ∈ unique o.checked.strings, m'.Ready o.direction t := by
  obtain ⟨hcheck, hrequest, -, hlook, hprep⟩ := openRun_ok_iff.mp h
  obtain ⟨hrecalled, -, hnone, hsome⟩ := lookUp_ok hlook
  obtain ⟨hpending, hfinals, hdistinct, hlength⟩ := prepareFor_ok hprep
  have hfound : ∀ t, Table.find? o.recalled.found t =
      if t ∈ unique o.checked.strings then w.known? o.direction t else none := by
    intro t
    rw [hrecalled]
    exact Table.find?_ofPairs_filterMap _ _ t
  have hmissing : o.recalled.missing =
      (unique o.checked.strings).filter fun t => (w.known? o.direction t).isNone := by
    rw [hrecalled]
    rfl
  refine ⟨hcheck, hrequest, hprep, ⟨hmissing, hfound, hpending, hfinals, hdistinct, hlength⟩,
    hnone, fun m hm => ?_⟩
  obtain ⟨m', hm', hused, hserves⟩ := hsome m hm
  exact ⟨m', hm', hused, fun t ht => (hused.alike _).ready (hserves t ht).toReady⟩

/-- Each string is settled once. -/
theorem nodup_keys_settled (h : openRun g now r w = (.ok o, w')) : o.settled.keys.Nodup := by
  obtain ⟨-, -, -, hlook, -⟩ := openRun_ok_iff.mp h
  obtain ⟨hrecalled, -⟩ := lookUp_ok hlook
  rw [Opening.settled, hrecalled]
  exact Table.nodup_keys_merge (Table.nodup_keys_ofPairs _) _

/-- A run opens if its texts can be looked up and those not found can be prepared. -/
theorem exists_openRun {c : Checked} {m : Memory} (now : Nat) (hcheck : r.check = .ok c)
    (hm : w.memory = some m) (hhits : m.counters.hits.quantity?.isSome)
    (hready : ∀ t ∈ unique c.strings,
      m.Ready ⟨r.options.sourceLanguage, .str c.language⟩ t)
    (hprep : ∃ p, prepareFor g c.language ((unique c.strings).filter fun t =>
      (w.known? ⟨r.options.sourceLanguage, .str c.language⟩ t).isNone) = .ok p) :
    ∃ o w', openRun g now r w = (.ok o, w') := by
  obtain ⟨l, m', hall⟩ := Memory.exists_lookupAll now fun t ht => ⟨hready t ht, fun _ => hhits⟩
  have hlook : lookUp w now ⟨r.options.sourceLanguage, .str c.language⟩ (unique c.strings) =
      (.ok l, { w with memory := some m' }) := by
    rw [lookUp, hm]
    simp only [hall]
  obtain ⟨hl, -⟩ := lookUp_ok hlook
  have hmissing : l.missing = (unique c.strings).filter fun t =>
      (w.known? ⟨r.options.sourceLanguage, .str c.language⟩ t).isNone := by
    rw [hl]
    rfl
  obtain ⟨p, hp⟩ := hprep
  rw [← hmissing] at hp
  unfold openRun
  simp only [hcheck, hlook, hp]
  exact ⟨_, _, rfl⟩

namespace Opening.Divided

variable {known whole : Text → Option Json} {t : Text}

theorem nodup_missing (h : o.Divided known whole) : o.recalled.missing.Nodup := by
  rw [h.missing]
  exact (nodup_unique _).filter _

theorem nodup_pending (h : o.Divided known whole) : o.prepared.pending.Nodup := by
  rw [h.pending]
  exact h.nodup_missing.filter _

theorem mem_missing (h : o.Divided known whole) :
    t ∈ o.recalled.missing ↔ t ∈ unique o.checked.strings ∧ known t = none := by
  rw [h.missing, List.mem_filter, Option.isNone_iff_eq_none]

theorem mem_pending (h : o.Divided known whole) :
    t ∈ o.prepared.pending ↔
      t ∈ unique o.checked.strings ∧ known t = none ∧ whole t = none := by
  rw [h.pending, List.mem_filter, Option.isNone_iff_eq_none, h.mem_missing, and_assoc]

theorem str_mem_of_mem_missing (h : o.Divided known whole) (ht : t ∈ o.recalled.missing) :
    Json.str t ∈ o.checked.strings := by
  have hunique := (h.mem_missing.mp ht).1
  exact (mem_unique.mp hunique).1

/-- No two strings of a request without the mark are sent as the same text. -/
theorem nodup_sent (h : o.Divided known whole)
    (hprep : prepareFor g language o.recalled.missing = .ok o.prepared)
    (hmark : ∀ s, Json.str s ∈ o.checked.strings → ¬ mark <:+: s) : o.prepared.sent.Nodup := by
  apply nodup_sent_of_prepareFor hprep h.nodup_missing
  intro s hs
  exact hmark s (h.str_mem_of_mem_missing hs)

/-- The memory comes before the glossary. -/
theorem find?_settled (h : o.Divided known whole) (t : Text) :
    Table.find? o.settled t =
      if t ∈ unique o.checked.strings then (known t).or (whole t) else none := by
  rw [Opening.settled, Table.find?_merge, Table.find?_reverse h.distinct, h.finals, h.found]
  by_cases hu : t ∈ unique o.checked.strings
  · cases hr : known t with
    | some v =>
      have hm : t ∉ o.recalled.missing := by
        rw [h.mem_missing, hr]
        simp
      rw [if_neg hm, if_pos hu, if_pos hu]
      rfl
    | none =>
      rw [if_pos (h.mem_missing.mpr ⟨hu, hr⟩), if_pos hu, if_pos hu, Option.or_none,
        Option.none_or]
  · have hm : t ∉ o.recalled.missing := fun hm => hu (h.mem_missing.mp hm).1
    rw [if_neg hm, if_neg hu, if_neg hu]
    rfl

/-- A string is settled or left, and nothing else is settled. -/
theorem mem_keys_settled (h : o.Divided known whole) :
    t ∈ o.settled.keys ↔ t ∈ unique o.checked.strings ∧ t ∉ o.prepared.pending := by
  rw [Table.mem_keys_iff, h.find?_settled, h.mem_pending]
  by_cases hu : t ∈ unique o.checked.strings
  · rw [if_pos hu]
    cases known t with
    | some v => simp [hu]
    | none => cases whole t <;> simp [hu]
  · simp [hu]

end Opening.Divided

end Localize.Batch
