import Localize.Proofs.Memory.Reloading

/-!
# What an interruption can lose

The counter that tells when to save is itself saved and read back, and clearing sets it to zero,
while other operations save at any count. Still the additions since the file was last written are
never more than the counter is past a multiple of the interval: an addition moves both by one, and
at a multiple the file is written. So there are always fewer of them than the interval, and the file
holds the memory as it was when it was written.
-/

namespace Localize

/-- The failure is that of a write. -/
def Failure.ofWrite : Failure → Bool
  | .error (.writeNotPrepared _) | .error (.writeFailed _) => true
  | _ => false

namespace Memory

/-! ### Definitions -/

/-- How many additions an act counts. -/
def Act.adds : Act → Nat
  | .store _ (.str text) (.str _) _ _ => if Text.allBlank text then 0 else 1
  | _ => 0

def additions (acts : List (Nat × Act)) : Nat := (acts.map fun a => a.2.adds).sum

/-- No write fails among the acts. -/
def unbroken : State → List (Nat × Act) → Bool
  | _, [] => true
  | s, (now, act) :: rest =>
    match act.perform now s with
    | (.ok _, s) => unbroken s rest
    | (.error failure, s) => !failure.ofWrite && unbroken s rest

/-- The file has been written by the last of the acts before, if there are any, and not by the acts
after them: the volume stays as it is through all of these. -/
structure LastWritten (s : State) (before after : List (Nat × Act)) : Prop where
  written : before = [] ∨ ∃ first a, before = first ++ [a] ∧
    (performed s before).1.save a.1 (performed s first).2 = (.ok (), (performed s before).2)
  kept : ∀ first, first <+: after → (performed s (before ++ first)).2 = (performed s before).2

/-- The memories that have started in a folder without a file, or with a file that such a memory has
written, whatever has been done to them since. -/
inductive Reached : Memory → Prop
  | opened {folder : Path} {digest : Text → Text} {every : ℤ} {now : Nat} {m : Memory}
      {v v' : Volume} (hfile : v.content? (Memory.empty folder digest every).file = none)
      (hstart : (Memory.empty folder digest every).start now v = (.ok (), m, v')) : Reached m
  | reopened {folder : Path} {digest : Text → Text} {every : ℤ} {now saved : Nat}
      {source m : Memory} {v v' : Volume} (hsource : Reached source)
      (hfile : v.content? (Memory.empty folder digest every).file =
        some (.text (source.document saved).document))
      (hstart : (Memory.empty folder digest every).start now v = (.ok (), m, v')) : Reached m
  | worked {m : Memory} (h : Reached m) (now : Nat) (v : Volume) {deed : Deed}
      (hdeed : deed.Sound) : Reached (deed.perform now (m, v)).1

/-- The memory counts a whole number of additions, and that is past a multiple of the interval by
the pending ones or more. -/
def Behind (m : Memory) (pending : Nat) : Prop :=
  ∃ n : ℤ, m.counters.additions = .int n ∧ pending ≤ n % m.autosaveEvery

variable {m : Memory} {v : Volume} {s : State} {now pending : Nat} {act : Act}
  {before after acts : List (Nat × Act)}

theorem additions_append (first rest : List (Nat × Act)) :
    additions (first ++ rest) = additions first + additions rest := by
  simp [additions]

theorem unbroken_append (first rest : List (Nat × Act)) :
    unbroken s (first ++ rest) = (unbroken s first && unbroken (performed s first) rest) := by
  induction first generalizing s with
  | nil => rfl
  | cons a first ih =>
    obtain ⟨now, act⟩ := a
    rw [List.cons_append, unbroken, unbroken, performed, List.foldl_cons]
    cases act.perform now s with
    | mk result s' =>
      cases result with
      | ok outcome => exact ih
      | error failure =>
        simp only [ih, Bool.and_assoc]
        rfl

theorem ofWrite_of_unbroken (h : unbroken s [(now, act)] = true) {failure : Failure}
    (hperform : (act.perform now s).1 = .error failure) : failure.ofWrite = false := by
  rw [unbroken] at h
  cases hresult : act.perform now s with
  | mk result s' =>
    rw [hresult] at h hperform
    cases hperform
    simpa [unbroken] using h

/-! ### The additions that are not written -/

theorem Behind.lt (h : m.Behind pending) (hevery : 0 < m.autosaveEvery) :
    pending < m.autosaveEvery := by
  obtain ⟨n, -, hn⟩ := h
  exact hn.trans_lt (Int.emod_lt_of_pos n hevery)

theorem behind_zero {n : ℤ} (h : m.counters.additions = .int n) (hevery : 0 < m.autosaveEvery) :
    m.Behind 0 := ⟨n, h, Int.emod_nonneg n hevery.ne'⟩

theorem ofWrite_of_save {failure : Failure} (h : (m.save now v).1 = .error failure) :
    failure.ofWrite = true := by
  unfold save Volume.writeJson at h
  cases hreplace : v.replaceFile m.file (m.document now).document with
  | mk outcome v' =>
    rw [hreplace] at h
    cases outcome with
    | ok done => cases h
    | error fault =>
      cases fault <;>
      · cases h
        rfl

/-- Saving that does not end in a failed write has written the file. -/
theorem saved_written {α : Type} {a : α}
    (h : ∀ failure, (m.saved now v a).1 = .error failure → failure.ofWrite = false) :
    m.save now v = (.ok (), (m.saved now v a).2.2) := by
  unfold saved at h ⊢
  cases hsave : m.save now v with
  | mk outcome v' =>
    cases outcome with
    | ok done => rfl
    | error failure =>
      rw [hsave] at h
      have hwrite : failure.ofWrite = true := ofWrite_of_save (by rw [hsave])
      rw [h failure rfl] at hwrite
      cases hwrite

/-- One more addition leaves the count one further past a multiple, unless it reaches one. -/
theorem emod_add_one {n every : ℤ} (hevery : 0 < every) (h : (n + 1) % every ≠ 0) :
    (n + 1) % every = n % every + 1 := by
  have hlt := Int.emod_lt_of_pos n hevery
  have hnonneg := Int.emod_nonneg n hevery.ne'
  have hmod : (n + 1) % every = (n % every + 1) % every := (Int.emod_add_emod n every 1).symm
  have hne : n % every + 1 ≠ every := by
    intro heq
    rw [hmod, heq, Int.emod_self] at h
    exact h rfl
  rw [hmod]
  exact Int.emod_eq_of_lt (by omega) (by omega)

/-- An act has written the file, with no additions pending, or has left it, with some pending. -/
def Settled (now : Nat) (v : Volume) (pending : Nat) (s : State) : Prop :=
  s.1.save now v = (.ok (), s.2) ∧ s.1.Behind 0 ∨ s.2 = v ∧ s.1.Behind pending

theorem settled_of_saved {α : Type} {a : α} {n : ℤ} (h : m.counters.additions = .int n)
    (hevery : 0 < m.autosaveEvery)
    (hwrites : ∀ failure, (m.saved now v a).1 = .error failure → failure.ofWrite = false) :
    Settled now v pending (m.saved now v a).2 := by
  left
  rw [saved_memory]
  exact ⟨saved_written hwrites, behind_zero h hevery⟩

namespace Behind

variable {d : Direction} {t : Text}

theorem change (h : m.Behind pending) (hevery : 0 < m.autosaveEvery) (f : Entry → Entry)
    (hwrites : ∀ failure, (m.change now v d t f).1 = .error failure → failure.ofWrite = false) :
    Settled now v pending (m.change now v d t f).2 := by
  cases hentry : m.entry? d t with
  | none =>
    rw [Memory.change, hentry]
    exact .inr ⟨rfl, h⟩
  | some e =>
    obtain ⟨n, hn, -⟩ := h
    rw [change_of_some hentry] at hwrites ⊢
    exact settled_of_saved (m := m.setEntry d t (f e)) hn hevery hwrites

theorem delete (h : m.Behind pending) (hevery : 0 < m.autosaveEvery)
    (hwrites : ∀ failure, (m.delete now v d t).1 = .error failure → failure.ofWrite = false) :
    Settled now v pending (m.delete now v d t).2 := by
  cases hentry : m.entry? d t with
  | none =>
    rw [Memory.delete, hentry]
    exact .inr ⟨rfl, h⟩
  | some e =>
    obtain ⟨n, hn, -⟩ := h
    simp only [Memory.delete, hentry] at hwrites ⊢
    exact settled_of_saved hn hevery hwrites

theorem store (h : m.Behind pending) (hevery : 0 < m.autosaveEvery) (text translation : Json)
    (notes : Fields) (verified : Bool)
    (hwrites : ∀ failure, (m.store now v d text translation notes verified).1 = .error failure →
      failure.ofWrite = false) :
    Settled now v (pending + (Act.store d text translation notes verified).adds)
      (m.store now v d text translation notes verified).2 := by
  obtain ⟨n, hn, hpending⟩ := h
  by_cases hstorable : Storable text translation
  · obtain ⟨t, u, rfl, rfl, hblank⟩ := hstorable
    have hadds : (Act.store d (.str t) (.str u) notes verified).adds = 1 := by
      simp [Act.adds, hblank]
    rw [store_eq hn now v d hblank notes verified rfl, dueForSave_stocked] at hwrites ⊢
    rw [hadds]
    split_ifs at hwrites ⊢ with hdue
    · exact settled_of_saved rfl hevery hwrites
    · have hleft : (n + 1) % m.autosaveEvery ≠ 0 := by simpa [hevery.ne'] using hdue
      refine .inr ⟨rfl, n + 1, rfl, ?_⟩
      change _ ≤ (n + 1) % m.autosaveEvery
      rw [emod_add_one hevery hleft]
      omega
  · have hadds : (Act.store d text translation notes verified).adds = 0 := by
      unfold Act.adds
      split
      · next t u _ _ hact =>
        cases hact
        rw [if_pos (by simpa [Storable] using hstorable)]
      · rfl
    obtain ⟨failure, hstore⟩ :=
      store_unstorable (m := m) (v := v) hstorable now d notes verified
    rw [hstore, hadds]
    exact .inr ⟨rfl, n, hn, hpending⟩

theorem lookup (h : m.Behind pending) : (m.lookup now d t).2.Behind pending := by
  have hadditions : (m.lookup now d t).2.counters.additions = m.counters.additions := by
    unfold Memory.lookup touch
    split
    · dsimp only
      cases Counters.next _ with
      | error fault => rfl
      | ok useCount =>
        dsimp only
        cases Counters.next _ <;> rfl
    · cases Counters.next m.counters.misses <;> rfl
  obtain ⟨n, hn, hpending⟩ := h
  refine ⟨n, hadditions.trans hn, ?_⟩
  rwa [(lookup_sameSettings d t).2]

end Behind

theorem ending_error {α : Type} {f : α → Outcome} {r : Except Failure α × Memory × Volume}
    {failure : Failure} (h : r.1 = .error failure) : (ending f r).1 = .error failure := by
  rw [ending, h]
  rfl

/-- An act leaves the additions pending that were pending and those it adds, unless it writes the
file. -/
theorem Behind.perform (h : s.1.Behind pending) (hevery : 0 < s.1.autosaveEvery)
    (hwrites : ∀ failure, (act.perform now s).1 = .error failure → failure.ofWrite = false) :
    Settled now s.2 (pending + act.adds) (act.perform now s).2 := by
  cases act with
  | store d text translation notes verified =>
    exact h.store hevery text translation notes verified fun failure hfailure =>
      hwrites failure (ending_error hfailure)
  | update d text translation =>
    exact h.change hevery _ fun failure hfailure => hwrites failure (ending_error hfailure)
  | verify d text =>
    exact h.change hevery _ fun failure hfailure => hwrites failure (ending_error hfailure)
  | delete d text =>
    exact h.delete hevery fun failure hfailure => hwrites failure (ending_error hfailure)
  | clear =>
    exact settled_of_saved (n := 0) rfl hevery fun failure hfailure =>
      hwrites failure (ending_error hfailure)
  | lookup d text => exact .inr ⟨rfl, h.lookup⟩
  | save =>
    obtain ⟨n, hn, -⟩ := h
    exact settled_of_saved hn hevery fun failure hfailure =>
      hwrites failure (ending_error hfailure)

/-! ### Where the file was last written -/

theorem performed_concat (s : State) (acts : List (Nat × Act)) (a : Nat × Act) :
    performed s (acts ++ [a]) = (a.2.perform a.1 (performed s acts)).2 :=
  performed_append s acts [a]

theorem lastWritten_nil (s : State) : LastWritten s [] [] where
  written := .inl rfl
  kept first hfirst := by rw [List.prefix_nil.mp hfirst]; rfl

/-- An act that writes the file is the last that did. -/
theorem lastWritten_concat {a : Nat × Act}
    (h : (performed s (acts ++ [a])).1.save a.1 (performed s acts).2 =
      (.ok (), (performed s (acts ++ [a])).2)) : LastWritten s (acts ++ [a]) [] where
  written := .inr ⟨acts, a, rfl, h⟩
  kept first hfirst := by rw [List.prefix_nil.mp hfirst, List.append_nil]

theorem LastWritten.concat (h : LastWritten s before after) {a : Nat × Act}
    (hkept : (performed s (before ++ after ++ [a])).2 = (performed s (before ++ after)).2) :
    LastWritten s before (after ++ [a]) where
  written := h.written
  kept first hfirst := by
    obtain rfl | hfirst := List.prefix_concat_iff.mp hfirst
    · rw [← List.append_assoc, hkept]
      exact h.kept after List.prefix_rfl
    · exact h.kept first hfirst

/-- However far acts have come without a failed write, the additions since the file was last written
are no more than the counter is past a multiple of the interval. -/
theorem exists_lastWritten (hstart : s.1.Behind 0) (hevery : 0 < s.1.autosaveEvery)
    (h : unbroken s acts = true) :
    ∃ before after, acts = before ++ after ∧ LastWritten s before after ∧
      (performed s acts).1.Behind (additions after) := by
  -- from the end: the last act wrote the file, or adds to what was pending before it
  induction acts using List.reverseRecOn with
  | nil => exact ⟨[], [], rfl, lastWritten_nil s, hstart⟩
  | append_singleton acts a ih =>
    rw [unbroken_append, Bool.and_eq_true] at h
    obtain ⟨before, after, rfl, hlast, hbehind⟩ := ih h.1
    have hevery' : 0 < (performed s (before ++ after)).1.autosaveEvery := by
      rwa [(performed_sameSettings s _).2]
    have hsettled := hbehind.perform hevery' fun failure => ofWrite_of_unbroken h.2
    rw [← performed_concat] at hsettled
    rcases hsettled with ⟨hsave, hnone⟩ | ⟨hkept, hmore⟩
    · exact ⟨before ++ after ++ [a], [], (List.append_nil _).symm, lastWritten_concat hsave, hnone⟩
    · refine ⟨before, after ++ [a], List.append_assoc .., hlast.concat hkept, ?_⟩
      rw [additions_append]
      exact hmore

/-- The file holds the memory as it was when the file was last written. -/
theorem LastWritten.content (h : LastWritten s before after) :
    before = [] ∧ (performed s (before ++ after)).2 = s.2 ∨
      ∃ saved, (performed s (before ++ after)).2.content? s.1.file =
        some (.text ((performed s before).1.document saved).document) := by
  have hkept := h.kept after List.prefix_rfl
  rcases h.written with rfl | ⟨first, a, -, hsave⟩
  · exact .inl ⟨rfl, hkept⟩
  · refine .inr ⟨a.1, ?_⟩
    rw [hkept, ← file_eq (performed_sameSettings s before).1]
    exact (save_written hsave).done rfl

/-! ### Memories that have started -/

theorem Reached.lasting (h : Reached m) : m.Lasting fun _ => True := by
  induction h with
  | opened hfile hstart => exact lasting_of_start hfile hstart
  | @reopened _ _ _ now _ _ _ _ _ _ hfile hstart ih =>
    obtain ⟨_, hreloaded, -⟩ := start_reloaded ih hfile now
    rw [hreloaded] at hstart
    cases hstart
    exact ih.reloaded trivial _ _
  | @worked m _ now v deed hdeed ih =>
    have hdeeds : ∀ d ∈ [(now, deed)], True ∧ d.2.Sound :=
      List.forall_mem_singleton.mpr ⟨trivial, hdeed⟩
    exact ih.done (s := (m, v)) hdeeds

/-- A memory that starts has no additions pending, and the file holds it or what it held before. -/
theorem behind_of_start {folder : Path} {digest : Text → Text} {every : ℤ} (hevery : 0 < every)
    (hfile : v.content? (Memory.empty folder digest every).file = none ∨
      ∃ source saved, Reached source ∧ v.content? (Memory.empty folder digest every).file =
        some (.text (source.document saved).document))
    {m₀ : Memory} {v₀ : Volume}
    (hstart : (Memory.empty folder digest every).start now v = (.ok (), m₀, v₀)) :
    m₀.Behind 0 ∧ (Memory.empty folder digest every).SameSettings m₀ ∧
      ∃ source saved, v₀.content? (Memory.empty folder digest every).file =
          some (.text (source.document saved).document) ∧
        (source = m₀ ∨ v.content? (Memory.empty folder digest every).file =
          some (.text (source.document saved).document)) := by
  rcases hfile with hfile | ⟨source, saved, hsource, hfile⟩
  · obtain ⟨rfl, v₁, hsave⟩ := start_fresh hfile hstart
    exact ⟨behind_zero (n := 0) rfl hevery, ⟨rfl, rfl⟩, _, now, (save_written hsave).done rfl,
      .inl rfl⟩
  · obtain ⟨v', hreloaded, hvolume⟩ := start_reloaded hsource.lasting hfile now
    rw [hreloaded] at hstart
    cases hstart
    obtain ⟨_, _, n, hcounters⟩ := hsource.lasting.counters
    have hn : source.counters.additions = .int n := by rw [hcounters]
    exact ⟨behind_zero (n := n) hn hevery, ⟨rfl, rfl⟩, source, saved, (hvolume _).trans hfile,
      .inr hfile⟩

/-- Whatever is done to a memory that has started in a folder without a file, or with the file of
such a memory: if no write fails, the additions since the file was last written are at every point
fewer than the interval of saving, and the file holds the memory as it was at that write. -/
theorem unwritten_of_start {folder : Path} {digest : Text → Text} {every : ℤ} (hevery : 0 < every)
    (hfile : v.content? (Memory.empty folder digest every).file = none ∨
      ∃ source saved, Reached source ∧ v.content? (Memory.empty folder digest every).file =
        some (.text (source.document saved).document))
    {m₀ : Memory} {v₀ : Volume}
    (hstart : (Memory.empty folder digest every).start now v = (.ok (), m₀, v₀))
    {deeds : List (Nat × Deed)} (h : unbroken (m₀, v₀) (actsOf (m₀, v₀) deeds) = true)
    {point : List (Nat × Act)} (hpoint : point <+: actsOf (m₀, v₀) deeds) :
    ∃ before after, point = before ++ after ∧ LastWritten (m₀, v₀) before after ∧
      additions after < every ∧
      ∃ source saved,
        (performed (m₀, v₀) point).2.content? (Memory.empty folder digest every).file =
          some (.text (source.document saved).document) ∧
        (source = (performed (m₀, v₀) before).1 ∨
          before = [] ∧ v.content? (Memory.empty folder digest every).file =
            some (.text (source.document saved).document)) := by
  obtain ⟨hbehind, ⟨hfolder, rfl⟩, source, saved, hcontent, hsource⟩ :=
    behind_of_start hevery hfile hstart
  obtain ⟨rest, hrest⟩ := hpoint
  rw [← hrest, unbroken_append, Bool.and_eq_true] at h
  obtain ⟨before, after, rfl, hlast, hpending⟩ := exists_lastWritten hbehind hevery h.1
  have hevery' : (performed (m₀, v₀) (before ++ after)).1.autosaveEvery = m₀.autosaveEvery :=
    (performed_sameSettings (m₀, v₀) (before ++ after)).2
  have hfew := hpending.lt (hevery' ▸ hevery)
  refine ⟨before, after, rfl, hlast, hevery' ▸ hfew, ?_⟩
  rcases hlast.content with ⟨rfl, hvolume⟩ | ⟨saved', hwritten⟩
  · rw [hvolume]
    exact ⟨source, saved, hcontent, hsource.imp id fun hsource => ⟨rfl, hsource⟩⟩
  · rw [file_eq (m := Memory.empty folder digest m₀.autosaveEvery) hfolder] at hwritten
    exact ⟨_, saved', hwritten, .inl rfl⟩

theorem unwritten_of_start_busyDays :
    ∃ m₀ v₀, crowded.start 1 (.ofEntries []) = (.ok (), m₀, v₀) ∧
      ∃ before after, (actsOf (m₀, v₀) busyDays).take 2 = before ++ after ∧
        LastWritten (m₀, v₀) before after ∧ additions after < (2 : ℤ) ∧
        ∃ source saved,
          (performed (m₀, v₀) ((actsOf (m₀, v₀) busyDays).take 2)).2.content? crowded.file =
            some (.text (source.document saved).document) ∧
          (source = (performed (m₀, v₀) before).1 ∨
            before = [] ∧ (Volume.ofEntries []).content? crowded.file =
              some (.text (source.document saved).document)) := by
  have hok : (crowded.start 1 (.ofEntries [])).1.isOk = true := by decide +kernel
  have hunbroken : unbroken (crowded.start 1 (.ofEntries [])).2
      (actsOf (crowded.start 1 (.ofEntries [])).2 busyDays) = true := by decide +kernel
  cases hstart : crowded.start 1 (.ofEntries []) with
  | mk outcome s =>
    obtain ⟨m₀, v₀⟩ := s
    rw [hstart] at hok hunbroken
    cases outcome with
    | error failure => cases hok
    | ok done =>
      have hfile : (Volume.ofEntries []).content? crowded.file = none := by decide
      exact ⟨m₀, v₀, rfl, unwritten_of_start (by decide) (.inl hfile) hstart hunbroken
        (List.take_prefix 2 _)⟩

end Memory

end Localize
