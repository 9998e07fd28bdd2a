import Localize.Proofs.Memory.Lasting

/-!
# Reloading a memory

A memory that a document can hold is read back from its file with the same entries under the same
keys in the same order, the same counters and the same time of creation; an entry without times gets
the time of reading instead. So whatever has been done to a memory before it was saved, nothing of
it is lost.
-/

namespace Localize.Memory

/-! ### Entries -/

namespace Entry

/-- An entry with a time in place of those it lacks. -/
def dated (now : Nat) (e : Entry) : Entry :=
  { e with
    createdAt := e.createdAt.orElse (.nat now)
    lastUsed := e.lastUsed.orElse (.nat now) }

variable {ticks : Nat → Prop} {e : Entry}

theorem Lasting.dated (h : e.Lasting ticks) {now : Nat} (hnow : ticks now) :
    (e.dated now).Lasting ticks := by
  have hor {time : Json} (ht : ∃ t, ticks t ∧ time = .nat t) :
      ∃ t, ticks t ∧ time.orElse (.nat now) = .nat t := by
    obtain ⟨t, ht, rfl⟩ := ht
    unfold Json.orElse
    split
    · exact ⟨t, ht, rfl⟩
    · exact ⟨now, hnow, rfl⟩
  exact { h with createdAt := hor h.createdAt, lastUsed := hor h.lastUsed }

/-- Times that are not zero are kept. -/
theorem Lasting.dated_eq (h : e.Lasting (0 < ·)) (now : Nat) : e.dated now = e := by
  have hor {time : Json} (ht : ∃ t, 0 < t ∧ time = .nat t) : time.orElse (.nat now) = time := by
    obtain ⟨t, ht, rfl⟩ := ht
    have hsomething : (Json.nat t).isSomething = true := by
      simpa [Json.nat, Json.isSomething] using ht.ne'
    rw [Json.orElse, if_pos hsomething]
  rw [Entry.dated, hor h.createdAt, hor h.lastUsed]

theorem Lasting.sound_toJson (h : e.Lasting ticks) {key : Json} (hkey : key.Sound) :
    (e.toJson key).Sound := by
  obtain ⟨t, -, hcreated⟩ := h.createdAt
  obtain ⟨u, -, hused⟩ := h.lastUsed
  obtain ⟨n, hcount⟩ := h.useCount
  exact Json.sound_record (by simp) ⟨hkey, h.sourceText, h.translation, h.source, h.target,
    hcreated ▸ .int t, hused ▸ .int u, hcount ▸ .int n, .bool _, h.notes⟩

/-- The item of an entry is read as the entry, with the time of reading where it has none. -/
theorem Lasting.ofValue_toJson (h : e.Lasting ticks) (now : Nat) (key : Json) :
    Entry.ofValue now (e.toJson key) = .ok (e.dated now) := by
  have herase : Table.erase e.notes "verified".toList = e.notes := Table.erase_of_notMem h.unmarked
  have hread : Entry.ofValue now (e.toJson key) =
      (Json.fieldsOrNone (some (.obj e.notes))).bind fun notes =>
        .ok { e with
          createdAt := e.createdAt.orElse (.nat now)
          lastUsed := e.lastUsed.orElse (.nat now)
          notes := Table.erase notes "verified".toList } := rfl
  rw [hread, Json.fieldsOrNone_obj]
  simp only [Except.bind, herase]
  rfl

/-- An item gives its key, if that is a text that is not empty. -/
theorem keyIn_toJson (digest : Text → Text) {k : Text} (hk : k ≠ []) (e e' : Entry) :
    Entry.keyIn digest (e.toJson (.str k)) e' = .ok (.str k) := by
  have hfield : (e.toJson (.str k)).field? "key".toList = some (.str k) := rfl
  have hsomething : (Json.str k).isSomething = true := by simp [Json.isSomething, hk]
  simp only [keyIn, hfield, Option.getD_some, hsomething, if_true]
  rfl

end Entry

/-! ### Memories -/

/-- The header as it is written. -/
def writtenHeader (m : Memory) (now : Nat) : Fields :=
  Table.insert (Table.insert m.header "lastModified".toList (.nat now)) "totalEntries".toList
    (.nat m.size)

/-- A memory that is read from the document of another one. -/
def reloaded (m source : Memory) (saved now : Nat) : Memory :=
  { m with
    cache := source.cache.map fun p => (p.1, p.2.dated now)
    header := source.writtenHeader saved
    counters := source.counters }

variable {ticks : Nat → Prop} {m m' : Memory} {v v' : Volume} {now : Nat}

theorem Lasting.keys_writtenHeader (h : m.Lasting ticks) (now : Nat) :
    Table.keys (m.writtenHeader now) = headerNames :=
  keys_insert_header (keys_insert_header h.headed (by decide) _) (by decide) _

theorem Lasting.sound_writtenHeader (h : m.Lasting ticks) (now : Nat) :
    (Json.obj (m.writtenHeader now)).Sound :=
  (h.header.insert (.int _) _).insert (.int _) _

theorem Lasting.sound_document (h : m.Lasting ticks) (now : Nat) : (m.document now).Sound := by
  obtain ⟨hits, misses, additions, hcounters⟩ := h.counters
  refine Json.sound_record (by simp) ⟨h.sound_writtenHeader now, ?_, .arr fun item hitem => ?_⟩
  · rw [hcounters]
    change (Json.obj (Json.record [("hits", .int hits), ("misses", .int misses),
      ("additions", .int additions)])).Sound
    exact Json.sound_record (by simp) ⟨.int _, .int _, .int _⟩
  · obtain ⟨p, hp, rfl⟩ := List.mem_map.mp hitem
    obtain ⟨k, hk, -⟩ := h.keyed p hp
    exact (h.entries p hp).sound_toJson (hk ▸ .str k)

/-- The items of a memory are read as its entries under its keys. -/
theorem addItems_toJson {cache : Table Json Entry}
    (hkeyed : ∀ p ∈ cache, ∃ k, p.1 = .str k ∧ k ≠ [])
    (hentries : ∀ p ∈ cache, p.2.Lasting ticks) (m : Memory) (now : Nat) :
    m.addItems now (cache.map fun p => p.2.toJson p.1) =
      (.ok (), { m with
        cache := Table.merge m.cache (cache.map fun p => (p.1, p.2.dated now)) }) := by
  induction cache generalizing m with
  | nil => rfl
  | cons p cache ih =>
    obtain ⟨hkey, hkeys⟩ := List.forall_mem_cons.mp hkeyed
    obtain ⟨hentry, hothers⟩ := List.forall_mem_cons.mp hentries
    obtain ⟨key, e⟩ := p
    obtain ⟨k, rfl, hk⟩ := hkey
    have hread : (do
        let e' ← Entry.ofValue now (e.toJson (.str k))
        return (← e'.keyIn m.digest (e.toJson (.str k)), e')) =
        (.ok (.str k, e.dated now) : Except Fault (Json × Entry)) := by
      rw [hentry.ofValue_toJson]
      change (Entry.keyIn m.digest (e.toJson (.str k)) (e.dated now)).bind _ = _
      rw [Entry.keyIn_toJson _ hk]
      rfl
    rw [List.map_cons, addItems, hread]
    simp only
    rw [ih hkeys hothers]
    rfl

/-- Counters that are written are read over those of an empty memory. -/
theorem overlay_counters (hits misses additions : ℤ) :
    Counters.zero.overlay
        (some (.obj (Counters.fields ⟨.int hits, .int misses, .int additions, []⟩))) =
      .ok ⟨.int hits, .int misses, .int additions, []⟩ := rfl

/-- A document is read as the memory that it was written from. -/
theorem addDocument_document {source : Memory} (h : source.Lasting ticks) {saved : Nat}
    (hcache : m.cache = []) (hheader : Table.keys m.header = headerNames)
    (hcounters : m.counters = .zero) {fields : Fields}
    (hfields : source.document saved = .obj fields) (now : Nat) :
    m.addDocument now fields = (.ok (), m.reloaded source saved now) := by
  obtain ⟨hits, misses, additions, hcounts⟩ := h.counters
  have hnames : headerNames.Nodup := by decide
  have hmerge : Json.overlay m.header (some (.obj (source.writtenHeader saved))) =
      .ok (source.writtenHeader saved) := by
    rw [Json.overlay, Table.merge_of_keys_eq ((h.keys_writtenHeader saved).trans hheader.symm)
      (hheader ▸ hnames)]
  have hcount : m.counters.overlay (some (.obj source.counters.fields)) = .ok source.counters := by
    rw [hcounters, hcounts, overlay_counters]
  have hmetadata : Table.find? fields "metadata".toList =
      some (.obj (source.writtenHeader saved)) := by
    cases hfields
    rfl
  have hstats : Table.find? fields "stats".toList = some (.obj source.counters.fields) := by
    cases hfields
    rfl
  have hlist : Table.find? fields "entries".toList =
      some (.arr (source.cache.map fun p => p.2.toJson p.1)) := by
    cases hfields
    rfl
  have hdistinct : (Table.keys (source.cache.map fun p => (p.1, p.2.dated now))).Nodup := by
    rw [Table.keys, List.map_map]
    exact h.distinct
  have hdated : Table.merge m.cache (source.cache.map fun p => (p.1, p.2.dated now)) =
      source.cache.map fun p => (p.1, p.2.dated now) := by
    rw [hcache]
    exact Table.ofPairs_of_nodup hdistinct
  unfold addDocument
  simp only [hmetadata, hmerge, hstats, hcount, hlist, Json.elementsOrNone_arr,
    addItems_toJson h.keyed h.entries, hdated]
  rfl

/-- A memory is read back from the file that it has written. -/
theorem start_reloaded {folder : Path} {digest : Text → Text} {every : ℤ} {source : Memory}
    (h : source.Lasting ticks) {saved : Nat}
    (hfile : v.content? (Memory.empty folder digest every).file =
      some (.text (source.document saved).document)) (now : Nat) :
    ∃ v', (Memory.empty folder digest every).start now v =
        (.ok (), (Memory.empty folder digest every).reloaded source saved now, v') ∧
      ∀ p, v'.content? p = v.content? p := by
  obtain ⟨v', hmade⟩ : ∃ v', v.makeFolder? (Memory.empty folder digest every).folder = some v' :=
    Volume.exists_makeFolder? isName_memory hfile
  have hread : v'.readJson (Memory.empty folder digest every).file =
      .ok (some (source.document saved)) :=
    Volume.readJson_eq_some_iff.mpr ⟨_, (Volume.content?_makeFolder? hmade _).trans hfile,
      Json.read_document (h.sound_document saved)⟩
  refine ⟨v', ?_, Volume.content?_makeFolder? hmade⟩
  obtain ⟨fields, hfields⟩ : ∃ fields, source.document saved = .obj fields := ⟨_, rfl⟩
  have hadd := addDocument_document (m := Memory.empty folder digest every) h rfl rfl rfl hfields
    now
  rw [hfields] at hread
  simp only [start, hmade, load, hread, hadd]

/-- A memory that is read back lasts as the one that was written. -/
theorem Lasting.reloaded {source : Memory} (h : source.Lasting ticks) (hnow : ticks now)
    (m : Memory) (saved : Nat) : (m.reloaded source saved now).Lasting ticks where
  distinct := by
    rw [Memory.reloaded, Table.keys, List.map_map]
    exact h.distinct
  keyed p hp := by
    obtain ⟨q, hq, rfl⟩ := List.mem_map.mp hp
    exact h.keyed q hq
  entries p hp := by
    obtain ⟨q, hq, rfl⟩ := List.mem_map.mp hp
    exact (h.entries q hq).dated hnow
  counters := h.counters
  headed := h.keys_writtenHeader saved
  header := h.sound_writtenHeader saved

/-- Whatever is done at positive times to a memory that has started without a file: once it is
saved, a memory that starts in the same folder has the same keys in the same order with the same
entries, the same counters and the same time of creation. -/
theorem reload_of_start {folder : Path} {digest : Text → Text} {every : Int} {m₀ : Memory}
    {v₀ : Volume} (hfile : v.content? (Memory.empty folder digest every).file = none)
    (hstart : (Memory.empty folder digest every).start now v = (.ok (), m₀, v₀))
    {deeds : List (Nat × Deed)} (hdeeds : ∀ d ∈ deeds, 0 < d.1 ∧ d.2.Sound) {m : Memory}
    {v₁ v₂ : Volume} (hdone : done (m₀, v₀) deeds = (m, v₁)) {saved : Nat}
    (hsave : m.save saved v₁ = (.ok (), v₂)) (digest' : Text → Text) (every' : Int)
    (again : Nat) :
    ∃ m' v', (Memory.empty folder digest' every').start again v₂ = (.ok (), m', v') ∧
      m'.cache = m.cache ∧ m'.counters = m.counters ∧
      Table.find? m'.header "created".toList = Table.find? m.header "created".toList := by
  have hlasting : m.Lasting (0 < ·) := by
    have hfresh : m₀.Lasting (0 < ·) := lasting_of_start hfile hstart
    have h := hfresh.done (s := (m₀, v₀)) hdeeds
    rwa [hdone] at h
  have hfolder : m.folder = folder := by
    have h := (done_sameSettings (m₀, v₀) deeds).1
    rw [hdone, (start_fresh hfile hstart).1] at h
    exact h
  have hwritten : v₂.content? (Memory.empty folder digest' every').file =
      some (.text (m.document saved).document) := by
    rw [file_eq (m := m) hfolder.symm]
    exact (save_written hsave).done rfl
  obtain ⟨v', hagain, -⟩ := start_reloaded hlasting hwritten again
  refine ⟨_, v', hagain, ?_, rfl, ?_⟩
  · have hdated : m.cache.map (fun p => (p.1, p.2.dated again)) = m.cache.map id := by
      refine List.map_congr_left fun p hp => ?_
      rw [(hlasting.entries p hp).dated_eq]
      rfl
    exact hdated.trans (List.map_id m.cache)
  · have htotal : "totalEntries".toList ≠ "created".toList := by decide
    have hmodified : "lastModified".toList ≠ "created".toList := by decide
    change Table.find? (m.writtenHeader saved) _ = _
    rw [writtenHeader, Table.find?_insert, if_neg htotal, Table.find?_insert, if_neg hmodified]

/-- Translations with marks, quotes, control characters and letters of several scripts are stored,
looked up, changed and removed. -/
def busyDays : List (Nat × Deed) :=
  [(1, .ofOp (.store "en".toList "es".toList (Json.lit "Say \"hi\" \\ now\n") (Json.lit "Di ¡hola!")
      (Json.record [("model", Json.lit "gpt-4o"), ("tone", .null)]) false)),
    (2, .ofOp (.storeAll "en".toList "ja".toList [] [("Open".toList, Json.lit "開く\t"),
      ("Close".toList, Json.lit "閉じる")])),
    (3, .ofOp (.lookup "en".toList "ja".toList "Close".toList)),
    (4, .ofOp (.verify "en".toList "ja".toList "Close".toList)),
    (5, .ofOp (.update "en".toList "ja".toList "Close".toList "閉じます".toList)),
    (6, .ofOp (.delete "en".toList "ja".toList "Open".toList))]

theorem sound_busyDays : ∀ d ∈ busyDays, 0 < d.1 ∧ d.2.Sound := by
  simp only [busyDays, List.forall_mem_cons, List.not_mem_nil, false_implies, implies_true,
    and_true]
  refine ⟨⟨by decide, ?_⟩, ⟨by decide, ?_⟩, ⟨by decide, trivial⟩, ⟨by decide, trivial⟩,
    ⟨by decide, trivial⟩, by decide, trivial⟩
  · simp only [Deed.Sound, Json.record, List.map_cons, List.map_nil, List.forall_mem_cons,
      List.not_mem_nil, false_implies, implies_true, and_true]
    exact ⟨.str _, .null⟩
  · simp [Deed.Sound]

theorem reload_of_start_busyDays :
    ∃ m₀ v₀ v₂, crowded.start 1 (.ofEntries []) = (.ok (), m₀, v₀) ∧
      (done (m₀, v₀) busyDays).1.save 7 (done (m₀, v₀) busyDays).2 = (.ok (), v₂) ∧
      ∃ m' v', crowded.start 8 v₂ = (.ok (), m', v') ∧
        m'.cache = (done (m₀, v₀) busyDays).1.cache ∧
        m'.counters = (done (m₀, v₀) busyDays).1.counters ∧
        Table.find? m'.header "created".toList =
          Table.find? (done (m₀, v₀) busyDays).1.header "created".toList := by
  have hok : (crowded.start 1 (.ofEntries [])).1.isOk = true := by decide +kernel
  have hsaved : ((done (crowded.start 1 (.ofEntries [])).2 busyDays).1.save 7
      (done (crowded.start 1 (.ofEntries [])).2 busyDays).2).1.isOk = true := by decide +kernel
  cases hstart : crowded.start 1 (.ofEntries []) with
  | mk outcome s =>
    obtain ⟨m₀, v₀⟩ := s
    rw [hstart] at hok hsaved
    cases outcome with
    | error failure => cases hok
    | ok u =>
      cases hsave : (done (m₀, v₀) busyDays).1.save 7 (done (m₀, v₀) busyDays).2 with
      | mk result v₂ =>
        dsimp only at hsaved
        rw [hsave] at hsaved
        cases result with
        | error failure => cases hsaved
        | ok u =>
          have hfile : (Volume.ofEntries []).content? crowded.file = none := by decide
          exact ⟨m₀, v₀, v₂, rfl, hsave,
            reload_of_start hfile hstart sound_busyDays Prod.mk.eta.symm hsave (fun _ => ['0']) 2 8⟩

end Localize.Memory
