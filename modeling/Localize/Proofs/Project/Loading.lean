import Localize.Proofs.Project.Damage

/-!
# What a failed start leaves

A store takes in its document piece by piece: the header, then the counters, then item by item. When
it comes to something that it cannot use, it stops there and what it has taken in stays: a start
that fails can leave a store with a new header, with new counters, and with the items in front of
the first that has no reading. A start that fails before the document is taken in leaves the store
as it was, and no start that fails changes a file.
-/

namespace Localize

variable {v v' : Volume} {now : Nat} {failure : Failure} {fields : Fields} {items : List Json}

/-! ### Items -/

/-- The reading of an item gives something that is taken, or it ends the reading of the others. -/
def IsReading {β : Type} (read : Json → Except Fault β) (item : Json)
    (r : Except Fault (Option β)) : Prop :=
  r = (read item).map some

section

variable {κ β S : Type} [DecidableEq κ] {read : Json → Except Fault (κ × β)}
  {report : Fault → Failure}

/-- Where items are read into a table one after another, those in front of the first that has no
reading are in the table. -/
theorem readAll_eq_error_iff (run : Table κ β → List Json → Except Failure Unit × S)
    (wrap : Table κ β → S) (hnil : ∀ t, run t [] = (.ok (), wrap t))
    (hok : ∀ t item items p, read item = .ok p →
      run t (item :: items) = run (Table.insert t p.1 p.2) items)
    (herror : ∀ t item items fault, read item = .error fault →
      run t (item :: items) = (.error (report fault), wrap t)) {t : Table κ β} {s : S} :
    run t items = (.error failure, s) ↔
      ∃ taken fault, Sifted (IsReading read) items taken (some fault) ∧
        failure = report fault ∧ s = wrap (Table.merge t taken) := by
  induction items generalizing t with
  | nil =>
    rw [hnil]
    constructor
    · intro h
      cases h
    · rintro ⟨taken, fault, h, -, -⟩
      cases h
  | cons item items ih =>
    cases hread : read item with
    | error fault =>
      rw [herror t item items fault hread]
      constructor
      · intro h
        cases h
        exact ⟨[], fault, .ended (by rw [IsReading, hread]; rfl), rfl, rfl⟩
      · rintro ⟨taken, fault', h, rfl, rfl⟩
        cases h with
        | passed hitem _ | taken hitem _ =>
          rw [IsReading, hread] at hitem
          cases hitem
        | ended hitem =>
          rw [IsReading, hread] at hitem
          cases hitem
          rfl
    | ok pair =>
      rw [hok t item items pair hread, ih]
      constructor
      · rintro ⟨taken, fault, h, rfl, rfl⟩
        exact ⟨pair :: taken, fault, .taken (by rw [IsReading, hread]; rfl) h, rfl, rfl⟩
      · rintro ⟨taken, fault, h, rfl, rfl⟩
        cases h with
        | passed hitem _ | ended hitem =>
          rw [IsReading, hread] at hitem
          cases hitem
        | taken hitem hrest =>
          rw [IsReading, hread] at hitem
          cases hitem
          exact ⟨_, fault, hrest, rfl, rfl⟩

end

/-! ### Starts -/

/-- A store that is to be started: where its file is, what it is where there is no file, how it is
written, and how it takes in a document. -/
structure Starter (S : Type) where
  kind : StoreKind
  folder : Path
  file : Path
  store : S
  dated : S
  save : Volume → Except Failure Unit × Volume
  takeIn : Fields → Except Failure Unit × S

namespace Starter

variable {S : Type} {s : Starter S} {store : S} {Stops : Fields → Failure → S → Prop}

/-- The start of either store. -/
def start (s : Starter S) (v : Volume) : Except Failure Unit × S × Volume :=
  match v.makeFolder? s.folder with
  | none => (.error (Error.folderNotMade s.kind s.folder), s.store, v)
  | some v =>
    match v.readJson s.file with
    | .error failure => (.error failure, s.store, v)
    | .ok none =>
      let (result, v) := s.save v
      (result, s.dated, v)
    | .ok (some (.obj fields)) =>
      let (result, store) := s.takeIn fields
      (result, store, v)
    | .ok (some _) => (.error (Error.storeNotObject s.kind s.file), s.store, v)

/-- How a start fails, with the store and the volume that are left. Where it fails while a document
is taken in, the store is left as it is at that point. -/
inductive Fails (s : Starter S) (Stops : Fields → Failure → S → Prop) (v : Volume) :
    Failure → S → Volume → Prop
  | noFolder (hfolder : v.makeFolder? s.folder = none) :
      Fails s Stops v (Error.folderNotMade s.kind s.folder) s.store v
  | unreadable {v' : Volume} {failure : Failure} (hfolder : v.makeFolder? s.folder = some v')
      (hread : v'.readJson s.file = .error failure) : Fails s Stops v failure s.store v'
  | noObject {v' : Volume} {value : Json} (hfolder : v.makeFolder? s.folder = some v')
      (hread : v'.readJson s.file = .ok (some value)) (hvalue : ∀ fields, value ≠ .obj fields) :
      Fails s Stops v (Error.storeNotObject s.kind s.file) s.store v'
  | unsaved {v' v'' : Volume} {failure : Failure} (hfolder : v.makeFolder? s.folder = some v')
      (hread : v'.readJson s.file = .ok none) (hsave : s.save v' = (.error failure, v'')) :
      Fails s Stops v failure s.dated v''
  | midway {v' : Volume} {fields : Fields} {failure : Failure} {store : S}
      (hfolder : v.makeFolder? s.folder = some v')
      (hread : v'.readJson s.file = .ok (some (.obj fields)))
      (hstops : Stops fields failure store) : Fails s Stops v failure store v'

theorem start_eq_error_iff (hstops : ∀ fields failure store,
      s.takeIn fields = (.error failure, store) ↔ Stops fields failure store) :
    s.start v = (.error failure, store, v') ↔ s.Fails Stops v failure store v' := by
  constructor
  · intro h
    unfold start at h
    cases hfolder : v.makeFolder? s.folder with
    | none =>
      simp only [hfolder] at h
      cases h
      exact .noFolder hfolder
    | some v₁ =>
      simp only [hfolder] at h
      rcases hread : v₁.readJson s.file with failure' | _ | value
      · simp only [hread] at h
        cases h
        exact .unreadable hfolder hread
      · rcases hsave : s.save v₁ with ⟨outcome, v₂⟩
        simp only [hread, hsave] at h
        cases h
        exact .unsaved hfolder hread hsave
      · cases value with
        | obj fields =>
          rcases htake : s.takeIn fields with ⟨outcome, store'⟩
          simp only [hread, htake] at h
          cases h
          exact .midway hfolder hread ((hstops _ _ _).mp htake)
        | null | bool _ | int _ | float _ | str _ | arr _ =>
          simp only [hread] at h
          cases h
          exact .noObject hfolder hread (by simp)
  · intro h
    unfold start
    cases h with
    | noFolder hfolder => simp only [hfolder]
    | unreadable hfolder hread => simp only [hfolder, hread]
    | noObject hfolder hread hvalue => simp only [hfolder, hread]
    | unsaved hfolder hread hsave => simp only [hfolder, hread, hsave]
    | midway hfolder hread hstopped =>
      simp only [hfolder, hread, (hstops _ _ _).mpr hstopped]

/-- No start that fails changes a file, if no write that fails does. -/
theorem Fails.sameFiles (hsave : ∀ v failure v', s.save v = (.error failure, v') → v.SameFiles v')
    (h : s.Fails Stops v failure store v') : v.SameFiles v' := by
  cases h with
  | noFolder _ => exact .refl v
  | unreadable hfolder _ | noObject hfolder _ _ | midway hfolder _ _ =>
    exact Volume.sameFiles_makeFolder? hfolder
  | unsaved hfolder _ hfailed =>
    have hmade := Volume.sameFiles_makeFolder? hfolder
    exact fun names => (hsave _ _ _ hfailed names).trans (hmade names)

end Starter

/-! ### The memory -/

namespace Memory

variable {m m' : Memory}

/-- Where taking in a document stops, and what is left of the memory there. -/
inductive Stops (m : Memory) (now : Nat) (fields : Fields) : Failure → Memory → Prop
  | atHeader {fault : Fault}
      (hheader : Json.overlay m.header (Table.find? fields "metadata".toList) = .error fault) :
      Stops m now fields (.fault fault) m
  | atCounters {header : Fields} {fault : Fault}
      (hheader : Json.overlay m.header (Table.find? fields "metadata".toList) = .ok header)
      (hcounters : m.counters.overlay (Table.find? fields "stats".toList) = .error fault) :
      Stops m now fields (.fault fault) { m with header }
  | atList {header : Fields} {counters : Counters} {fault : Fault}
      (hheader : Json.overlay m.header (Table.find? fields "metadata".toList) = .ok header)
      (hcounters : m.counters.overlay (Table.find? fields "stats".toList) = .ok counters)
      (hitems : Json.elementsOrNone (Table.find? fields "entries".toList) = .error fault) :
      Stops m now fields (m.itemFailure fault) { m with header, counters }
  | atItem {header : Fields} {counters : Counters} {items : List Json}
      {taken : List (Json × Entry)} {fault : Fault}
      (hheader : Json.overlay m.header (Table.find? fields "metadata".toList) = .ok header)
      (hcounters : m.counters.overlay (Table.find? fields "stats".toList) = .ok counters)
      (hitems : Json.elementsOrNone (Table.find? fields "entries".toList) = .ok items)
      (hsifted : Sifted (IsReading (readItem m.digest now)) items taken (some fault)) :
      Stops m now fields (m.itemFailure fault)
        { m with header, counters, cache := Table.merge m.cache taken }

theorem addItems_eq_error_iff : m.addItems now items = (.error failure, m') ↔
    ∃ taken fault, Sifted (IsReading (readItem m.digest now)) items taken (some fault) ∧
      failure = m.itemFailure fault ∧ m' = { m with cache := Table.merge m.cache taken } :=
  readAll_eq_error_iff (t := m.cache) (fun cache => addItems { m with cache } now)
    (fun cache => { m with cache }) (fun _ => rfl)
    (fun cache _ items _ hread => addItems_of_ok (m := { m with cache }) hread items)
    (fun cache _ items _ hread => addItems_of_error (m := { m with cache }) hread items)

theorem addDocument_eq_error_iff :
    m.addDocument now fields = (.error failure, m') ↔ m.Stops now fields failure m' := by
  constructor
  · intro h
    unfold addDocument at h
    cases hheader : Json.overlay m.header (Table.find? fields "metadata".toList) with
    | error fault =>
      simp only [hheader] at h
      cases h
      exact .atHeader hheader
    | ok header =>
      cases hcounters : m.counters.overlay (Table.find? fields "stats".toList) with
      | error fault =>
        simp only [hheader, hcounters] at h
        cases h
        exact .atCounters hheader hcounters
      | ok counters =>
        cases hitems : Json.elementsOrNone (Table.find? fields "entries".toList) with
        | error fault =>
          simp only [hheader, hcounters, hitems] at h
          cases h
          exact .atList hheader hcounters hitems
        | ok items =>
          simp only [hheader, hcounters, hitems] at h
          obtain ⟨taken, fault, hsifted, rfl, rfl⟩ := addItems_eq_error_iff.mp h
          exact .atItem hheader hcounters hitems hsifted
  · intro h
    unfold addDocument
    cases h with
    | atHeader hheader => simp only [hheader]
    | atCounters hheader hcounters => simp only [hheader, hcounters]
    | atList hheader hcounters hitems =>
      simp only [hheader, hcounters, hitems]
      rfl
    | atItem hheader hcounters hitems hsifted =>
      simp only [hheader, hcounters, hitems]
      exact addItems_eq_error_iff.mpr ⟨_, _, hsifted, rfl, rfl⟩

def starter (m : Memory) (now : Nat) : Starter Memory where
  kind := .memory
  folder := m.folder
  file := m.file
  store := m
  dated := m.setHeader "created" (.nat now)
  save := (m.setHeader "created" (.nat now)).save now
  takeIn := m.addDocument now

theorem start_eq (m : Memory) (now : Nat) (v : Volume) :
    m.start now v = (m.starter now).start v := by
  unfold start Starter.start starter
  cases v.makeFolder? m.folder with
  | none => rfl
  | some v₁ =>
    unfold load
    rcases v₁.readJson m.file with failure | _ | value
    · rfl
    · rfl
    · cases value <;> rfl

theorem sameFiles_of_save (h : m.save now v = (.error failure, v')) : v.SameFiles v' := by
  unfold save at h
  rcases Volume.writeJson_cases v m.file (m.document now) with
    ⟨v₁, hwrite, -⟩ | ⟨e, v₁, hwrite, -, hfiles⟩
  · rw [hwrite] at h
    cases h
  · rw [hwrite] at h
    cases h
    exact hfiles

end Memory

/-! ### The glossary -/

namespace Glossary

variable {g g' : Glossary} {path : Path}

/-- Where taking in a document stops, and what is left of the glossary there. -/
inductive Stops (g : Glossary) (path : Path) (now : Nat) (fields : Fields) :
    Failure → Glossary → Prop
  | atHeader {fault : Fault}
      (hheader : Json.overlay g.header (Table.find? fields "metadata".toList) = .error fault) :
      Stops g path now fields (.fault fault) g
  | atList {header : Fields} {fault : Fault}
      (hheader : Json.overlay g.header (Table.find? fields "metadata".toList) = .ok header)
      (hitems : Json.elementsOrNone (Table.find? fields "terms".toList) = .error fault) :
      Stops g path now fields (itemFailure path fault) { g with header }
  | atItem {header : Fields} {items : List Json} {taken : List (Json × Entry)} {fault : Fault}
      (hheader : Json.overlay g.header (Table.find? fields "metadata".toList) = .ok header)
      (hitems : Json.elementsOrNone (Table.find? fields "terms".toList) = .ok items)
      (hsifted : Sifted (IsReading (readItem now)) items taken (some fault)) :
      Stops g path now fields (itemFailure path fault)
        { g with header, terms := Table.merge g.terms taken }

theorem addItems_eq_error_iff : g.addItems path now items = (.error failure, g') ↔
    ∃ taken fault, Sifted (IsReading (readItem now)) items taken (some fault) ∧
      failure = itemFailure path fault ∧ g' = { g with terms := Table.merge g.terms taken } :=
  readAll_eq_error_iff (t := g.terms) (fun terms => addItems { g with terms } path now)
    (fun terms => { g with terms }) (fun _ => rfl)
    (fun terms _ items _ hread => addItems_of_ok (g := { g with terms }) hread items)
    (fun terms _ items _ hread => addItems_of_error (g := { g with terms }) hread items)

theorem addDocument_eq_error_iff :
    g.addDocument path now fields = (.error failure, g') ↔ g.Stops path now fields failure g' := by
  constructor
  · intro h
    unfold addDocument at h
    cases hheader : Json.overlay g.header (Table.find? fields "metadata".toList) with
    | error fault =>
      simp only [hheader] at h
      cases h
      exact .atHeader hheader
    | ok header =>
      cases hitems : Json.elementsOrNone (Table.find? fields "terms".toList) with
      | error fault =>
        simp only [hheader, hitems] at h
        cases h
        exact .atList hheader hitems
      | ok items =>
        simp only [hheader, hitems] at h
        obtain ⟨taken, fault, hsifted, rfl, rfl⟩ := addItems_eq_error_iff.mp h
        exact .atItem hheader hitems hsifted
  · intro h
    unfold addDocument
    cases h with
    | atHeader hheader => simp only [hheader]
    | atList hheader hitems => simp only [hheader, hitems]
    | atItem hheader hitems hsifted =>
      simp only [hheader, hitems]
      exact addItems_eq_error_iff.mpr ⟨_, _, hsifted, rfl, rfl⟩

def starter (g : Glossary) (path : Path) (now : Nat) : Starter Glossary where
  kind := .glossary
  folder := path.parent
  file := path
  store := g
  dated := g.setHeader "created" (.nat now)
  save := (g.setHeader "created" (.nat now)).save now
  takeIn := g.addDocument path now

theorem start_eq (hpath : g.path = some path) (now : Nat) (v : Volume) :
    g.start now v = (g.starter path now).start v := by
  unfold start Starter.start starter
  simp only [hpath]
  cases v.makeFolder? path.parent with
  | none => rfl
  | some v₁ =>
    simp only [load, hpath]
    rcases v₁.readJson path with failure | _ | value
    · rfl
    · simp only [saved]
      rcases (g.setHeader "created" (.nat now)).save now v₁ with ⟨outcome, v₂⟩
      cases outcome <;> rfl
    · cases value <;> rfl

theorem sameFiles_of_save (h : g.save now v = (.error failure, v')) : v.SameFiles v' := by
  unfold save at h
  cases hpath : g.path with
  | none =>
    simp only [hpath] at h
    cases h
  | some path =>
    rcases Volume.writeJson_cases v path (g.document now) with
      ⟨v₁, hwrite, -⟩ | ⟨e, v₁, hwrite, -, hfiles⟩
    · simp only [hpath, hwrite] at h
      cases h
    · simp only [hpath, hwrite] at h
      cases h
      exact hfiles

end Glossary

/-! ### Both stores -/

/-- What is left of a memory or a glossary by a start that fails: the files as they were, and the
store as it was unless the start has come to the document, of which the pieces up to the one that
cannot be used are then in the store, or to the writing of a first file. -/
theorem start_fails_midway (m : Memory) (g : Glossary) (now : Nat) (v : Volume) :
    (∀ failure m' v', m.start now v = (.error failure, m', v') ↔
      (m.starter now).Fails (m.Stops now) v failure m' v') ∧
    (∀ failure g' v', g.start now v = (.error failure, g', v') ↔
      ∃ path, g.path = some path ∧
        (g.starter path now).Fails (g.Stops path now) v failure g' v') ∧
    (∀ failure m' v', m.start now v = (.error failure, m', v') → v.SameFiles v') ∧
    (∀ failure g' v', g.start now v = (.error failure, g', v') → v.SameFiles v') := by
  have hmemory failure m' v' : m.start now v = (.error failure, m', v') ↔
      (m.starter now).Fails (m.Stops now) v failure m' v' := by
    rw [m.start_eq]
    exact Starter.start_eq_error_iff fun _ _ _ => Memory.addDocument_eq_error_iff
  have hglossary failure g' v' : g.start now v = (.error failure, g', v') ↔
      ∃ path, g.path = some path ∧
        (g.starter path now).Fails (g.Stops path now) v failure g' v' := by
    cases hpath : g.path with
    | none =>
      have hnothing : g.start now v = (.ok (), g, v) := by
        unfold Glossary.start
        simp only [hpath]
      simp [hnothing]
    | some path =>
      rw [Glossary.start_eq hpath]
      simp only [Option.some.injEq, exists_eq_left']
      exact Starter.start_eq_error_iff fun _ _ _ => Glossary.addDocument_eq_error_iff
  refine ⟨hmemory, hglossary, fun failure m' v' h => ?_, fun failure g' v' h => ?_⟩
  · exact ((hmemory failure m' v').mp h).sameFiles fun _ _ _ => Memory.sameFiles_of_save
  · obtain ⟨path, -, hfails⟩ := (hglossary failure g' v').mp h
    exact hfails.sameFiles fun _ _ _ => Glossary.sameFiles_of_save

/-- A file with a number between two entries. -/
def damagedFile : Volume :=
  let entry (key : String) : Json := .obj (Json.record [("key", Json.lit key),
    ("sourceText", Json.lit key), ("translation", .nat 1), ("sourceLang", .nat 2),
    ("targetLang", .nat 3)])
  .ofEntries [("mem".toList, .folder [("memory.json".toList, .file (.text
    (Json.obj (Json.record [("entries", .arr [entry "a", .nat 5, entry "b"])])).document))])]

/-- A memory keeps the entry in front of the number from a start that fails. -/
example : (((Memory.empty ⟨false, ["mem".toList]⟩ Memory.shortDigest 50).start 0
    damagedFile).2.1.cache.keys) = [Json.lit "a"] := by
  decide +kernel

end Localize
