import Localize.Glossary.Basic
import Localize.Memory.Basic
import Localize.Source.Locale
import Localize.Proofs.Json.Shape
import Localize.Proofs.Volume.Atomic

/-!
# Damaged files

Whatever the file of a memory, of a glossary or of a language holds, reading it succeeds or ends in
an error of the persistence, with some exceptions: bytes that encode no text end it in a fault, and
so do a header that is no object and notes or translations in which something is no pair.
-/

namespace Localize

/-- A result is a value or an error of the persistence, or a fault exactly if a condition holds. -/
structure Reported {α : Type} (result : Except Failure α) (breaks : Prop) : Prop where
  category : ∀ e, result = .error (.error e) → e.category = .persistence
  fault_iff : (∃ fault, result = .error (.fault fault)) ↔ breaks

namespace Reported

variable {α : Type} {result : Except Failure α} {breaks breaks' : Prop}

theorem ok (a : α) : Reported (.ok a) False := ⟨by simp, by simp⟩

theorem error {e : Error} (h : e.category = .persistence) :
    Reported (.error (.error e) : Except Failure α) False where
  category e' he' := by
    cases he'
    exact h
  fault_iff := by simp

theorem fault (fault : Fault) : Reported (.error (.fault fault) : Except Failure α) True :=
  ⟨by simp, by simp⟩

theorem of_iff (h : Reported result breaks) (hiff : breaks ↔ breaks') : Reported result breaks' :=
  ⟨h.category, h.fault_iff.trans hiff⟩

end Reported

/-- A missing field or a value of another type, which is told of an item that has no reading. -/
inductive Fault.IsShape : Fault → Prop
  | wrongType : IsShape .wrongType
  | noMember : IsShape .noMember
  | noField (name : Text) : IsShape (.noField name)

/-- A reading that fails does so for a shape, or for a bad value exactly if a condition holds. -/
structure Misreads {α : Type} (result : Except Fault α) (breaks : Prop) : Prop where
  shape : ∀ fault, result = .error fault → fault.IsShape ∨ fault = .badValue
  badValue_iff : result = .error .badValue ↔ breaks

namespace Misreads

variable {α β : Type} {result : Except Fault α} {breaks breaks' : Prop}

theorem ok (a : α) : Misreads (.ok a) False := ⟨by simp, by simp⟩

theorem error {fault : Fault} (h : fault.IsShape) :
    Misreads (.error fault : Except Fault α) False where
  shape fault' h' := by
    cases h'
    exact .inl h
  badValue_iff := by cases h <;> simp

theorem of_iff (h : Misreads result breaks) (hiff : breaks ↔ breaks') : Misreads result breaks' :=
  ⟨h.shape, h.badValue_iff.trans hiff⟩

/-- The first reading is to blame for a bad value if those behind it never are. -/
theorem bind (h : Misreads result breaks) {next : α → Except Fault β}
    (hnext : ∀ a, Misreads (next a) False) : Misreads (result >>= next) breaks := by
  cases result with
  | error fault =>
    refine ⟨fun fault' h' => h.shape fault' ?_, Iff.trans ?_ h.badValue_iff⟩
    · cases h'
      rfl
    · simp [Bind.bind, Except.bind]
  | ok a =>
    have hbreaks : ¬breaks := fun hb => nomatch h.badValue_iff.mpr hb
    exact (hnext a).of_iff (iff_of_false not_false hbreaks)

theorem fieldsOrNone (value? : Option Json) : Misreads (Json.fieldsOrNone value?)
    (∃ value, value? = some value ∧ value.HasLopsided) where
  shape fault h := by
    rcases Json.fieldsOrNone_error h with rfl | rfl
    · exact .inl .wrongType
    · exact .inr rfl
  badValue_iff := Json.fieldsOrNone_badValue_iff

end Misreads

/-- What is reported of an item that has no reading: a shape is told of, a bad value is not. -/
structure TellsShapes (report : Fault → Failure) : Prop where
  shape : ∀ fault, fault.IsShape → ∃ e, report fault = .error e ∧ e.category = .persistence
  badValue : report .badValue = .fault .badValue

/-- Items are read one behind the other, up to one that has no reading. -/
theorem Reported.step {α β : Type} {report : Fault → Failure} (htells : TellsShapes report)
    {Reads Breaks : Json → Prop} {item : Json} {items : List Json} {read : Except Fault α}
    (hread : Misreads read (Breaks item)) (hreads : Reads item ↔ ∃ a, read = .ok a)
    {result : Except Failure β}
    (herror : ∀ fault, read = .error fault → result = .error (report fault))
    (hok : ∀ a, read = .ok a → Reported result (Halts Reads Breaks items)) :
    Reported result (Halts Reads Breaks (item :: items)) := by
  rw [halts_cons, hreads]
  cases read with
  | ok a =>
    have hbreaks : ¬Breaks item := fun h => nomatch hread.badValue_iff.mpr h
    exact (hok a rfl).of_iff (by simp [hbreaks])
  | error fault =>
    rw [herror fault rfl]
    rcases hread.shape fault rfl with hshape | rfl
    · obtain ⟨e, he, hcategory⟩ := htells.shape fault hshape
      have hbreaks : ¬Breaks item := fun h => by
        cases hread.badValue_iff.mpr h
        cases hshape
      rw [he]
      exact (Reported.error hcategory).of_iff (by simp [hbreaks])
    · have hbreaks : Breaks item := hread.badValue_iff.mp rfl
      rw [htells.badValue]
      exact (Reported.fault .badValue).of_iff (by simp [hbreaks])

/-- The reading of a file ends in a fault where it holds no text, or an object that is taken in
with a fault. -/
def Content.Breaks (breaks : Fields → Prop) : Content → Prop
  | .bytes _ => True
  | .text t => ∃ fields, Json.read t = .ok (.obj fields) ∧ breaks fields

/-- How the document of a store is taken in: the fields that are laid over those of the store, the
field with the items, the items that can be read and those that end the reading in a fault. -/
structure Intake where
  overlaid : List String
  listed : String
  Reads : Json → Prop
  Breaks : Json → Prop

/-- The fields of a document that end its reading in a fault. -/
def Intake.BreaksOn (i : Intake) (fields : Fields) : Prop :=
  (∃ name ∈ i.overlaid, ∃ value, Table.find? fields name.toList = some value ∧ value.IsNoObject) ∨
    ∃ items, Json.elementsOrNone (Table.find? fields i.listed.toList) = .ok items ∧
      Halts i.Reads i.Breaks items

variable {v : Volume} {p : Path} {now : Nat}

namespace Volume

/-- A document is read: a missing one, an object and another value are answered in a way of their
own each. -/
theorem reported_readJson {α : Type} {breaks : Fields → Prop} {missing : Except Failure α}
    (hmissing : Reported missing False) {read : Fields → Except Failure α}
    (hread : ∀ fields, Reported (read fields) (breaks fields)) {other : Error}
    (hother : other.category = .persistence) :
    Reported (match v.readJson p with
        | .error failure => .error failure
        | .ok none => missing
        | .ok (some (.obj fields)) => read fields
        | .ok (some _) => .error other)
      (∃ content, v.content? p = some content ∧ content.Breaks breaks) := by
  unfold readJson Volume.content?
  cases v.place p with
  | missing => exact hmissing.of_iff (by simp)
  | throughFile => exact (Reported.error rfl).of_iff (by simp)
  | folder inner => exact (Reported.error rfl).of_iff (by simp)
  | file content =>
    cases content with
    | bytes b => exact (Reported.fault .notText).of_iff (by simp [Content.Breaks])
    | text t =>
      simp only [Option.some.injEq, exists_eq_left', Content.Breaks]
      cases Json.read t with
      | error reason => exact (Reported.error rfl).of_iff (by simp)
      | ok value =>
        cases value with
        | obj fields => exact (hread fields).of_iff (by simp)
        | null | bool _ | int _ | float _ | str _ | arr _ =>
          exact (Reported.error hother).of_iff (by simp)

end Volume

/-! ### The memory -/

namespace Memory

/-- An item of the file under its key. -/
def readItem (digest : Text → Text) (now : Nat) (item : Json) : Except Fault (Json × Entry) := do
  let e ← Entry.ofValue now item
  return (← e.keyIn digest item, e)

/-- An item ends the reading in a fault if its notes are a list of pairs up to one that is none. -/
def intake (digest : Text → Text) (now : Nat) : Intake where
  overlaid := ["metadata", "stats"]
  listed := "entries"
  Reads item := ∃ p, readItem digest now item = .ok p
  Breaks item := ∃ notes, item.field? "metadata".toList = some notes ∧ notes.HasLopsided

theorem Entry.misreads_required (fields : Fields) (name : String) :
    Misreads (required fields name) False := by
  unfold required
  cases Table.find? fields name.toList with
  | none => exact .error (.noField _)
  | some value => exact .ok value

theorem Entry.misreads_ofValue (now : Nat) (item : Json) :
    Misreads (Entry.ofValue now item)
      (∃ notes, item.field? "metadata".toList = some notes ∧ notes.HasLopsided) := by
  cases item with
  | obj fields =>
    exact (Misreads.fieldsOrNone _).bind fun notes =>
      (misreads_required fields _).bind fun _ => (misreads_required fields _).bind fun _ =>
        (misreads_required fields _).bind fun _ => (misreads_required fields _).bind fun _ => .ok _
  | null | bool _ | int _ | float _ | str _ | arr _ =>
    exact (Misreads.error .noMember).of_iff (by simp [Json.field?])

theorem Entry.misreads_keyIn (digest : Text → Text) (item : Json) (e : Entry) :
    Misreads (e.keyIn digest item) False := by
  unfold keyIn
  dsimp only
  split
  · split
    · exact .ok _
    · exact .error .wrongType
  · split
    · exact .ok _
    · exact .error .noMember

theorem misreads_readItem (digest : Text → Text) (now : Nat) (item : Json) :
    Misreads (readItem digest now item) ((intake digest now).Breaks item) :=
  (Entry.misreads_ofValue now item).bind fun e =>
    (Entry.misreads_keyIn digest item e).bind fun key => .ok (key, e)

variable (m : Memory)

variable {m} in
theorem addItems_of_error {item : Json} {fault : Fault}
    (h : readItem m.digest now item = .error fault) (items : List Json) :
    m.addItems now (item :: items) = (.error (m.itemFailure fault), m) := by
  rw [readItem] at h
  simp only [addItems, h]

variable {m} in
theorem addItems_of_ok {item : Json} {p : Json × Entry} (h : readItem m.digest now item = .ok p)
    (items : List Json) : m.addItems now (item :: items) =
      addItems { m with cache := Table.insert m.cache p.1 p.2 } now items := by
  rw [readItem] at h
  simp only [addItems, h]

theorem tellsShapes_itemFailure : TellsShapes m.itemFailure where
  shape fault h := by
    cases h with
    | wrongType | noMember | noField name => exact ⟨_, rfl, rfl⟩
  badValue := rfl

theorem reported_addItems (now : Nat) (items : List Json) :
    Reported (m.addItems now items).1
      (Halts (intake m.digest now).Reads (intake m.digest now).Breaks items) := by
  induction items generalizing m with
  | nil => exact (Reported.ok ()).of_iff (iff_of_false not_false halts_nil)
  | cons item items ih =>
    refine .step m.tellsShapes_itemFailure (misreads_readItem m.digest now item) Iff.rfl ?_ ?_
    · intro fault hfault
      rw [addItems_of_error hfault]
    · intro p hp
      rw [addItems_of_ok hp]
      exact ih { m with cache := Table.insert m.cache p.1 p.2 }

theorem exists_overlay_counters_iff {c : Counters} {value? : Option Json} :
    (∃ fault, c.overlay value? = .error fault) ↔
      ∃ value, value? = some value ∧ value.IsNoObject := by
  cases value? with
  | none => simp [Counters.overlay]
  | some value =>
    cases value with
    | obj counts => simp [Counters.overlay, Json.IsNoObject]
    | null | bool _ | int _ | float _ | str _ | arr _ =>
      simp only [Counters.overlay, Json.IsNoObject, Option.some.injEq, exists_eq_left', ne_eq,
        reduceCtorEq, not_false_eq_true, implies_true, and_true]
      split <;> simp_all

theorem breaksOn_iff (now : Nat) (fields : Fields) : (intake m.digest now).BreaksOn fields ↔
    ((∃ fault, Json.overlay m.header (Table.find? fields "metadata".toList) = .error fault) ∨
      ∃ fault, m.counters.overlay (Table.find? fields "stats".toList) = .error fault) ∨
    ∃ items, Json.elementsOrNone (Table.find? fields "entries".toList) = .ok items ∧
      Halts (intake m.digest now).Reads (intake m.digest now).Breaks items := by
  rw [Json.exists_overlay_error_iff, exists_overlay_counters_iff]
  simp [Intake.BreaksOn, intake]

theorem reported_addDocument (now : Nat) (fields : Fields) :
    Reported (m.addDocument now fields).1 ((intake m.digest now).BreaksOn fields) := by
  have hbreaks := m.breaksOn_iff now fields
  unfold addDocument
  cases hheader : Json.overlay m.header (Table.find? fields "metadata".toList) with
  | error fault =>
    rw [hheader] at hbreaks
    exact (Reported.fault fault).of_iff (by simp [hbreaks])
  | ok header =>
    cases hcounters : m.counters.overlay (Table.find? fields "stats".toList) with
    | error fault =>
      rw [hcounters] at hbreaks
      simp only [hcounters]
      exact (Reported.fault fault).of_iff (by simp [hbreaks])
    | ok counters =>
      simp only [hcounters]
      cases hitems : Json.elementsOrNone (Table.find? fields "entries".toList) with
      | error fault =>
        cases Json.elementsOrNone_error hitems
        rw [hheader, hcounters, hitems] at hbreaks
        exact (Reported.error rfl).of_iff (by simp [hbreaks])
      | ok items =>
        rw [hheader, hcounters, hitems] at hbreaks
        refine (reported_addItems { m with header, counters } now items).of_iff ?_
        simp [hbreaks]

theorem reported_save (now : Nat) (v : Volume) : Reported (m.save now v).1 False := by
  unfold save
  rcases v.writeJson_cases m.file (m.document now) with
    ⟨v', hwrite, -⟩ | ⟨e, v', hwrite, hcategory, -⟩
  · rw [hwrite]
    exact .ok ()
  · rw [hwrite]
    exact .error hcategory

theorem load_fst (now : Nat) (v : Volume) : (m.load now v).1 =
    match v.readJson m.file with
    | .error failure => .error failure
    | .ok none => ((m.setHeader "created" (.nat now)).save now v).1
    | .ok (some (.obj fields)) => (m.addDocument now fields).1
    | .ok (some _) => .error (Error.storeNotObject .memory m.file) := by
  unfold load
  rcases v.readJson m.file with failure | (_ | value)
  · rfl
  · rfl
  · cases value <;> rfl

/-- The file of a memory is read in the folder made for it. -/
theorem reported_start (now : Nat) (v : Volume) : Reported (m.start now v).1
    ((v.makeFolder? m.folder).isSome ∧ ∃ content, v.content? m.file = some content ∧
      content.Breaks (intake m.digest now).BreaksOn) := by
  unfold start
  cases hfolder : v.makeFolder? m.folder with
  | none => exact (Reported.error rfl).of_iff (by simp)
  | some v' =>
    simp only [load_fst]
    refine (Volume.reported_readJson (reported_save _ now v') (m.reported_addDocument now)
      rfl).of_iff ?_
    simp [Volume.content?_makeFolder? hfolder]

end Memory

/-! ### The glossary -/

namespace Glossary

def readItem (now : Nat) (item : Json) : Except Fault (Json × Entry) := do
  let e ← Entry.ofValue now item
  return (← e.key, e)

/-- An item with a term ends the reading in a fault if its translations are a list of pairs up to
one that is none. -/
def intake (now : Nat) : Intake where
  overlaid := ["metadata"]
  listed := "terms"
  Reads item := ∃ p, readItem now item = .ok p
  Breaks item := (item.field? "term".toList).isSome ∧
    ∃ translations, item.field? "translations".toList = some translations ∧
      translations.HasLopsided

theorem Entry.misreads_ofValue (now : Nat) (item : Json) :
    Misreads (Entry.ofValue now item) ((intake now).Breaks item) := by
  cases item with
  | obj fields =>
    unfold Entry.ofValue
    dsimp only
    cases hterm : Table.find? fields "term".toList with
    | none => exact (Misreads.error (.noField _)).of_iff (by
      change False ↔ (Table.find? fields "term".toList).isSome ∧ _
      rw [hterm]
      simp)
    | some term =>
      have hbreaks : (intake now).Breaks (.obj fields) ↔
          ∃ translations, Table.find? fields "translations".toList = some translations ∧
            translations.HasLopsided := by
        change (Table.find? fields "term".toList).isSome ∧ _ ↔ _
        rw [hterm]
        exact and_iff_right rfl
      rw [hbreaks]
      exact (Misreads.fieldsOrNone _).bind fun translations => .ok _
  | null | bool _ | int _ | float _ | str _ | arr _ =>
    exact (Misreads.error .wrongType).of_iff (by simp [Json.field?, intake])

theorem Entry.misreads_key (e : Entry) : Misreads e.key False := by
  unfold key keyOf
  split
  · split
    · exact .ok _
    · exact .error .wrongType
  · split
    · exact .ok _
    · exact .error .noMember

theorem misreads_readItem (now : Nat) (item : Json) :
    Misreads (readItem now item) ((intake now).Breaks item) :=
  (Entry.misreads_ofValue now item).bind fun e => e.misreads_key.bind fun key => .ok (key, e)

variable (g : Glossary) (path : Path)

variable {g} {path} in
theorem addItems_of_error {item : Json} {fault : Fault} (h : readItem now item = .error fault)
    (items : List Json) :
    g.addItems path now (item :: items) = (.error (itemFailure path fault), g) := by
  rw [readItem] at h
  simp only [addItems, h]

variable {g} {path} in
theorem addItems_of_ok {item : Json} {p : Json × Entry} (h : readItem now item = .ok p)
    (items : List Json) : g.addItems path now (item :: items) =
      addItems { g with terms := Table.insert g.terms p.1 p.2 } path now items := by
  rw [readItem] at h
  simp only [addItems, h]

theorem tellsShapes_itemFailure : TellsShapes (itemFailure path) where
  shape fault h := by
    cases h with
    | wrongType | noMember | noField name => exact ⟨_, rfl, rfl⟩
  badValue := rfl

theorem reported_addItems (now : Nat) (items : List Json) :
    Reported (g.addItems path now items).1
      (Halts (intake now).Reads (intake now).Breaks items) := by
  induction items generalizing g with
  | nil => exact (Reported.ok ()).of_iff (iff_of_false not_false halts_nil)
  | cons item items ih =>
    refine .step (tellsShapes_itemFailure path) (misreads_readItem now item) Iff.rfl ?_ ?_
    · intro fault hfault
      rw [addItems_of_error hfault]
    · intro p hp
      rw [addItems_of_ok hp]
      exact ih { g with terms := Table.insert g.terms p.1 p.2 }

theorem breaksOn_iff (now : Nat) (fields : Fields) : (intake now).BreaksOn fields ↔
    (∃ fault, Json.overlay g.header (Table.find? fields "metadata".toList) = .error fault) ∨
    ∃ items, Json.elementsOrNone (Table.find? fields "terms".toList) = .ok items ∧
      Halts (intake now).Reads (intake now).Breaks items := by
  rw [Json.exists_overlay_error_iff]
  simp [Intake.BreaksOn, intake]

theorem reported_addDocument (now : Nat) (fields : Fields) :
    Reported (g.addDocument path now fields).1 ((intake now).BreaksOn fields) := by
  have hbreaks := g.breaksOn_iff now fields
  unfold addDocument
  cases hheader : Json.overlay g.header (Table.find? fields "metadata".toList) with
  | error fault =>
    rw [hheader] at hbreaks
    exact (Reported.fault fault).of_iff (by simp [hbreaks])
  | ok header =>
    cases hitems : Json.elementsOrNone (Table.find? fields "terms".toList) with
    | error fault =>
      cases Json.elementsOrNone_error hitems
      rw [hheader, hitems] at hbreaks
      exact (Reported.error rfl).of_iff (by simp [hbreaks])
    | ok items =>
      rw [hheader, hitems] at hbreaks
      refine (reported_addItems { g with header } path now items).of_iff ?_
      simp [hbreaks]

theorem reported_saved {α : Type} (now : Nat) (v : Volume) (a : α) :
    Reported (g.saved now v a).1 False := by
  unfold saved save
  cases g.path with
  | none => exact .ok a
  | some path =>
    rcases v.writeJson_cases path (g.document now) with
      ⟨v', hwrite, -⟩ | ⟨e, v', hwrite, hcategory, -⟩
    · simp only [hwrite]
      exact .ok a
    · simp only [hwrite]
      exact .error hcategory

variable {g path}

theorem load_fst (hpath : g.path = some path) (now : Nat) (v : Volume) : (g.load now v).1 =
    match v.readJson path with
    | .error failure => .error failure
    | .ok none => ((g.setHeader "created" (.nat now)).saved now v ()).1
    | .ok (some (.obj fields)) => (g.addDocument path now fields).1
    | .ok (some _) => .error (Error.storeNotObject .glossary path) := by
  unfold load
  simp only [hpath]
  rcases v.readJson path with failure | (_ | value)
  · rfl
  · rfl
  · cases value <;> rfl

variable (g)

/-- The file of a glossary, if it has one, is read in the folder made for it. -/
theorem reported_start (now : Nat) (v : Volume) : Reported (g.start now v).1
    (∃ path, g.path = some path ∧ (v.makeFolder? path.parent).isSome ∧
      ∃ content, v.content? path = some content ∧ content.Breaks (intake now).BreaksOn) := by
  unfold start
  cases hpath : g.path with
  | none => exact (Reported.ok ()).of_iff (by simp)
  | some path =>
    simp only
    cases hfolder : v.makeFolder? path.parent with
    | none => exact (Reported.error rfl).of_iff (by simp [hfolder])
    | some v' =>
      simp only [load_fst hpath]
      refine (Volume.reported_readJson (reported_saved _ now v' ())
        (g.reported_addDocument path now) rfl).of_iff ?_
      simp [Volume.content?_makeFolder? hfolder, hfolder]

end Glossary

/-! ### The three loaders -/

theorem Locale.reported_load (v : Volume) (p : Path) :
    Reported (Locale.load v p) (∃ b, v.content? p = some (.bytes b)) := by
  have hfields (fields : Fields) : Reported (.ok fields : Except Failure Fields) False := .ok fields
  have hother : (Error.localeNotObject p).category = .persistence := rfl
  have hbreaks (content : Content) : content.Breaks (fun _ => False) ↔ ∃ b, content = .bytes b := by
    cases content <;> simp [Content.Breaks]
  unfold load
  refine (Volume.reported_readJson (.ok []) hfields hother).of_iff ?_
  simp only [hbreaks]
  exact ⟨fun ⟨_, hcontent, b, hb⟩ => ⟨b, hb ▸ hcontent⟩, fun ⟨b, hb⟩ => ⟨_, hb, b, rfl⟩⟩

/-- Whatever a file holds, reading it as a memory, as a glossary or as the translations of a
language succeeds or ends in an error of the persistence, unless it holds bytes that encode no text
or, for the stores, a document that is taken in with a fault: exactly then there is a fault. -/
theorem damage_reported_or_fault (m : Memory) (g : Glossary) (now : Nat) (v : Volume) (p : Path) :
    Reported (m.start now v).1
      ((v.makeFolder? m.folder).isSome ∧ ∃ content, v.content? m.file = some content ∧
        content.Breaks (Memory.intake m.digest now).BreaksOn) ∧
    Reported (g.start now v).1
      (∃ path, g.path = some path ∧ (v.makeFolder? path.parent).isSome ∧
        ∃ content, v.content? path = some content ∧
          content.Breaks (Glossary.intake now).BreaksOn) ∧
    Reported (Locale.load v p) (∃ b, v.content? p = some (.bytes b)) :=
  ⟨Memory.reported_start m now v, Glossary.reported_start g now v, Locale.reported_load v p⟩

example : ((Memory.empty ⟨false, ["mem".toList]⟩ Memory.shortDigest 50).start 0 (.ofEntries
    [("mem".toList, .folder [("memory.json".toList, .file (.bytes [0xff]))])])).1 =
      .error Fault.notText := by
  rfl

end Localize
