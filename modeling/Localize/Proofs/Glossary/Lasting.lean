import Localize.Glossary.Basic
import Localize.Proofs.Json.Sound
import Localize.Proofs.Volume.Writing

/-!
# Glossaries that a document can hold

An entry is read back from its item if its values can be written and none of them is taken for
missing. Every entry that is made, changed or read is of that kind, as long as the clock is not at
zero. A glossary of such entries under their own keys is read back from its file.
-/

namespace Localize.Glossary

/-! ### Entries -/

/-- A value that a document can hold, and that a reader keeps who puts the default in place of what
counts as nothing. -/
structure Filled (default value : Json) : Prop where
  sound : value.Sound
  kept : value.orElse default = value

theorem filled_orElse {default value other : Json} (h : value.Sound)
    (hother : Filled default other) : Filled default (value.orElse other) := by
  refine ⟨Json.sound_orElse h hother.sound, ?_⟩
  by_cases hvalue : value.isSomething = true
  · simp only [Json.orElse, hvalue, if_true]
  · rw [Json.orElse, Json.orElse, if_neg hvalue]
    exact hother.kept

theorem filled_default {default : Json} (h : default.Sound) : Filled default default :=
  ⟨h, ite_self _⟩

theorem filled_category : Filled defaultCategory defaultCategory := filled_default (.str _)

theorem filled_blank : Filled (.str []) (.str []) := filled_default (.str _)

/-- A time that is kept whenever it is read. -/
def Timed (time : Json) : Prop := ∀ now, Filled (.nat now) time

theorem timed_nat {now : Nat} (h : 0 < now) : Timed (.nat now) := by
  intro again
  have hsomething : (Json.nat now).isSomething = true := by
    simpa [Json.nat, Json.isSomething] using h.ne'
  exact ⟨.int _, if_pos hsomething⟩

theorem Entry.sound_toJson {e : Entry} (hterm : e.term.Sound)
    (htranslations : (Json.obj e.translations).Sound) (hcategory : e.category.Sound)
    (hdescription : e.description.Sound) (hcontext : e.context.Sound)
    (hcreated : e.createdAt.Sound) (hupdated : e.updatedAt.Sound) : e.toJson.Sound :=
  Json.sound_record (by simp) ⟨hterm, htranslations, hcategory, hdescription, .bool _, .bool _,
    hcontext, hcreated, hupdated⟩

/-- A written case flag is read back. -/
theorem decide_bool_ne_false (b : Bool) : decide (Json.bool b ≠ .bool false) = b := by
  cases b with
  | false => rfl
  | true => rfl

/-- An entry that a document can hold and that is read back from it. -/
structure Entry.Lasting (e : Entry) : Prop where
  term : e.term.Sound
  translations : (Json.obj e.translations).Sound
  category : Filled defaultCategory e.category
  description : Filled (.str []) e.description
  context : Filled (.str []) e.context
  createdAt : Timed e.createdAt
  updatedAt : Timed e.updatedAt

namespace Entry.Lasting

variable {e : Entry}

theorem sound_toJson (h : e.Lasting) : e.toJson.Sound :=
  Entry.sound_toJson h.term h.translations h.category.sound h.description.sound h.context.sound
    (h.createdAt 0).sound (h.updatedAt 0).sound

/-- The item of an entry is read as the entry. -/
theorem ofValue_toJson (h : e.Lasting) (now : Nat) : Entry.ofValue now e.toJson = .ok e := by
  have hread : Entry.ofValue now e.toJson =
      (Json.fieldsOrNone (some (.obj e.translations))).bind fun translations =>
        .ok { e with
          translations
          category := e.category.orElse defaultCategory
          description := e.description.orElse (.str [])
          caseSensitive := decide (Json.bool e.caseSensitive ≠ .bool false)
          context := e.context.orElse (.str [])
          createdAt := e.createdAt.orElse (.nat now)
          updatedAt := e.updatedAt.orElse (.nat now) } := rfl
  rw [hread, Json.fieldsOrNone_obj, decide_bool_ne_false, h.category.kept, h.description.kept,
    h.context.kept, (h.createdAt now).kept, (h.updatedAt now).kept]
  rfl

end Entry.Lasting

/-- What is given for a new term are values that a document can hold. -/
structure Draft.Sound (d : Draft) : Prop where
  translations : d.translations.Sound
  category : d.category.Sound
  description : d.description.Sound
  context : d.context.Sound

theorem lasting_draft {d : Draft} (h : d.Sound) {now : Nat} (hnow : 0 < now) {e : Entry}
    (he : d.entry now = .ok e) : e.Lasting := by
  unfold Draft.entry at he
  split at he
  · next term _ =>
    split_ifs at he
    split at he
    · cases he
    · next translations htranslations =>
      cases he
      exact {
        term := .str _
        translations := Json.sound_fieldsOrNone (by simpa using h.translations) htranslations
        category := filled_orElse h.category filled_category
        description := filled_orElse h.description filled_blank
        context := filled_orElse h.context filled_blank
        createdAt := timed_nat hnow
        updatedAt := timed_nat hnow }
  · cases he

/-- What an item of a document asks to add are values that a document can hold. -/
theorem sound_ofItem? {item : Json} (h : item.Sound) {draft : Draft}
    (hdraft : Draft.ofItem? item = some draft) : draft.Sound := by
  have hget (name : String) {missing : Json} (hmissing : missing.Sound) :
      ((item.field? name.toList).getD missing).Sound := h.getD_field? name.toList hmissing
  unfold Draft.ofItem? at hdraft
  dsimp only at hdraft
  split_ifs at hdraft
  cases hdraft
  exact ⟨hget _ .null, hget _ .null, hget _ (.str []), hget _ (.str [])⟩

/-- What is given to change a term are values that a document can hold. -/
structure Revision.Sound (r : Revision) : Prop where
  translations : ∀ f ∈ r.translations, f.2.Sound
  category : r.category.Sound
  description : r.description.Sound
  context : r.context.Sound

theorem Entry.Lasting.revise {e : Entry} (h : e.Lasting) {r : Revision} (hr : r.Sound) {now : Nat}
    (hnow : 0 < now) : (r.apply now e).Lasting where
  term := h.term
  translations := h.translations.merge hr.translations
  category := filled_orElse hr.category h.category
  description := filled_orElse hr.description h.description
  context := filled_orElse hr.context h.context
  createdAt := h.createdAt
  updatedAt := timed_nat hnow

/-- What an item of a document gives under a name. -/
def given (item : Json) (name : String) : Json := (item.field? name.toList).getD .null

/-- The entry that an item with a term is read as. -/
def entryIn (item term : Json) (translations : Fields) (now : Nat) : Entry where
  term := term
  translations := translations
  category := (given item "category").orElse defaultCategory
  description := (given item "description").orElse (.str [])
  caseSensitive := given item "caseSensitive" ≠ .bool false
  doNotTranslate := (given item "doNotTranslate").isSomething
  context := (given item "context").orElse (.str [])
  createdAt := (given item "createdAt").orElse (.nat now)
  updatedAt := (given item "updatedAt").orElse (.nat now)

theorem ofValue_eq_ok_iff {item : Json} {now : Nat} {e : Entry} :
    Entry.ofValue now item = .ok e ↔ ∃ term translations, item.field? "term".toList = some term ∧
      Json.fieldsOrNone (item.field? "translations".toList) = .ok translations ∧
      e = entryIn item term translations now := by
  cases item with
  | obj fields =>
    unfold Entry.ofValue
    dsimp only [Json.field?]
    cases Table.find? fields "term".toList with
    | none => simp
    | some term =>
      cases Json.fieldsOrNone (Table.find? fields "translations".toList) with
      | error fault => simp [bind, Except.bind]
      | ok translations =>
        constructor
        · intro h
          cases h
          exact ⟨term, translations, rfl, rfl, rfl⟩
        · rintro ⟨_, _, hterm, htranslations, rfl⟩
          cases hterm
          cases htranslations
          rfl
  | null | bool _ | int _ | float _ | str _ | arr _ => simp [Entry.ofValue, Json.field?]

theorem lasting_ofValue {item : Json} (hitem : item.Sound) {now : Nat} (hnow : 0 < now) {e : Entry}
    (h : Entry.ofValue now item = .ok e) : e.Lasting := by
  obtain ⟨term, translations, hterm, htranslations, rfl⟩ := ofValue_eq_ok_iff.mp h
  have hgiven (name : String) : (given item name).Sound := hitem.getD_field? name.toList .null
  have htime (name : String) : Timed ((given item name).orElse (.nat now)) := fun again =>
    filled_orElse (hgiven name) (timed_nat hnow again)
  exact {
    term := hitem.field? hterm
    translations := Json.sound_fieldsOrNone (fun _ => hitem.field?) htranslations
    category := filled_orElse (hgiven _) filled_category
    description := filled_orElse (hgiven _) filled_blank
    context := filled_orElse (hgiven _) filled_blank
    createdAt := htime _
    updatedAt := htime _ }

/-! ### Glossaries -/

/-- A glossary that a document can hold, every term under its own key. -/
structure Lasting (g : Glossary) : Prop where
  distinct : (Table.keys g.terms).Nodup
  keyed : ∀ p ∈ g.terms, p.2.key = .ok p.1
  entries : ∀ p ∈ g.terms, p.2.Lasting
  header : (Json.obj g.header).Sound

variable {g g' : Glossary} {v v' : Volume} {now : Nat} {path : Path} {key : Json} {e : Entry}

namespace Lasting

theorem insert (h : g.Lasting) (he : e.Lasting) (hkey : e.key = .ok key) :
    Lasting { g with terms := Table.insert g.terms key e } := by
  refine { h with distinct := Table.nodup_keys_insert h.distinct _ _, keyed := ?_, entries := ?_ }
  · intro p hp
    obtain rfl | hp := Table.of_mem_insert hp
    · exact hkey
    · exact h.keyed p hp
  · intro p hp
    obtain rfl | hp := Table.of_mem_insert hp
    · exact he
    · exact h.entries p hp

theorem erase (h : g.Lasting) (key : Json) :
    Lasting { g with terms := Table.erase g.terms key } :=
  { h with
    distinct := Table.nodup_keys_erase h.distinct key
    keyed := fun p hp => h.keyed p ((Table.erase_sublist g.terms key).subset hp)
    entries := fun p hp => h.entries p ((Table.erase_sublist g.terms key).subset hp) }

theorem clear (h : g.Lasting) : Lasting { g with terms := [] } :=
  { h with distinct := List.nodup_nil, keyed := by simp, entries := by simp }

theorem setHeader (h : g.Lasting) (name : String) {value : Json} (hvalue : value.Sound) :
    (g.setHeader name value).Lasting :=
  { h with header := h.header.insert hvalue name.toList }

theorem sound_document (h : g.Lasting) (now : Nat) : (g.document now).Sound := by
  refine Json.sound_record (by simp) ⟨h.header.insert (.int _) _, .arr fun item hitem => ?_⟩
  obtain ⟨e, he, rfl⟩ := List.mem_map.mp hitem
  obtain ⟨p, hp, rfl⟩ := List.mem_map.mp he
  exact (h.entries p hp).sound_toJson

end Lasting

theorem lasting_empty (path : Option Path) : (Glossary.empty path).Lasting where
  distinct := List.nodup_nil
  keyed := by simp [Glossary.empty]
  entries := by simp [Glossary.empty]
  header := Json.sound_record (by simp) ⟨.str _, .null, .null⟩

/-! ### Reading -/

/-- The entry of an item under its key. -/
theorem readItem_eq_ok_iff {item : Json} :
    (do let e ← Entry.ofValue now item; return (← e.key, e) : Except Fault (Json × Entry)) =
      .ok (key, e) ↔ Entry.ofValue now item = .ok e ∧ e.key = .ok key := by
  rw [bind_ok_iff]
  constructor
  · rintro ⟨e', hvalue, h⟩
    obtain ⟨key', hkey, h⟩ := bind_ok_iff.mp h
    cases h
    exact ⟨hvalue, hkey⟩
  · rintro ⟨hvalue, hkey⟩
    exact ⟨e, hvalue, bind_ok_iff.mpr ⟨key, hkey, rfl⟩⟩

/-- The items of a glossary are read as its entries under its keys. -/
theorem addItems_toJson {terms : Table Json Entry} (hkeyed : ∀ p ∈ terms, p.2.key = .ok p.1)
    (hentries : ∀ p ∈ terms, p.2.Lasting) (g : Glossary) (path : Path) (now : Nat) :
    g.addItems path now (terms.values.map Entry.toJson) =
      (.ok (), { g with terms := Table.merge g.terms terms }) := by
  induction terms generalizing g with
  | nil => rfl
  | cons p terms ih =>
    obtain ⟨hkey, hkeys⟩ := List.forall_mem_cons.mp hkeyed
    obtain ⟨hentry, hothers⟩ := List.forall_mem_cons.mp hentries
    obtain ⟨key, e⟩ := p
    have hread := readItem_eq_ok_iff.mpr ⟨hentry.ofValue_toJson now, hkey⟩
    rw [Table.values, List.map_cons, List.map_cons, addItems, hread]
    exact ih hkeys hothers _

/-- Whatever items are read, every entry is under its own key. -/
theorem Lasting.addItems {items : List Json} (hitems : ∀ item ∈ items, item.Sound)
    (hnow : 0 < now) (h : g.Lasting) (hadd : g.addItems path now items = (.ok (), g')) :
    g'.Lasting ∧ g'.path = g.path := by
  induction items generalizing g with
  | nil =>
    cases hadd
    exact ⟨h, rfl⟩
  | cons item items ih =>
    obtain ⟨hitem, hitems⟩ := List.forall_mem_cons.mp hitems
    rw [Glossary.addItems] at hadd
    split at hadd
    · cases hadd
    · next key e hread =>
      obtain ⟨hvalue, hkey⟩ := readItem_eq_ok_iff.mp hread
      have hrest := ih hitems (h.insert (lasting_ofValue hitem hnow hvalue) hkey) hadd
      exact hrest

end Localize.Glossary
