import Localize.Proofs.Memory.Atomic
import Localize.Proofs.Glossary.Atomic

/-!
# Imports that stop

The items of a foreign document are gone through in order. Some are passed over; those with all that
is needed are taken into the store, one after another; an item that is asked for and cannot be taken
stops the import. So where the own file can be written an import either takes all items that it does
not pass over and tells their number, or it ends as the first item does that stops it, and then the
items in front of that one are in the store.
-/

namespace Localize

/-! ### Outcomes of an import -/

/-- What an import tells: the number of items taken, or what stopped it. -/
def countOrEnd (count : Nat) : Option Failure → Except Failure Nat
  | none => .ok count
  | some failure => .error failure

/-- How an import ends, and what is left of the store. An item is judged by itself, `TakesIn` says what
is left when items are taken, and `Breaks` where the first of them ends the import as it is taken. -/
inductive Imported {S ι : Type} (kind : StoreKind) (listed : String)
    (Judged : Json → Except Failure (Option ι) → Prop) (TakesIn : List ι → S → Prop)
    (Breaks : ι → Failure → S → Prop) (s : S) (v : Volume) (origin : Text) :
    Except Failure Nat → S → Prop
  | unreadable {failure : Failure} (hread : v.readJson (.ofText origin) = .error failure) :
      Imported kind listed Judged TakesIn Breaks s v origin (.error failure) s
  | missing (hread : v.readJson (.ofText origin) = .ok none) :
      Imported kind listed Judged TakesIn Breaks s v origin
        (.error (Error.importMissing kind origin)) s
  | noList {document : Json} {fault : Fault}
      (hread : v.readJson (.ofText origin) = .ok (some document))
      (hitems : Json.elementsOrNone (document.field? listed.toList) = .error fault) :
      Imported kind listed Judged TakesIn Breaks s v origin (.error fault) s
  | sifted {document : Json} {items : List Json} {taken : List ι} {ending : Option Failure} {s' : S}
      (hread : v.readJson (.ofText origin) = .ok (some document))
      (hitems : Json.elementsOrNone (document.field? listed.toList) = .ok items)
      (hsifted : Sifted Judged items taken ending) (htakes : TakesIn taken s') :
      Imported kind listed Judged TakesIn Breaks s v origin (countOrEnd taken.length ending) s'
  | broken {document : Json} {items : List Json} {first : ι} {taken : List ι}
      {ending : Option Failure} {failure : Failure} {s' : S}
      (hread : v.readJson (.ofText origin) = .ok (some document))
      (hitems : Json.elementsOrNone (document.field? listed.toList) = .ok items)
      (hsifted : Sifted Judged items (first :: taken) ending) (hbreaks : Breaks first failure s') :
      Imported kind listed Judged TakesIn Breaks s v origin (.error failure) s'

variable {v v' : Volume} {now : Nat} {item : Json} {items : List Json} {fields : Fields}

/-! ### The memory -/

namespace Memory

/-- A text with its translation as another memory gives them. -/
structure Foreign where
  direction : Direction
  source : Text
  translation : Text
  verified : Bool

/-- The fields of an item give a source and a translation with something in them and both
languages. -/
structure Foreign.IsIn (x : Foreign) (fields : Fields) : Prop where
  source : Table.find? fields "source".toList = some (.str x.source)
  sourceText : Text.allBlank x.source = false
  translation : Table.find? fields "translation".toList = some (.str x.translation)
  translationText : Text.allBlank x.translation = false
  sourceLang : Table.find? fields "sourceLang".toList = some x.direction.source
  targetLang : Table.find? fields "targetLang".toList = some x.direction.target
  verified : x.verified =
    ((Table.find? fields "verified".toList).getD (.bool false)).isSomething

/-- The entry of an item under its key. -/
def Foreign.pair (digest : Text → Text) (now : Nat) (x : Foreign) : Json × Entry :=
  (.str (keyOf digest x.direction x.source),
    Entry.ofTranslation now x.direction x.source x.translation x.verified (keptNotes []))

/-- An item has a source that does not count as nothing and a translation that is not blank. -/
def IsAsked (fields : Fields) : Prop :=
  (∃ source, Table.find? fields "source".toList = some source ∧ source.isSomething = true) ∧
    ∃ t, Table.find? fields "translation".toList = some (.str t) ∧ Text.allBlank t = false

/-- What becomes of an item: it is passed over, or it gives something to store, or it stops the
import. -/
inductive Judged : Json → Except Failure (Option Foreign) → Prop
  | sourceless {fields : Fields}
      (hsource : ∀ source, Table.find? fields "source".toList = some source →
        source.isSomething = false) : Judged (.obj fields) (.ok none)
  | untranslated {fields : Fields}
      (htranslation : ∀ t, Table.find? fields "translation".toList = some (.str t) →
        Text.allBlank t = true) : Judged (.obj fields) (.ok none)
  | wellFormed {fields : Fields} {x : Foreign} (h : x.IsIn fields) :
      Judged (.obj fields) (.ok (some x))
  | noObject {item : Json} (h : ∀ fields, item ≠ .obj fields) :
      Judged item (.error Fault.noMember)
  | noSourceLang {fields : Fields} (hasked : IsAsked fields)
      (hlang : Table.find? fields "sourceLang".toList = none) :
      Judged (.obj fields) (.error (Fault.noField "sourceLang".toList))
  | noTargetLang {fields : Fields} (hasked : IsAsked fields)
      (hsource : (Table.find? fields "sourceLang".toList).isSome)
      (hlang : Table.find? fields "targetLang".toList = none) :
      Judged (.obj fields) (.error (Fault.noField "targetLang".toList))
  | badSource {fields : Fields} (hasked : IsAsked fields)
      (hsourceLang : (Table.find? fields "sourceLang".toList).isSome)
      (htargetLang : (Table.find? fields "targetLang".toList).isSome)
      (hsource : ∀ t, Table.find? fields "source".toList = some (.str t) →
        Text.allBlank t = true) : Judged (.obj fields) (.error Error.emptySourceText)

theorem importable?_of_isAsked (h : IsAsked fields) : ∃ source t,
    Table.find? fields "source".toList = some source ∧
    Table.find? fields "translation".toList = some (.str t) ∧ Text.allBlank t = false ∧
    importable? (.obj fields) = do
      let sourceLang ← Entry.required fields "sourceLang"
      let targetLang ← Entry.required fields "targetLang"
      return some (⟨sourceLang, targetLang⟩, source, .str t,
        ((Table.find? fields "verified".toList).getD (.bool false)).isSomething) := by
  obtain ⟨⟨source, hsource, hsome⟩, t, ht, hblank⟩ := h
  refine ⟨source, t, hsource, ht, hblank, ?_⟩
  simp only [importable?, hsource, ht, Option.getD_some, hsome, hblank]
  rfl

theorem Foreign.IsIn.isAsked {x : Foreign} (h : x.IsIn fields) : IsAsked fields := by
  refine ⟨⟨_, h.source, ?_⟩, _, h.translation, h.translationText⟩
  have hnonempty : x.source ≠ [] := by
    intro hempty
    have hblank := h.sourceText
    rw [hempty] at hblank
    cases hblank
  cases hsource : x.source with
  | nil => exact absurd hsource hnonempty
  | cons c rest => rfl

theorem exists_judged (item : Json) : ∃ r, Judged item r := by
  cases item with
  | obj fields =>
    by_cases hasked : IsAsked fields
    · have ⟨⟨source, hsource, _⟩, t, ht, hblank⟩ := hasked
      cases hsourceLang : Table.find? fields "sourceLang".toList with
      | none => exact ⟨_, .noSourceLang hasked hsourceLang⟩
      | some sourceLang =>
        cases htargetLang : Table.find? fields "targetLang".toList with
        | none => exact ⟨_, .noTargetLang hasked (by rw [hsourceLang]; rfl) htargetLang⟩
        | some targetLang =>
          by_cases htext : ∃ u, source = .str u ∧ Text.allBlank u = false
          · obtain ⟨u, rfl, hu⟩ := htext
            exact ⟨_, .wellFormed (x := ⟨⟨sourceLang, targetLang⟩, u, t, _⟩)
              ⟨hsource, hu, ht, hblank, hsourceLang, htargetLang, rfl⟩⟩
          · refine ⟨_, .badSource hasked (by rw [hsourceLang]; rfl) (by rw [htargetLang]; rfl) ?_⟩
            intro u hu
            by_contra hnot
            exact htext ⟨u, Option.some.inj (hsource.symm.trans hu), Bool.eq_false_iff.mpr hnot⟩
    · rcases not_and_or.mp hasked with hsource | htranslation
      · exact ⟨_, .sourceless fun source hfind => Bool.eq_false_iff.mpr fun hsome =>
          hsource ⟨source, hfind, hsome⟩⟩
      · refine ⟨_, .untranslated fun t hfind => ?_⟩
        by_contra hnot
        exact htranslation ⟨t, hfind, Bool.eq_false_iff.mpr hnot⟩
  | null | bool _ | int _ | float _ | str _ | arr _ => exact ⟨_, .noObject (by simp)⟩

variable {m m' : Memory} {x : Foreign} {taken : List Foreign} {ending : Option Failure}
  {failure : Failure} {count : Nat}

/-! #### One item -/

theorem importItems_of_passed (h : Judged item (.ok none)) (rest : List Json) :
    m.importItems now v count (item :: rest) = m.importItems now v count rest := by
  have hnone : importable? item = .ok none := by
    cases h with
    | @sourceless fields hsource =>
      have hnothing : ((Table.find? fields "source".toList).getD .null).isSomething = false := by
        cases hfind : Table.find? fields "source".toList with
        | none => rfl
        | some source => exact hsource source hfind
      simp only [importable?, hnothing]
      split
      · rfl
      · rfl
    | @untranslated fields htranslation =>
      simp only [importable?]
      split
      · next t ht =>
        rw [htranslation t ht]
        simp
      · rfl
  rw [importItems, hnone]

theorem importable?_of_taken (h : Judged item (.ok (some x))) :
    importable? item = .ok (some (x.direction, .str x.source, .str x.translation, x.verified)) := by
  cases h with
  | @wellFormed fields x h =>
    obtain ⟨source, t, hsource, ht, -, himportable⟩ := importable?_of_isAsked h.isAsked
    obtain rfl : source = .str x.source := Option.some.inj (hsource.symm.trans h.source)
    obtain rfl : t = x.translation :=
      Json.str.inj (Option.some.inj (ht.symm.trans h.translation))
    rw [himportable, h.verified]
    simp only [Entry.required, h.sourceLang, h.targetLang]
    rfl

theorem importItems_of_stopped (h : Judged item (.error failure)) (rest : List Json) :
    m.importItems now v count (item :: rest) = (.error failure, m, v) := by
  cases h with
  | noObject h =>
    cases item with
    | obj fields => exact absurd rfl (h fields)
    | null | bool _ | int _ | float _ | str _ | arr _ => rfl
  | noSourceLang hasked hlang =>
    obtain ⟨source, t, -, -, -, himportable⟩ := importable?_of_isAsked hasked
    simp only [Entry.required, hlang] at himportable
    rw [importItems, himportable]
    rfl
  | noTargetLang hasked hsource hlang =>
    obtain ⟨source, t, -, -, -, himportable⟩ := importable?_of_isAsked hasked
    obtain ⟨sourceLang, hsourceLang⟩ := Option.isSome_iff_exists.mp hsource
    simp only [Entry.required, hsourceLang, hlang] at himportable
    rw [importItems, himportable]
    rfl
  | badSource hasked hsourceLang htargetLang hsource =>
    obtain ⟨source, t, hfind, -, -, himportable⟩ := importable?_of_isAsked hasked
    obtain ⟨sourceLang, hsourceLang⟩ := Option.isSome_iff_exists.mp hsourceLang
    obtain ⟨targetLang, htargetLang⟩ := Option.isSome_iff_exists.mp htargetLang
    simp only [Entry.required, hsourceLang, htargetLang] at himportable
    rw [importItems, himportable]
    cases source with
    | str u => simp [store, hsource u hfind, Bind.bind, Except.bind, Pure.pure, Except.pure]
    | null | bool _ | int _ | float _ | arr _ | obj _ => rfl

/-! #### All items -/

/-- The own file can be written. -/
def CanSave (m : Memory) (v : Volume) : Prop := v.CanWrite m.file

/-- Entries in place of others, where additions can be counted. -/
def TakesIn (m : Memory) (now : Nat) (taken : List Foreign) (m' : Memory) : Prop :=
  (taken = [] ∨ m.counters.additions.quantity?.isSome) ∧
    m.Holds (taken.map (Foreign.pair m.digest now)) m'

/-- Where additions cannot be counted, the first entry is put into the table and the import ends. -/
def Breaks (m : Memory) (now : Nat) (first : Foreign) (failure : Failure) (m' : Memory) : Prop :=
  m.counters.additions.quantity? = none ∧ failure = Fault.wrongType ∧
    m'.cache = Table.merge m.cache [first.pair m.digest now]

theorem CanSave.saved {α : Type} (h : m.CanSave v) (now : Nat) (a : α) :
    ∃ v', m.saved now v a = (.ok a, m, v') ∧ m.CanSave v' := by
  obtain ⟨v', hwrite, hcan⟩ := Volume.CanWrite.writeJson h (m.document now)
  refine ⟨v', ?_, hcan⟩
  simp only [Memory.saved, save, hwrite]

theorem CanSave.congr (h : m.CanSave v) (hfolder : m'.folder = m.folder) : m'.CanSave v := by
  unfold CanSave file at *
  rwa [hfolder]

/-- An entry that is taken is in the table, whether the file is written behind it or not. -/
theorem CanSave.store (h : m.CanSave v) (hcount : m.counters.additions.quantity?.isSome)
    (now : Nat) (hsource : Text.allBlank x.source = false) :
    ∃ m₁ v₁ e, m.store now v x.direction (.str x.source) (.str x.translation) [] x.verified =
        (.ok e, m₁, v₁) ∧ m.Holds [x.pair m.digest now] m₁ ∧ m₁.CanSave v₁ := by
  obtain ⟨m₁, e, hholds, he, hstore | hstore⟩ := store_storable (u := x.translation) hcount now v
    x.direction hsource [] x.verified
  · rw [he] at hholds
    exact ⟨m₁, v, e, hstore, hholds, h.congr hholds.folder⟩
  · rw [he] at hholds
    obtain ⟨v₁, hsaved, hcan⟩ := (h.congr hholds.folder).saved now e
    exact ⟨m₁, v₁, e, hstore.trans hsaved, hholds, hcan⟩

theorem importItems_sifted (now count : Nat) (hsifted : Sifted Judged items taken ending)
    (hcount : taken = [] ∨ m.counters.additions.quantity?.isSome) (h : m.CanSave v) :
    ∃ m' v', m.importItems now v count items = (countOrEnd (count + taken.length) ending, m', v') ∧
      m.Holds (taken.map (Foreign.pair m.digest now)) m' ∧ m'.CanSave v' := by
  induction hsifted generalizing m v count with
  | done => exact ⟨m, v, rfl, .refl m, h⟩
  | passed hitem _ ih =>
    rw [importItems_of_passed hitem]
    exact ih count hcount h
  | @taken item x items taken ending hitem _ ih =>
    have hcounted := hcount.resolve_left (List.cons_ne_nil _ _)
    have hsource : Text.allBlank x.source = false := by
      cases hitem with
      | wellFormed hx => exact hx.sourceText
    obtain ⟨m₁, v₁, e, hstore, hholds, hcan⟩ := h.store hcounted now hsource
    obtain ⟨m', v', himport, hholds', hcan'⟩ :=
      ih (count + 1) (.inr (hholds.additions.mpr hcounted)) hcan
    simp only [importItems, importable?_of_taken hitem, hstore]
    rw [hholds.digest] at hholds'
    refine ⟨m', v', ?_, hholds.trans hholds', hcan'⟩
    rw [himport, List.length_cons, Nat.add_assoc, Nat.add_comm 1]
  | ended hitem =>
    rw [importItems_of_stopped hitem]
    exact ⟨m, v, rfl, .refl m, h⟩

theorem importItems_broken (now : Nat) (v : Volume) (count : Nat)
    (hsifted : Sifted Judged items (x :: taken) ending)
    (hcount : m.counters.additions.quantity? = none) : ∃ m',
    m.importItems now v count items = (.error Fault.wrongType, m', v) ∧
      m'.cache = Table.merge m.cache [x.pair m.digest now] := by
  generalize hall : x :: taken = all at hsifted
  induction hsifted with
  | done => cases hall
  | passed hitem _ ih =>
    rw [importItems_of_passed hitem]
    exact ih hall
  | taken hitem _ _ =>
    cases hall
    have hsource : Text.allBlank x.source = false := by
      cases hitem with
      | wellFormed hx => exact hx.sourceText
    have hsame (e : Entry) : (m.setEntry x.direction x.source e).counters = m.counters := rfl
    simp only [importItems, importable?_of_taken hitem, store, hsource, put, hsame, Counters.next,
      hcount, Bool.false_eq_true, if_false]
    exact ⟨_, rfl, rfl⟩
  | ended _ => cases hall

theorem imported (h : m.CanSave v) (now : Nat) (origin : Text) :
    Imported .memory "entries" Judged (m.TakesIn now) (m.Breaks now) m v origin
      (m.importFrom now v origin).1 (m.importFrom now v origin).2.1 := by
  rcases hread : v.readJson (.ofText origin) with failure | _ | document
  · simp only [importFrom, hread]
    exact .unreadable hread
  · simp only [importFrom, hread]
    exact .missing hread
  · rcases hitems : Json.elementsOrNone (document.field? "entries".toList) with fault | items
    · simp only [importFrom, hread, hitems]
      exact .noList hread hitems
    · obtain ⟨taken, ending, hsifted⟩ := exists_sifted exists_judged items
      by_cases hcount : taken = [] ∨ m.counters.additions.quantity?.isSome
      · obtain ⟨m', v', himport, hholds, hcan⟩ := importItems_sifted now 0 hsifted hcount h
        rw [Nat.zero_add] at himport
        have hleft : Imported .memory "entries" Judged (m.TakesIn now) (m.Breaks now) m v origin
            (countOrEnd taken.length ending) m' := .sifted hread hitems hsifted ⟨hcount, hholds⟩
        cases ending with
        | none =>
          obtain ⟨v'', hsaved, -⟩ := hcan.saved now taken.length
          simp only [importFrom, hread, hitems, himport, countOrEnd, hsaved]
          exact hleft
        | some failure =>
          simp only [importFrom, hread, hitems, himport, countOrEnd]
          exact hleft
      · obtain ⟨htaken, hnone⟩ := not_or.mp hcount
        obtain ⟨first, rest, rfl⟩ := List.exists_cons_of_ne_nil htaken
        rw [Option.not_isSome_iff_eq_none] at hnone
        obtain ⟨m', himport, hcache⟩ := importItems_broken now v 0 hsifted hnone
        simp only [importFrom, hread, hitems, himport]
        exact .broken hread hitems hsifted ⟨hnone, rfl, hcache⟩

end Memory

/-! ### The glossary -/

namespace Glossary

/-- The entry that an item of a foreign document asks for. -/
def Entry.ofForeign (now : Nat) (item : Json) (term : Text) (translations : Fields) : Entry :=
  let get (name : String) (missing : Json) : Json := (item.field? name.toList).getD missing
  { term := .str (Text.strip term)
    translations
    category := (get "category" .null).orElse defaultCategory
    description := (get "description" (.str [])).orElse (.str [])
    caseSensitive := get "caseSensitive" (.bool true) ≠ .bool false
    doNotTranslate := (get "doNotTranslate" (.bool false)).isSomething
    context := (get "context" (.str [])).orElse (.str [])
    createdAt := .nat now
    updatedAt := .nat now }

/-- The entry of an item under its key. -/
def Entry.pairOfForeign (now : Nat) (item : Json) (term : Text) (translations : Fields) :
    Json × Entry :=
  let e := ofForeign now item term translations
  (.str (if e.caseSensitive then Text.strip term else Text.lower (Text.strip term)), e)

/-- What becomes of an item: it is passed over, or it gives a term to add, or it stops the import.
-/
inductive Judged (now : Nat) : Json → Except Failure (Option (Json × Entry)) → Prop
  | termless {item : Json}
      (hterm : ∀ term, item.field? "term".toList = some term → term.isSomething = false) :
      Judged now item (.ok none)
  | wellFormed {item : Json} {term : Text} {translations : Fields}
      (hterm : item.field? "term".toList = some (.str term)) (hblank : Text.allBlank term = false)
      (htranslations : Json.fieldsOrNone (item.field? "translations".toList) = .ok translations) :
      Judged now item (.ok (some (Entry.pairOfForeign now item term translations)))
  | badTerm {item term : Json} (hfind : item.field? "term".toList = some term)
      (hsome : term.isSomething = true)
      (hterm : ∀ t, term = .str t → Text.allBlank t = true) :
      Judged now item (.error Error.emptyTerm)
  | badTranslations {item : Json} {term : Text} {fault : Fault}
      (hterm : item.field? "term".toList = some (.str term)) (hblank : Text.allBlank term = false)
      (htranslations : Json.fieldsOrNone (item.field? "translations".toList) = .error fault) :
      Judged now item (.error fault)

theorem exists_judged (now : Nat) (item : Json) : ∃ r, Judged now item r := by
  by_cases hasked : ∃ term, item.field? "term".toList = some term ∧ term.isSomething = true
  · obtain ⟨term, hfind, hsome⟩ := hasked
    by_cases htext : ∃ t, term = .str t ∧ Text.allBlank t = false
    · obtain ⟨t, rfl, hblank⟩ := htext
      cases htranslations : Json.fieldsOrNone (item.field? "translations".toList) with
      | error fault => exact ⟨_, .badTranslations hfind hblank htranslations⟩
      | ok translations => exact ⟨_, .wellFormed hfind hblank htranslations⟩
    · refine ⟨_, .badTerm hfind hsome fun t ht => ?_⟩
      by_contra hnot
      exact htext ⟨t, ht, Bool.eq_false_iff.mpr hnot⟩
  · refine ⟨_, .termless fun term hfind => ?_⟩
    by_contra hnot
    exact hasked ⟨term, hfind, Bool.not_eq_false _ ▸ hnot⟩

variable {g g' : Glossary} {pair : Json × Entry} {taken : List (Json × Entry)}
  {ending : Option Failure} {failure : Failure} {count : Nat}

/-! #### One item -/

/-- The draft of an item with its term. -/
def Draft.ofForeign (item term : Json) : Draft :=
  let get (name : String) (missing : Json) : Json := (item.field? name.toList).getD missing
  { term
    translations := get "translations" .null
    category := get "category" .null
    description := get "description" (.str [])
    caseSensitive := get "caseSensitive" (.bool true)
    doNotTranslate := get "doNotTranslate" (.bool false)
    context := get "context" (.str []) }

theorem ofItem?_of_isSomething {term : Json} (hfind : item.field? "term".toList = some term)
    (hsome : term.isSomething = true) :
    Draft.ofItem? item = some (Draft.ofForeign item term) := by
  simp only [Draft.ofItem?, Draft.ofForeign, hfind, Option.getD_some, hsome, if_true]

theorem fieldsOrNone_getD (value? : Option Json) :
    Json.fieldsOrNone (some (value?.getD .null)) = Json.fieldsOrNone value? := by
  cases value? <;> rfl

theorem entry_ofForeign {term : Text} {translations : Fields}
    (hblank : Text.allBlank term = false)
    (htranslations : Json.fieldsOrNone (item.field? "translations".toList) = .ok translations) :
    (Draft.ofForeign item (.str term)).entry now =
      .ok (Entry.ofForeign now item term translations) := by
  simp only [Draft.entry, Draft.ofForeign, hblank, fieldsOrNone_getD, htranslations,
    Bool.false_eq_true, if_false]
  rfl

theorem key_ofForeign (now : Nat) (item : Json) (term : Text) (translations : Fields) :
    (Entry.ofForeign now item term translations).key =
      .ok (Entry.pairOfForeign now item term translations).1 := by
  have hterm : (Entry.ofForeign now item term translations).term = .str (Text.strip term) := rfl
  simp only [Entry.key, keyOf, Entry.pairOfForeign, hterm]
  split_ifs with hcase hname
  · rfl
  · exact absurd rfl hname
  · rfl

theorem isSomething_of_not_blank {term : Text} (h : Text.allBlank term = false) :
    (Json.str term).isSomething = true := by
  cases term with
  | nil => cases h
  | cons c rest => rfl

theorem importItems_of_passed (h : Judged now item (.ok none)) (rest : List Json) :
    g.importItems now v count (item :: rest) = g.importItems now v count rest := by
  cases h with
  | termless hterm =>
    have hnothing : ((item.field? "term".toList).getD .null).isSomething = false := by
      cases hfind : item.field? "term".toList with
      | none => rfl
      | some term => exact hterm term hfind
    have hnone : Draft.ofItem? item = none := by
      simp only [Draft.ofItem?, hnothing, Bool.false_eq_true, if_false]
    simp only [importItems, hnone]

/-- The glossary with a term that is added. -/
def withTerm (g : Glossary) (now : Nat) (pair : Json × Entry) : Glossary :=
  { g with terms := Table.insert g.terms pair.1 pair.2 }.setHeader "lastModified" (.nat now)

theorem importItems_of_taken (h : Judged now item (.ok (some pair))) (rest : List Json) :
    g.importItems now v count (item :: rest) =
      match (g.withTerm now pair).saved now v pair.2 with
      | (.error failure, g, v) => (.error failure, g, v)
      | (.ok _, g, v) => g.importItems now v (count + 1) rest := by
  cases h with
  | wellFormed hterm hblank htranslations =>
    have hdraft := ofItem?_of_isSomething hterm (isSomething_of_not_blank hblank)
    simp only [importItems, hdraft, add, entry_ofForeign hblank htranslations, key_ofForeign]
    rfl

theorem importItems_of_stopped (h : Judged now item (.error failure)) (rest : List Json) :
    g.importItems now v count (item :: rest) = (.error failure, g, v) := by
  cases h with
  | @badTerm term hfind hsome hterm =>
    have hentry : (Draft.ofForeign item term).entry now = .error Error.emptyTerm := by
      unfold Draft.entry Draft.ofForeign
      split
      · next t ht => rw [hterm t ht, if_pos rfl]
      · rfl
    simp only [importItems, ofItem?_of_isSomething hfind hsome, add, hentry]
  | @badTranslations term fault hterm hblank htranslations =>
    have hentry : (Draft.ofForeign item (.str term)).entry now = .error fault := by
      simp only [Draft.entry, Draft.ofForeign, hblank, fieldsOrNone_getD, htranslations,
        Bool.false_eq_true, if_false]
    simp only [importItems, ofItem?_of_isSomething hterm (isSomething_of_not_blank hblank), add,
      hentry]

/-! #### All items -/

/-- The own file, if there is one, can be written. -/
def CanSave (g : Glossary) (v : Volume) : Prop := ∀ path, g.path = some path → v.CanWrite path

/-- Terms in place of others. -/
structure TakesIn (g : Glossary) (taken : List (Json × Entry)) (g' : Glossary) : Prop where
  path : g'.path = g.path
  terms : g'.terms = Table.merge g.terms taken

theorem CanSave.saved {α : Type} (h : g.CanSave v) (now : Nat) (a : α) :
    ∃ v', g.saved now v a = (.ok a, g, v') ∧ g.CanSave v' := by
  cases hpath : g.path with
  | none =>
    refine ⟨v, ?_, h⟩
    simp only [Glossary.saved, save, hpath]
  | some path =>
    obtain ⟨v', hwrite, hcan⟩ := (h path hpath).writeJson (g.document now)
    refine ⟨v', ?_, fun path' hpath' => ?_⟩
    · simp only [Glossary.saved, save, hpath, hwrite]
    · cases hpath.symm.trans hpath'
      exact hcan

theorem importItems_sifted (count : Nat) (hsifted : Sifted (Judged now) items taken ending)
    (h : g.CanSave v) :
    ∃ g' v', g.importItems now v count items = (countOrEnd (count + taken.length) ending, g', v') ∧
      g.TakesIn taken g' := by
  induction hsifted generalizing g v count with
  | done => exact ⟨g, v, rfl, rfl, rfl⟩
  | passed hitem _ ih =>
    rw [importItems_of_passed hitem]
    exact ih count h
  | @taken item pair items taken ending hitem _ ih =>
    have hcan : (g.withTerm now pair).CanSave v := h
    obtain ⟨v₁, hsaved, hcan₁⟩ := hcan.saved now pair.2
    obtain ⟨g', v', himport, htakes⟩ := ih (count + 1) hcan₁
    rw [importItems_of_taken hitem]
    simp only [hsaved]
    refine ⟨g', v', ?_, htakes.path, htakes.terms⟩
    rw [himport, List.length_cons, Nat.add_assoc, Nat.add_comm 1]
  | ended hitem =>
    rw [importItems_of_stopped hitem]
    exact ⟨g, v, rfl, rfl, rfl⟩

theorem imported (h : g.CanSave v) (now : Nat) (origin : Text) :
    Imported .glossary "terms" (Judged now) g.TakesIn (fun _ _ _ => False) g v origin
      (g.importFrom now v origin).1 (g.importFrom now v origin).2.1 := by
  rcases hread : v.readJson (.ofText origin) with failure | _ | document
  · simp only [importFrom, hread]
    exact .unreadable hread
  · simp only [importFrom, hread]
    exact .missing hread
  · rcases hitems : Json.elementsOrNone (document.field? "terms".toList) with fault | items
    · simp only [importFrom, hread, hitems]
      exact .noList hread hitems
    · obtain ⟨taken, ending, hsifted⟩ := exists_sifted (exists_judged now) items
      obtain ⟨g', v', himport, htakes⟩ := importItems_sifted 0 hsifted h
      rw [Nat.zero_add] at himport
      simp only [importFrom, hread, hitems, himport]
      exact .sifted hread hitems hsifted htakes

end Glossary

/-! ### Both stores -/

/-- An import into a memory or a glossary whose own file can be written takes all items that it does
not pass over and tells their number, or it ends as the first item does that stops it, the items in
front of that one being taken. -/
theorem import_stops_midway (m : Memory) (g : Glossary) (now : Nat) (v : Volume) (origin : Text) :
    (m.CanSave v → Imported .memory "entries" Memory.Judged (m.TakesIn now) (m.Breaks now) m v origin
      (m.importFrom now v origin).1 (m.importFrom now v origin).2.1) ∧
    (g.CanSave v → Imported .glossary "terms" (Glossary.Judged now) g.TakesIn (fun _ _ _ => False) g v
      origin (g.importFrom now v origin).1 (g.importFrom now v origin).2.1) :=
  ⟨fun h => Memory.imported h now origin, fun h => Glossary.imported h now origin⟩

/-- A document with an entry and a term, behind which there is something that cannot be taken. -/
def foreignFile : Volume :=
  .ofEntries [("in.json".toList, .file (.text (Json.obj (Json.record [
    ("entries", .arr [.obj (Json.record [("source", Json.lit "Hi"), ("translation", Json.lit "Hola"),
      ("sourceLang", Json.lit "en"), ("targetLang", Json.lit "es")]), .nat 5]),
    ("terms", .arr [.obj (Json.record [("term", Json.lit "Acme")]),
      .obj (Json.record [("term", Json.lit " ")])])])).document))]

def foreignMemory : Memory := .empty ⟨false, ["mem".toList]⟩ id 50

def foreignGlossary : Glossary := .empty (some ⟨false, ["glossary.json".toList]⟩)

theorem canSave_foreignMemory : foreignMemory.CanSave foreignFile := ⟨rfl, .null, _, rfl⟩

theorem canSave_foreignGlossary : foreignGlossary.CanSave foreignFile := by
  rintro path hpath
  cases hpath
  exact ⟨rfl, .null, _, rfl⟩

/-- The entry and the term are taken before the imports end. -/
theorem import_stops_midway_foreign :
    (∃ r m' v', foreignMemory.importFrom 0 foreignFile "in.json".toList = (r, m', v') ∧
      Imported .memory "entries" Memory.Judged (foreignMemory.TakesIn 0) (foreignMemory.Breaks 0)
        foreignMemory foreignFile "in.json".toList r m' ∧
      r.toOption = none ∧ m'.size = 1) ∧
    ∃ r g' v', foreignGlossary.importFrom 0 foreignFile "in.json".toList = (r, g', v') ∧
      Imported .glossary "terms" (Glossary.Judged 0) foreignGlossary.TakesIn (fun _ _ _ => False)
        foreignGlossary foreignFile "in.json".toList r g' ∧
      r.toOption = none ∧ g'.terms.length = 1 := by
  obtain ⟨hmemory, hglossary⟩ := import_stops_midway foreignMemory foreignGlossary 0 foreignFile
    "in.json".toList
  have hm : (foreignMemory.importFrom 0 foreignFile "in.json".toList).1.toOption = none ∧
      (foreignMemory.importFrom 0 foreignFile "in.json".toList).2.1.size = 1 := by
    decide +kernel
  have hg : (foreignGlossary.importFrom 0 foreignFile "in.json".toList).1.toOption = none ∧
      (foreignGlossary.importFrom 0 foreignFile "in.json".toList).2.1.terms.length = 1 := by
    decide +kernel
  have hm' := hmemory canSave_foreignMemory
  have hg' := hglossary canSave_foreignGlossary
  rcases hrun : foreignMemory.importFrom 0 foreignFile "in.json".toList with ⟨r, m', v'⟩
  rcases hrun' : foreignGlossary.importFrom 0 foreignFile "in.json".toList with ⟨r', g', v''⟩
  rw [hrun] at hm hm'
  rw [hrun'] at hg hg'
  exact ⟨⟨r, m', v', rfl, hm', hm⟩, r', g', v'', rfl, hg', hg⟩

end Localize
