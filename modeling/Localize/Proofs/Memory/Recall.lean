import Localize.Memory.Operations
import Localize.Proofs.Table

/-!
# What a memory recalls

What a memory says of a text is the translation under its key, if the entry there is one of that
text. Looking texts up counts but changes no text, so all look-ups of a run answer from the same
texts. Storing translations lays new entries over the table and leaves every other key alone.
-/

namespace Localize.Memory

/-- The two texts of an entry with their languages. -/
def Entry.texts (e : Entry) : Json × Json × Direction := (e.sourceText, e.translation, e.direction)

/-- The texts under a key. -/
def textsAt (m : Memory) (key : Json) : Option (Json × Json × Direction) :=
  (Table.find? m.cache key).map Entry.texts

/-- The translation of a text; a null that a file may hold in its place is none. -/
def known? (m : Memory) (d : Direction) (t : Text) : Option Json :=
  ( m.entry? d t).bind fun e => if e.translation = .null then none else some e.translation

/-- The same digest and the same texts under every key. -/
structure SameTexts (m m' : Memory) : Prop where
  digest : m'.digest = m.digest
  texts : ∀ key, m'.textsAt key = m.textsAt key

variable {m m' : Memory} {now : Nat} {d : Direction} {t : Text}

theorem SameTexts.refl (m : Memory) : m.SameTexts m := ⟨rfl, fun _ => rfl⟩

theorem SameTexts.trans {m'' : Memory} (h : m.SameTexts m') (h' : m'.SameTexts m'') :
    m.SameTexts m'' :=
  ⟨h'.digest.trans h.digest, fun key => (h'.texts key).trans (h.texts key)⟩

theorem key_congr (h : m'.digest = m.digest) (d : Direction) (t : Text) :
    m'.key d t = m.key d t := by
  rw [key, key, h]

theorem entry?_eq_some_iff {e : Entry} :
    m.entry? d t = some e ↔
      Table.find? m.cache (m.key d t) = some e ∧ e.sourceText = .str (Text.strip t) := by
  unfold entry?
  cases Table.find? m.cache (m.key d t) with
  | none => simp
  | some e' =>
    simp only [Option.ite_none_right_eq_some, Option.some.injEq]
    constructor
    · rintro ⟨hs, rfl⟩
      exact ⟨rfl, hs⟩
    · rintro ⟨rfl, hs⟩
      exact ⟨hs, rfl⟩

/-- The entry of a text is told by the texts under the key alone. -/
theorem entry?_texts (m : Memory) (d : Direction) (t : Text) :
    ( m.entry? d t).map Entry.texts =
      (m.textsAt (m.key d t)).filter fun texts => texts.1 = .str (Text.strip t) := by
  unfold entry? textsAt
  cases Table.find? m.cache (m.key d t) with
  | none => rfl
  | some e =>
    by_cases hs : e.sourceText = .str (Text.strip t)
    · simp [Option.filter, Entry.texts, hs]
    · simp [Option.filter, Entry.texts, hs]

theorem entry?_texts_congr (hdigest : m'.digest = m.digest)
    (htexts : m'.textsAt (m.key d t) = m.textsAt (m.key d t)) :
    ( m'.entry? d t).map Entry.texts = ( m.entry? d t).map Entry.texts := by
  rw [entry?_texts, entry?_texts, key_congr hdigest, htexts]

theorem known?_eq (m : Memory) (d : Direction) (t : Text) :
    m.known? d t = (( m.entry? d t).map Entry.texts).bind fun texts =>
      if texts.2.1 = .null then none else some texts.2.1 := by
  rw [known?, Option.bind_map]
  rfl

theorem known?_congr (hdigest : m'.digest = m.digest)
    (htexts : m'.textsAt (m.key d t) = m.textsAt (m.key d t)) :
    m'.known? d t = m.known? d t := by
  rw [known?_eq, known?_eq, entry?_texts_congr hdigest htexts]

theorem entry?_eq_none_congr (hdigest : m'.digest = m.digest)
    (htexts : m'.textsAt (m.key d t) = m.textsAt (m.key d t)) :
    m'.entry? d t = none ↔ m.entry? d t = none := by
  rw [← Option.map_eq_none_iff, entry?_texts_congr hdigest htexts, Option.map_eq_none_iff]

theorem SameTexts.known?_eq (h : m.SameTexts m') (d : Direction) (t : Text) :
    m'.known? d t = m.known? d t :=
  known?_congr h.digest (h.texts _)

theorem textsAt_setEntry (m : Memory) (d : Direction) (t : Text) (e : Entry) (key : Json) :
    (m.setEntry d t e).textsAt key =
      if m.key d t = key then some e.texts else m.textsAt key := by
  unfold textsAt setEntry
  rw [Table.find?_insert]
  split
  · rfl
  · rfl

theorem sameTexts_setEntry {e e' : Entry} (h : Table.find? m.cache (m.key d t) = some e)
    (htexts : e'.texts = e.texts) : m.SameTexts (m.setEntry d t e') := by
  refine ⟨rfl, fun key => ?_⟩
  rw [textsAt_setEntry]
  split
  · next hk => rw [← hk, textsAt, h, Option.map_some, htexts]
  · rfl

/-! ### Counting -/

theorem next_ok {counter next : Json} (h : Counters.next counter = .ok next) :
    counter.quantity?.isSome ∧ next.quantity?.isSome := by
  unfold Counters.next at h
  cases hq : counter.quantity? with
  | none =>
    simp only [hq] at h
    cases h
  | some q =>
    simp only [hq] at h
    refine ⟨rfl, ?_⟩
    cases hsum : q.add? (.whole 1) with
    | none =>
      simp only [hsum] at h
      cases h
    | some sum =>
      simp only [hsum] at h
      cases h
      cases sum with
      | whole i => rfl
      | real x => rfl

theorem exists_next {counter : Json} (h : counter.quantity?.isSome) :
    ∃ next, Counters.next counter = .ok next := by
  obtain ⟨q, hq⟩ := Option.isSome_iff_exists.mp h
  have hone : (Quantity.whole 1).toReal?.isSome := by decide
  obtain ⟨one, hone⟩ := Option.isSome_iff_exists.mp hone
  unfold Counters.next
  rw [hq]
  cases q with
  | whole i => exact ⟨_, rfl⟩
  | real x =>
    have hsum : (Quantity.real x).add? (.whole 1) = some (.real (x.add one)) := by
      simp only [Quantity.add?, hone]
      rfl
    simp only [hsum]
    exact ⟨_, rfl⟩

/-- The use of the entry under a key, if there is one, can be counted. -/
def CountedAt (m : Memory) (key : Json) : Prop :=
  ∀ e, Table.find? m.cache key = some e → e.useCount.quantity?.isSome

/-- The same counters can be counted on. -/
structure Counters.Alike (c c' : Counters) : Prop where
  hits : c'.hits.quantity?.isSome ↔ c.hits.quantity?.isSome
  misses : c'.misses.quantity?.isSome ↔ c.misses.quantity?.isSome
  additions : c'.additions.quantity?.isSome ↔ c.additions.quantity?.isSome

theorem Counters.Alike.refl (c : Counters) : Counters.Alike c c := ⟨Iff.rfl, Iff.rfl, Iff.rfl⟩

theorem Counters.Alike.symm {c c' : Counters} (h : Counters.Alike c c') : Counters.Alike c' c :=
  ⟨h.hits.symm, h.misses.symm, h.additions.symm⟩

theorem Counters.Alike.trans {c c' c'' : Counters} (h : Counters.Alike c c')
    (h' : Counters.Alike c' c'') : Counters.Alike c c'' :=
  ⟨h'.hits.trans h.hits, h'.misses.trans h.misses, h'.additions.trans h.additions⟩

/-- Only counts and times differ, and the same can be counted. -/
structure Used (m m' : Memory) : Prop extends m.SameTexts m' where
  folder : m'.folder = m.folder
  keys : Table.keys m'.cache = Table.keys m.cache
  counted : ∀ key, m'.CountedAt key ↔ m.CountedAt key
  counters : Counters.Alike m.counters m'.counters

theorem Used.refl (m : Memory) : m.Used m :=
  ⟨SameTexts.refl m, rfl, rfl, fun _ => Iff.rfl, .refl _⟩

theorem Used.trans {m'' : Memory} (h : m.Used m') (h' : m'.Used m'') : m.Used m'' :=
  ⟨h.toSameTexts.trans h'.toSameTexts, h'.folder.trans h.folder, h'.keys.trans h.keys,
    fun key => (h'.counted key).trans (h.counted key), h.counters.trans h'.counters⟩

/-- Two memories have the same texts in one direction, and the same can be counted there. -/
structure Alike (d : Direction) (m m' : Memory) : Prop where
  digest : m'.digest = m.digest
  folder : m'.folder = m.folder
  texts : ∀ t, m'.textsAt (m.key d t) = m.textsAt (m.key d t)
  counted : ∀ t, m'.CountedAt (m.key d t) ↔ m.CountedAt (m.key d t)
  counters : Counters.Alike m.counters m'.counters

theorem Used.alike (h : m.Used m') (d : Direction) : m.Alike d m' :=
  ⟨h.digest, h.folder, fun _ => h.texts _, fun _ => h.counted _, h.counters⟩

namespace Alike

theorem refl (d : Direction) (m : Memory) : m.Alike d m := (Used.refl m).alike d

theorem symm (h : m.Alike d m') : m'.Alike d m := by
  refine ⟨h.digest.symm, h.folder.symm, fun t => ?_, fun t => ?_, h.counters.symm⟩
  · rw [key_congr h.digest, h.texts]
  · rw [key_congr h.digest, h.counted]

theorem trans {m'' : Memory} (h : m.Alike d m') (h' : m'.Alike d m'') : m.Alike d m'' := by
  refine ⟨h'.digest.trans h.digest, h'.folder.trans h.folder, fun t => ?_, fun t => ?_,
    h.counters.trans h'.counters⟩
  · rw [← h.texts, ← key_congr h.digest, h'.texts]
  · rw [← h.counted, ← key_congr h.digest, h'.counted]

theorem known?_eq (h : m.Alike d m') : m'.known? d = m.known? d := by
  funext t
  exact known?_congr h.digest (h.texts t)

theorem entry?_eq_none_iff (h : m.Alike d m') : m'.entry? d t = none ↔ m.entry? d t = none :=
  entry?_eq_none_congr h.digest (h.texts t)

end Alike

/-- What a look-up of a text counts beside the hits can be counted. -/
structure Ready (m : Memory) (d : Direction) (t : Text) : Prop where
  missed : m.entry? d t = none → m.counters.misses.quantity?.isSome
  held : m.entry? d t ≠ none → m.CountedAt (m.key d t)

/-- Everything that a look-up of a text counts can be counted. -/
structure Serves (m : Memory) (d : Direction) (t : Text) : Prop extends m.Ready d t where
  hits : m.entry? d t ≠ none → m.counters.hits.quantity?.isSome

theorem Alike.ready (h : m.Alike d m') (hready : m.Ready d t) : m'.Ready d t := by
  constructor
  · intro hnone
    exact h.counters.misses.mpr (hready.missed (h.entry?_eq_none_iff.mp hnone))
  · intro hsome
    rw [key_congr h.digest, h.counted]
    exact hready.held (mt h.entry?_eq_none_iff.mpr hsome)

theorem Alike.serves (h : m.Alike d m') (hserves : m.Serves d t) : m'.Serves d t := by
  refine ⟨h.ready hserves.toReady, fun hsome => ?_⟩
  exact h.counters.hits.mpr (hserves.hits (mt h.entry?_eq_none_iff.mpr hsome))

theorem countedAt_setEntry_iff {e : Entry} (he : e.useCount.quantity?.isSome) {key : Json} :
    (m.setEntry d t e).CountedAt key ↔ m.key d t = key ∨ m.CountedAt key := by
  unfold CountedAt setEntry
  simp only [Table.find?_insert]
  by_cases hkey : m.key d t = key
  · simp [hkey, he]
  · simp [hkey]

theorem touch_ok {e : Entry} (he : m.entry? d t = some e)
    (h : m.touch now d t e = (.ok (), m')) : m.Used m' ∧ m.Serves d t := by
  obtain ⟨hfind, -⟩ := entry?_eq_some_iff.mp he
  have hsome : m.entry? d t ≠ none := by
    rw [he]
    exact Option.some_ne_none e
  unfold touch at h
  simp only at h
  cases huse : Counters.next e.useCount with
  | error fault =>
    simp only [huse] at h
    cases h
  | ok useCount =>
    simp only [huse] at h
    cases hhits : Counters.next (m.setEntry d t
        { e with lastUsed := .nat now, useCount := useCount }).counters.hits with
    | error fault =>
      simp only [hhits] at h
      cases h
    | ok hits =>
      simp only [hhits] at h
      cases h
      have hsame : m.SameTexts (m.setEntry d t
          { e with lastUsed := .nat now, useCount := useCount }) := sameTexts_setEntry hfind rfl
      obtain ⟨hbefore, hafter⟩ := next_ok huse
      obtain ⟨hhitsBefore, hhitsAfter⟩ := next_ok hhits
      have hcounted : m.CountedAt (m.key d t) := by
        intro e' he'
        rw [hfind] at he'
        cases he'
        exact hbefore
      refine ⟨⟨⟨hsame.digest, hsame.texts⟩, rfl, ?_, fun key => ?_, ?_⟩,
        ⟨fun hnone => absurd hnone hsome, fun _ => hcounted⟩, fun _ => hhitsBefore⟩
      · have hmem : m.key d t ∈ Table.keys m.cache := by
          rw [Table.mem_keys_iff, hfind]
          rfl
        exact (Table.keys_insert _ _ _).trans (if_pos hmem)
      · refine (countedAt_setEntry_iff hafter).trans ⟨?_, .inr⟩
        rintro (rfl | hkey)
        · exact hcounted
        · exact hkey
      · exact ⟨⟨fun _ => hhitsBefore, fun _ => hhitsAfter⟩, Iff.rfl, Iff.rfl⟩

theorem exists_touch (now : Nat) (d : Direction) (t : Text) {e : Entry}
    (he : e.useCount.quantity?.isSome) (hhits : m.counters.hits.quantity?.isSome) :
    ∃ m', m.touch now d t e = (.ok (), m') := by
  obtain ⟨useCount, huse⟩ := exists_next he
  obtain ⟨hits, hhits⟩ := exists_next hhits
  unfold touch setEntry
  simp only [huse, hhits]
  exact ⟨_, rfl⟩

/-- One look-up gives the translation of the entry of the text, whatever it is, and comes about only
where it can be counted. -/
theorem lookup_ok {result : Option Json} (h : m.lookup now d t = (.ok result, m')) :
    result = ( m.entry? d t).map Entry.translation ∧ m.Used m' ∧ m.Serves d t := by
  unfold lookup at h
  cases he : m.entry? d t with
  | some e =>
    simp only [he] at h
    cases htouch : m.touch now d t e with
    | mk outcome m'' =>
      cases outcome with
      | error fault =>
        simp only [htouch] at h
        cases h
      | ok u =>
        simp only [htouch] at h
        cases h
        exact ⟨rfl, touch_ok he htouch⟩
  | none =>
    simp only [he] at h
    cases hnext : Counters.next m.counters.misses with
    | error fault =>
      simp only [hnext] at h
      cases h
    | ok misses =>
      simp only [hnext] at h
      cases h
      obtain ⟨hbefore, hafter⟩ := next_ok hnext
      refine ⟨rfl, ⟨⟨rfl, fun _ => rfl⟩, rfl, rfl, fun _ => Iff.rfl, ?_⟩, ?_⟩
      · exact ⟨Iff.rfl, ⟨fun _ => hbefore, fun _ => hafter⟩, Iff.rfl⟩
      · exact ⟨⟨fun _ => hbefore, fun hsome => absurd he hsome⟩, fun hsome => absurd he hsome⟩

theorem exists_lookup (now : Nat) (h : m.Serves d t) :
    ∃ result m', m.lookup now d t = (.ok result, m') := by
  unfold lookup
  cases he : m.entry? d t with
  | some e =>
    have hsome : m.entry? d t ≠ none := by
      rw [he]
      exact Option.some_ne_none e
    have huse := h.held hsome e (entry?_eq_some_iff.mp he).1
    obtain ⟨m', htouch⟩ := exists_touch now d t huse (h.hits hsome)
    simp only [htouch]
    exact ⟨_, _, rfl⟩
  | none =>
    obtain ⟨misses, hnext⟩ := exists_next (h.missed he)
    simp only [hnext]
    exact ⟨_, _, rfl⟩

/-! ### Texts looked up in turn -/

/-- What is known after one more text. -/
def Lookups.add (l : Lookups) (t : Text) : Option Json → Lookups
  | some v => { l with found := Table.insert l.found t v }
  | none => { l with missing := l.missing ++ [t] }

theorem go_cons {result : Option Json} (h : m.lookup now d t = (.ok result, m')) (acc : Lookups)
    (texts : List Text) :
    lookupAll.go now d m acc (t :: texts) =
      lookupAll.go now d m' (acc.add t (m.known? d t)) texts := by
  obtain ⟨hresult, -⟩ := lookup_ok h
  rw [lookupAll.go, h, known?]
  cases he : m.entry? d t with
  | none =>
    rw [he] at hresult
    rw [hresult]
    rfl
  | some e =>
    rw [he] at hresult
    rw [hresult, Option.map_some, Option.bind_some]
    cases e.translation with
    | null => rfl
    | bool _ | int _ | float _ | str _ | arr _ | obj _ => rfl

theorem go_ok {texts : List Text} {acc l : Lookups}
    (h : lookupAll.go now d m acc texts = (.ok l, m')) :
    l.missing = acc.missing ++ texts.filter (fun t => (m.known? d t).isNone) ∧
      l.found = Table.merge acc.found
        (texts.filterMap fun t => (m.known? d t).map (t, ·)) ∧
      m.Used m' ∧ ∀ t ∈ texts, m.Serves d t := by
  induction texts generalizing m acc with
  | nil =>
    cases h
    exact ⟨by simp, rfl, Used.refl _, fun t ht => absurd ht List.not_mem_nil⟩
  | cons t texts ih =>
    cases hlookup : m.lookup now d t with
    | mk outcome m₁ =>
      cases outcome with
      | error fault =>
        rw [lookupAll.go, hlookup] at h
        cases h
      | ok result =>
        obtain ⟨-, hused, hserves⟩ := lookup_ok hlookup
        rw [go_cons hlookup] at h
        obtain ⟨hmissing, hfound, hrest, hall⟩ := ih h
        simp only [hused.known?_eq] at hmissing hfound
        refine ⟨?_, ?_, hused.trans hrest, List.forall_mem_cons.mpr ⟨hserves, fun t ht => ?_⟩⟩
        · rw [hmissing, List.filter_cons]
          cases m.known? d t with
          | none => simp [Lookups.add]
          | some v => rfl
        · rw [hfound, List.filterMap_cons]
          cases m.known? d t with
          | none => rfl
          | some v => rfl
        · exact (hused.alike d).symm.serves (hall t ht)

theorem exists_go (now : Nat) {texts : List Text} (h : ∀ t ∈ texts, m.Serves d t)
    (acc : Lookups) : ∃ l m', lookupAll.go now d m acc texts = (.ok l, m') := by
  induction texts generalizing m acc with
  | nil => exact ⟨_, _, rfl⟩
  | cons t texts ih =>
    obtain ⟨ht, hrest⟩ := List.forall_mem_cons.mp h
    obtain ⟨result, m₁, hlookup⟩ := exists_lookup now ht
    obtain ⟨-, hused, -⟩ := lookup_ok hlookup
    rw [go_cons hlookup]
    exact ih (fun t' ht' => (hused.alike d).serves (hrest t' ht')) _

/-- The texts of which something is known, with what it is, and the other texts. -/
def recalls (known : Text → Option Json) (texts : List Text) : Lookups :=
  ⟨Table.ofPairs (texts.filterMap fun t => (known t).map (t, ·)),
    texts.filter fun t => (known t).isNone⟩

/-- Looking texts up gives what the memory recalls of each of them and changes no text, and comes
about only where each look-up can be counted. -/
theorem lookupAll_ok {texts : List Text} {l : Lookups}
    (h : m.lookupAll now d texts = (.ok l, m')) :
    l = recalls (m.known? d) texts ∧
      m.Used m' ∧ ∀ t ∈ texts, m.Serves d t := by
  obtain ⟨hmissing, hfound, hused, hserves⟩ := go_ok h
  refine ⟨?_, hused, hserves⟩
  obtain ⟨found, missing⟩ := l
  rw [Lookups.mk.injEq]
  exact ⟨hfound, hmissing⟩

theorem exists_lookupAll (now : Nat) {texts : List Text} (h : ∀ t ∈ texts, m.Serves d t) :
    ∃ l m', m.lookupAll now d texts = (.ok l, m') :=
  exists_go now h ⟨[], []⟩

end Localize.Memory
