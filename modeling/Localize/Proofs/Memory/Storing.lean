import Localize.Proofs.Memory.Recall

/-!
# What storing changes

Storing translations in turn lays their entries over the table and does nothing else to it. So with
distinct keys each text is answered with its trimmed translation afterwards, and every other key
keeps its texts.
-/

namespace Localize.Memory

variable {m m' : Memory} {now : Nat} {v v' : Volume} {d : Direction} {notes : Fields}

/-- The entry that storing a translation makes. -/
def stored (now : Nat) (d : Direction) (notes : Fields) (pair : Text × Text) : Entry :=
  Entry.ofTranslation now d pair.1 pair.2 false (keptNotes notes)

/-- New entries in the table; everything else is as before, and additions can be counted as before.
-/
structure Holds (m : Memory) (entries : List (Json × Entry)) (m' : Memory) : Prop where
  digest : m'.digest = m.digest
  folder : m'.folder = m.folder
  cache : m'.cache = Table.merge m.cache entries
  hits : m'.counters.hits = m.counters.hits
  misses : m'.counters.misses = m.counters.misses
  additions : m'.counters.additions.quantity?.isSome ↔ m.counters.additions.quantity?.isSome

theorem Holds.refl (m : Memory) : m.Holds [] m := ⟨rfl, rfl, rfl, rfl, rfl, Iff.rfl⟩

theorem Holds.trans {m₁ : Memory} {first second : List (Json × Entry)} (h : m.Holds first m₁)
    (h' : m₁.Holds second m') : m.Holds (first ++ second) m' where
  digest := h'.digest.trans h.digest
  folder := h'.folder.trans h.folder
  cache := by rw [h'.cache, h.cache, Table.merge_append]
  hits := h'.hits.trans h.hits
  misses := h'.misses.trans h.misses
  additions := h'.additions.trans h.additions

theorem put_ok {source : Text} {e : Entry} (h : m.put now d source e = (.ok (), m')) :
    m.Holds [(m.key d source, e)] m' ∧ m.counters.additions.quantity?.isSome := by
  unfold put at h
  cases hnext : Counters.next (m.setEntry d source e).counters.additions with
  | error fault =>
    simp only [hnext] at h
    cases h
  | ok additions =>
    simp only [hnext] at h
    cases h
    obtain ⟨hbefore, hafter⟩ := next_ok hnext
    exact ⟨⟨rfl, rfl, rfl, rfl, rfl, ⟨fun _ => hbefore, fun _ => hafter⟩⟩, hbefore⟩

theorem exists_put (h : m.counters.additions.quantity?.isSome) (now : Nat) (d : Direction)
    (source : Text) (e : Entry) : ∃ m', m.put now d source e = (.ok (), m') := by
  obtain ⟨additions, hnext⟩ := exists_next h
  have hsame : (m.setEntry d source e).counters.additions = m.counters.additions := rfl
  unfold put
  simp only [hsame, hnext]
  exact ⟨_, rfl⟩

/-- What has been stored is in the memory, and is saved where it is time for that. -/
theorem store_ok {pair : Text × Text} {e : Entry}
    (h : m.store now v d (.str pair.1) (.str pair.2) notes false = (.ok e, m', v')) :
    m.Holds [(m.key d pair.1, stored now d notes pair)] m' ∧
      (Text.allBlank pair.1 = false ∧ m.counters.additions.quantity?.isSome) ∧
      (v' = v ∨ m'.save now v = (.ok (), v')) := by
  unfold store at h
  simp only at h
  cases hblank : Text.allBlank pair.1 with
  | true =>
    simp only [hblank, if_true] at h
    cases h
  | false =>
    simp only [hblank, Bool.false_eq_true, if_false] at h
    cases hput : m.put now d pair.1
        (Entry.ofTranslation now d pair.1 pair.2 false (keptNotes notes)) with
    | mk outcome m₁ =>
      cases outcome with
      | error fault =>
        simp only [hput] at h
        cases h
      | ok u =>
        obtain ⟨hholds, hadditions⟩ := put_ok hput
        simp only [hput] at h
        split at h
        · cases hsave : m₁.save now v with
          | mk saved v₁ =>
            cases saved with
            | error failure =>
              simp only [hsave] at h
              cases h
            | ok u =>
              simp only [hsave] at h
              cases h
              exact ⟨hholds, ⟨rfl, hadditions⟩, .inr hsave⟩
        · cases h
          exact ⟨hholds, ⟨rfl, hadditions⟩, .inl rfl⟩

/-- What can be stored is in the memory afterwards, and is saved or not. -/
theorem store_storable {t u : Text} (h : m.counters.additions.quantity?.isSome) (now : Nat)
    (v : Volume) (d : Direction) (hblank : Text.allBlank t = false) (notes : Fields)
    (verified : Bool) :
    ∃ m₁ e, m.Holds [(m.key d t, e)] m₁ ∧
      e = Entry.ofTranslation now d t u verified (keptNotes notes) ∧
      (m.store now v d (.str t) (.str u) notes verified = (.ok e, m₁, v) ∨
        m.store now v d (.str t) (.str u) notes verified = m₁.saved now v e) := by
  obtain ⟨m₁, hput⟩ := exists_put h now d t
    (Entry.ofTranslation now d t u verified (keptNotes notes))
  refine ⟨m₁, _, (put_ok hput).1, rfl, ?_⟩
  unfold store
  simp only [hblank, hput, Bool.false_eq_true, if_false]
  split
  · right
    unfold saved
    cases m₁.save now v with
    | mk outcome v₁ =>
      cases outcome with
      | ok done => rfl
      | error failure => rfl
  · exact .inl rfl

/-- Storing pairs in turn lays their entries over the table. -/
theorem storeAll_ok {pairs : List (Text × Text)}
    (h : m.storeAll now v d notes (pairs.map fun p => (p.1, .str p.2)) = (.ok (), m', v')) :
    m.Holds (pairs.map fun p => (m.key d p.1, stored now d notes p)) m' := by
  induction pairs generalizing m v with
  | nil =>
    cases h
    exact Holds.refl _
  | cons p pairs ih =>
    rw [List.map_cons, storeAll] at h
    cases hstore : m.store now v d (.str p.1) (.str p.2) notes false with
    | mk outcome rest =>
      obtain ⟨m₁, v₁⟩ := rest
      cases outcome with
      | error failure =>
        simp only [hstore] at h
        cases h
      | ok e =>
        simp only [hstore] at h
        obtain ⟨hfirst, -⟩ := store_ok hstore
        have hrest := ih h
        simp only [key_congr hfirst.digest] at hrest
        exact hfirst.trans hrest

variable {entries : List (Json × Entry)}

theorem Holds.find?_of_mem (h : m.Holds entries m') (hn : (Table.keys entries).Nodup)
    {key : Json} {e : Entry} (he : (key, e) ∈ entries) : Table.find? m'.cache key = some e := by
  rw [h.cache, Table.find?_merge, Table.find?_reverse hn, Table.find?_of_mem hn he]
  rfl

theorem Holds.find?_of_not_mem (h : m.Holds entries m') {key : Json}
    (hkey : key ∉ Table.keys entries) : Table.find? m'.cache key = Table.find? m.cache key := by
  have hnone : Table.find? entries.reverse key = none := by
    rw [Table.find?_eq_none_iff]
    simpa [Table.keys] using hkey
  rw [h.cache, Table.find?_merge, hnone, Option.none_or]

/-- Of the pairs stored under one key the last one counts. -/
theorem Holds.textsAt_eq {pairs : List (Text × Text)}
    (h : m.Holds (pairs.map fun p => (m.key d p.1, stored now d notes p)) m') (key : Json) :
    m'.textsAt key = ((pairs.reverse.find? fun p => m.key d p.1 = key).map fun p =>
      (.str (Text.strip p.1), .str (Text.strip p.2), d)).or (m.textsAt key) := by
  rw [textsAt, h.cache, Table.find?_merge, ← List.map_reverse, Table.find?_map, Option.map_or,
    Option.map_map]
  rfl

/-- Under every key a memory holds the texts it held before, or a source out of some strings, which
it has trimmed. -/
def GainedFrom (m : Memory) (sources : List Text) (m' : Memory) : Prop :=
  ∀ key, m'.textsAt key = m.textsAt key ∨
    ∃ source ∈ sources, (m'.textsAt key).map Prod.fst = some (.str (Text.strip source))

theorem SameTexts.gainedFrom (h : m.SameTexts m') (sources : List Text) :
    m.GainedFrom sources m' := fun key => .inl (h.texts key)

theorem GainedFrom.trans {sources : List Text} {m₁ : Memory} (h : m.GainedFrom sources m₁)
    (h' : m₁.GainedFrom sources m') : m.GainedFrom sources m' := by
  intro key
  rcases h' key with hsame | hnew
  · rw [hsame]
    exact h key
  · exact .inr hnew

theorem Holds.gainedFrom {pairs : List (Text × Text)} {sources : List Text}
    (h : m.Holds (pairs.map fun p => (m.key d p.1, stored now d notes p)) m')
    (hsources : ∀ p ∈ pairs, p.1 ∈ sources) : m.GainedFrom sources m' := by
  intro key
  rw [h.textsAt_eq]
  cases hfind : pairs.reverse.find? fun p => m.key d p.1 = key with
  | none => exact .inl rfl
  | some p =>
    have hp := List.mem_reverse.mp (List.mem_of_find?_eq_some hfind)
    exact .inr ⟨p.1, hsources p hp, rfl⟩

/-- A key that nothing is stored under keeps its entry, and what a look-up of it counts. -/
theorem Holds.ready_of_not_mem (h : m.Holds entries m') {t : Text}
    (hkey : m.key d t ∉ Table.keys entries) (hready : m.Ready d t) : m'.Ready d t := by
  have hfind := h.find?_of_not_mem hkey
  have hentry : m'.entry? d t = m.entry? d t := by
    simp only [Memory.entry?, key_congr h.digest, hfind]
  refine ⟨fun hnone => ?_, fun hsome e he => ?_⟩
  · rw [h.misses]
    exact hready.missed (hentry ▸ hnone)
  · rw [key_congr h.digest, hfind] at he
    exact hready.held (hentry ▸ hsome) e he

/-- A text that has been stored is recalled with its trimmed translation. -/
theorem Holds.known?_of_stored {pairs : List (Text × Text)}
    (h : m.Holds (pairs.map fun p => (m.key d p.1, stored now d notes p)) m')
    (hn : (pairs.map fun p => m.key d p.1).Nodup) {p : Text × Text} (hp : p ∈ pairs) :
    m'.known? d p.1 = some (.str (Text.strip p.2)) ∧ m'.Ready d p.1 := by
  have hn' : (Table.keys (pairs.map fun p => (m.key d p.1, stored now d notes p))).Nodup := by
    rwa [Table.keys, List.map_map]
  have hfind := h.find?_of_mem hn' (List.mem_map_of_mem hp)
  rw [← key_congr h.digest] at hfind
  have hentry : m'.entry? d p.1 = some (stored now d notes p) :=
    entry?_eq_some_iff.mpr ⟨hfind, rfl⟩
  refine ⟨by rw [known?, hentry]; rfl, fun hnone => ?_, fun _ e he => ?_⟩
  · rw [hentry] at hnone
    cases hnone
  · rw [hfind] at he
    cases he
    rfl

end Localize.Memory
