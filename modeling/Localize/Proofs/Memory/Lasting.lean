import Localize.Proofs.Json.Sound
import Localize.Proofs.Memory.Acts
import Localize.Proofs.Outcome

/-!
# Memories that a document can hold

A memory that has started without a file holds texts, whole counters and values that were given or
read, under keys that are texts. Every act keeps it that way, so it stays true of whatever deeds are
done to it, whether the writes among them fail or not.
-/

namespace Localize.Memory

/-! ### Entries -/

/-- An entry that a document can hold, with times out of `ticks`. -/
structure Entry.Lasting (ticks : Nat → Prop) (e : Entry) : Prop where
  sourceText : e.sourceText.Sound
  translation : e.translation.Sound
  source : e.direction.source.Sound
  target : e.direction.target.Sound
  createdAt : ∃ t, ticks t ∧ e.createdAt = .nat t
  lastUsed : ∃ t, ticks t ∧ e.lastUsed = .nat t
  useCount : ∃ n : ℤ, e.useCount = .int n
  notes : (Json.obj e.notes).Sound
  unmarked : "verified".toList ∉ Table.keys e.notes

theorem Entry.Lasting.note {ticks : Nat → Prop} {e : Entry} (h : e.Lasting ticks) (name : String)
    (hname : "verified".toList ≠ name.toList) {value : Json} (hvalue : value.Sound) :
    Entry.Lasting ticks { e with notes := Table.insert e.notes name.toList value } := by
  refine { h with notes := h.notes.insert hvalue _, unmarked := ?_ }
  rw [← Table.find?_eq_none_iff, Table.find?_insert, if_neg hname.symm, Table.find?_eq_none_iff]
  exact h.unmarked

/-! ### Memories -/

/-- The names in the header of the file. -/
def headerNames : List Text :=
  ["version".toList, "created".toList, "lastModified".toList, "totalEntries".toList]

/-- A memory that a document can hold, with times of its entries out of `ticks`. -/
structure Lasting (ticks : Nat → Prop) (m : Memory) : Prop where
  distinct : (Table.keys m.cache).Nodup
  keyed : ∀ p ∈ m.cache, ∃ k, p.1 = .str k ∧ k ≠ []
  entries : ∀ p ∈ m.cache, p.2.Lasting ticks
  counters : ∃ hits misses additions : ℤ,
    m.counters = ⟨.int hits, .int misses, .int additions, []⟩
  headed : Table.keys m.header = headerNames
  header : (Json.obj m.header).Sound

variable {ticks : Nat → Prop} {m m' : Memory} {v v' : Volume} {now : Nat}

theorem keys_insert_header {fields : Fields} (h : Table.keys fields = headerNames) {name : Text}
    (hname : name ∈ headerNames) (value : Json) :
    Table.keys (Table.insert fields name value) = headerNames := by
  rw [Table.keys_insert, h, if_pos hname]

/-! ### What acts leave -/

namespace Lasting

variable {d : Direction} {t : Text} {e : Entry}

theorem of_entry? (h : m.Lasting ticks) (he : m.entry? d t = some e) : e.Lasting ticks :=
  h.entries _ (Table.mem_of_find? (entry?_eq_some_iff.mp he).1)

theorem setEntry (h : m.Lasting ticks) (d : Direction) (t : Text) (he : e.Lasting ticks) :
    (m.setEntry d t e).Lasting ticks := by
  refine { h with distinct := Table.nodup_keys_insert h.distinct _ _, keyed := ?_, entries := ?_ }
  · intro p hp
    obtain rfl | hp := Table.of_mem_insert hp
    · exact ⟨_, rfl, by simp [keyOf]⟩
    · exact h.keyed p hp
  · intro p hp
    obtain rfl | hp := Table.of_mem_insert hp
    · exact he
    · exact h.entries p hp

theorem erase (h : m.Lasting ticks) (key : Json) :
    Lasting ticks { m with cache := Table.erase m.cache key } :=
  { h with
    distinct := Table.nodup_keys_erase h.distinct key
    keyed := fun p hp => h.keyed p ((Table.erase_sublist m.cache key).subset hp)
    entries := fun p hp => h.entries p ((Table.erase_sublist m.cache key).subset hp) }

theorem setHeader (h : m.Lasting ticks) {name : String} (hname : name.toList ∈ headerNames)
    {value : Json} (hvalue : value.Sound) : (m.setHeader name value).Lasting ticks :=
  { h with
    headed := keys_insert_header h.headed hname value
    header := h.header.insert hvalue name.toList }

theorem count (h : m.Lasting ticks) (hits misses additions : ℤ) :
    Lasting ticks { m with counters := ⟨.int hits, .int misses, .int additions, []⟩ } :=
  { h with counters := ⟨hits, misses, additions, rfl⟩ }

theorem clear (h : m.Lasting ticks) :
    Lasting ticks { m with cache := [], counters := .zero } :=
  { h with
    distinct := List.nodup_nil
    keyed := by simp
    entries := by simp
    counters := ⟨0, 0, 0, rfl⟩ }

theorem stocked (h : m.Lasting ticks) (now : Nat) (d : Direction) (t : Text)
    (he : e.Lasting ticks) (additions : ℤ) : (m.stocked now d t e additions).Lasting ticks := by
  obtain ⟨hits, misses, _, hcounters⟩ := h.counters
  have hcounted : ({ m.counters with additions := .int additions } : Counters) =
      ⟨.int hits, .int misses, .int additions, []⟩ := by rw [hcounters]
  unfold Memory.stocked
  rw [hcounted]
  exact (((h.setEntry d t he).count hits misses additions).setHeader (by decide) (.int _)).setHeader
    (by decide) (.int _)

end Lasting

theorem sound_keptNotes {notes : Fields} (h : ∀ f ∈ notes, f.2.Sound) :
    (Json.obj (keptNotes notes)).Sound ∧ "verified".toList ∉ Table.keys (keptNotes notes) := by
  have hget (name : String) : ((Table.find? notes name.toList).getD .null).Sound :=
    Json.sound_find?_getD h .null name.toList
  constructor
  · exact Json.sound_record (by simp) ⟨hget _, Json.sound_orElse (hget _) .null, hget _⟩
  · simp [keptNotes, Json.record, Table.keys]

theorem lasting_ofTranslation {d : Direction} (hsource : d.source.Sound) (htarget : d.target.Sound)
    {notes : Fields} (hnotes : ∀ f ∈ notes, f.2.Sound) (hnow : ticks now) (t u : Text)
    (verified : Bool) :
    (Entry.ofTranslation now d t u verified (keptNotes notes)).Lasting ticks where
  sourceText := .str _
  translation := .str _
  source := hsource
  target := htarget
  createdAt := ⟨now, hnow, rfl⟩
  lastUsed := ⟨now, hnow, rfl⟩
  useCount := ⟨1, rfl⟩
  notes := (sound_keptNotes hnotes).1
  unmarked := (sound_keptNotes hnotes).2

/-- The values given with an act are values that a document can hold. -/
def Act.Sound : Act → Prop
  | .store d _ _ notes _ => d.source.Sound ∧ d.target.Sound ∧ ∀ f ∈ notes, f.2.Sound
  | _ => True

namespace Lasting

variable {d : Direction} {t : Text}

/-- A change to an entry that leaves it lasting leaves the memory lasting. -/
theorem change (h : m.Lasting ticks) (now : Nat) (v : Volume) {f : Entry → Entry}
    (hf : ∀ e, e.Lasting ticks → (f e).Lasting ticks) :
    (m.change now v d t f).2.1.Lasting ticks := by
  cases hentry : m.entry? d t with
  | none =>
    rw [Memory.change, hentry]
    exact h
  | some e =>
    rw [change_of_some hentry, saved_memory]
    exact h.setEntry d t (hf e (h.of_entry? hentry))

theorem delete (h : m.Lasting ticks) (now : Nat) (v : Volume) :
    (m.delete now v d t).2.1.Lasting ticks := by
  unfold Memory.delete
  split
  · exact h
  · rw [saved_memory]
    exact (h.erase _).setHeader (by decide) (.int _)

theorem store (h : m.Lasting ticks) (hnow : ticks now) (v : Volume) {text translation : Json}
    (hsource : d.source.Sound) (htarget : d.target.Sound) {notes : Fields}
    (hnotes : ∀ f ∈ notes, f.2.Sound) (verified : Bool) :
    (m.store now v d text translation notes verified).2.1.Lasting ticks := by
  by_cases hstorable : Storable text translation
  · obtain ⟨t, u, rfl, rfl, hblank⟩ := hstorable
    obtain ⟨hits, misses, additions, hcounters⟩ := h.counters
    have hadditions : m.counters.additions = .int additions := by rw [hcounters]
    have hstocked := h.stocked now d t
      (lasting_ofTranslation hsource htarget hnotes hnow t u verified) (additions + 1)
    rw [store_eq hadditions now v d hblank notes verified rfl]
    split
    · rwa [saved_memory]
    · exact hstocked
  · obtain ⟨failure, hstore⟩ :=
      store_unstorable (m := m) (v := v) hstorable now d notes verified
    rw [hstore]
    exact h

theorem lookup (h : m.Lasting ticks) (hnow : ticks now) : (m.lookup now d t).2.Lasting ticks := by
  obtain ⟨hits, misses, additions, hcounters⟩ := h.counters
  cases hentry : m.entry? d t with
  | none =>
    have hcount := h.count hits (misses + 1) additions
    have hnext : Counters.next m.counters.misses = .ok (.int (misses + 1)) := by rw [hcounters]; rfl
    simp only [Memory.lookup, hentry, hnext]
    rwa [hcounters]
  | some e =>
    obtain ⟨n, huse⟩ := (h.of_entry? hentry).useCount
    have hused : Entry.Lasting ticks { e with lastUsed := .nat now, useCount := .int (n + 1) } :=
      { h.of_entry? hentry with lastUsed := ⟨now, hnow, rfl⟩, useCount := ⟨n + 1, rfl⟩ }
    have hcount := (h.setEntry d t hused).count (hits + 1) misses additions
    simp only [Memory.lookup, hentry, touch, huse, next_int]
    have hsame : ∀ e, (m.setEntry d t e).counters = m.counters := fun _ => rfl
    simp only [hsame, hcounters, next_int]
    exact hcount

end Lasting

/-- Every act leaves a memory that a document can hold. -/
theorem Lasting.perform {act : Act} {s : State} (h : s.1.Lasting ticks) (hnow : ticks now)
    (hact : act.Sound) : (act.perform now s).2.1.Lasting ticks := by
  cases act with
  | store d text translation notes verified =>
    obtain ⟨hsource, htarget, hnotes⟩ := hact
    exact h.store hnow s.2 hsource htarget hnotes verified
  | update d text translation =>
    exact h.change now s.2 fun e he =>
      { he.note "updatedAt" (by decide) (.int now) with translation := .str _ }
  | verify d text =>
    exact h.change now s.2 fun e he =>
      { he.note "verifiedAt" (by decide) (.int now) with }
  | delete d text => exact h.delete now s.2
  | clear =>
    change (Memory.saved _ now s.2 ()).2.1.Lasting ticks
    rw [saved_memory]
    exact (h.clear.setHeader (by decide) (.int _)).setHeader (by decide) (.int _)
  | lookup d text => exact h.lookup hnow
  | save =>
    change (s.1.saved now s.2 ()).2.1.Lasting ticks
    rwa [saved_memory]

theorem Lasting.performed {acts : List (Nat × Act)} {s : State} (h : s.1.Lasting ticks)
    (hacts : ∀ a ∈ acts, ticks a.1 ∧ a.2.Sound) : (performed s acts).1.Lasting ticks := by
  induction acts generalizing s with
  | nil => exact h
  | cons a acts ih =>
    obtain ⟨ha, hacts⟩ := List.forall_mem_cons.mp hacts
    exact ih (h.perform ha.1 ha.2) hacts

/-! ### What deeds leave -/

/-- The notes given with a deed are values that a document can hold. -/
def Deed.Sound : Deed → Prop
  | .ofOp (.store _ _ _ _ notes _) | .ofOp (.storeAll _ _ notes _) => ∀ f ∈ notes, f.2.Sound
  | _ => True

theorem sound_importable? {item : Json} (hitem : item.Sound) {d : Direction}
    {source translation : Json} {verified : Bool}
    (h : importable? item = .ok (some (d, source, translation, verified))) :
    d.source.Sound ∧ d.target.Sound := by
  cases hitem with
  | @obj fields hkeys hfields =>
    have hrequired {name : String} {value : Json}
        (hname : Entry.required fields name = .ok value) : value.Sound := by
      unfold Entry.required at hname
      split at hname
      · next hfind =>
        cases hname
        exact (Json.Sound.obj hkeys hfields).find? hfind
      · cases hname
    unfold importable? at h
    dsimp only at h
    split at h
    · split_ifs at h
      · cases h
      obtain ⟨source', hsource, h⟩ := bind_ok_iff.mp h
      obtain ⟨target', htarget, h⟩ := bind_ok_iff.mp h
      cases h
      exact ⟨hrequired hsource, hrequired htarget⟩
    · cases h
  | null | bool _ | int _ | float _ | str _ | arr _ => cases h

theorem sound_importActs {items : List Json} (h : ∀ item ∈ items, item.Sound) :
    ∀ act ∈ importActs items, act.Sound := by
  induction items with
  | nil => simp [importActs, Act.Sound]
  | cons item items ih =>
    obtain ⟨hitem, hitems⟩ := List.forall_mem_cons.mp h
    rw [importActs]
    split
    · simp
    · exact ih hitems
    · next d source translation verified himport =>
      obtain ⟨hsource, htarget⟩ := sound_importable? hitem himport
      exact List.forall_mem_cons.mpr ⟨⟨hsource, htarget, by simp⟩, ih hitems⟩

theorem Deed.Sound.plan {deed : Deed} (h : deed.Sound) (v : Volume) :
    ∀ act ∈ deed.plan v, act.Sound := by
  cases deed with
  | ofOp op =>
    cases op with
    | store s g text translation notes verified =>
      exact List.forall_mem_singleton.mpr ⟨.str s, .str g, h⟩
    | storeAll s g notes pairs =>
      intro act hact
      obtain ⟨p, -, rfl⟩ := List.mem_map.mp hact
      exact ⟨.str s, .str g, h⟩
    | lookupAll s g texts =>
      intro act hact
      obtain ⟨t, -, rfl⟩ := List.mem_map.mp hact
      trivial
    | update s g t u | verify s g t | delete s g t | clear | lookup s g t | save =>
      exact List.forall_mem_singleton.mpr trivial
  | importFrom origin =>
    simp only [Deed.plan]
    split
    · next document hread =>
      have hdocument := Json.sound_readJson hread
      split
      · next items hitems =>
        exact sound_importActs (Json.sound_elementsOrNone (fun _ => hdocument.field?) hitems)
      · simp
    · simp

theorem Lasting.done {deeds : List (Nat × Deed)} {s : State} (h : s.1.Lasting ticks)
    (hdeeds : ∀ d ∈ deeds, ticks d.1 ∧ d.2.Sound) : (done s deeds).1.Lasting ticks := by
  induction deeds generalizing s with
  | nil => exact h
  | cons p deeds ih =>
    obtain ⟨now, deed⟩ := p
    obtain ⟨⟨hnow, hdeed⟩, hdeeds⟩ := List.forall_mem_cons.mp hdeeds
    refine ih ?_ hdeeds
    change (deed.perform now s).1.Lasting ticks
    rw [deed.perform_eq]
    refine h.performed fun a ha => ?_
    obtain ⟨rfl, hact⟩ := mem_attempted ha
    exact ⟨hnow, hdeed.plan s.2 a.2 hact⟩

theorem done_sameSettings (s : State) (deeds : List (Nat × Deed)) :
    s.1.SameSettings (Memory.done s deeds).1 := by
  rw [done_eq]
  exact performed_sameSettings s _

theorem lasting_of_start {folder : Path} {digest : Text → Text} {every : Int} {m₀ : Memory}
    {v₀ : Volume} (hfile : v.content? (Memory.empty folder digest every).file = none)
    (hstart : (Memory.empty folder digest every).start now v = (.ok (), m₀, v₀)) :
    m₀.Lasting ticks := by
  obtain ⟨rfl, -⟩ := start_fresh hfile hstart
  have hempty : (Memory.empty folder digest every).Lasting ticks :=
    { distinct := List.nodup_nil
      keyed := by simp [Memory.empty]
      entries := by simp [Memory.empty]
      counters := ⟨0, 0, 0, rfl⟩
      headed := rfl
      header := Json.sound_record (by simp) ⟨.str _, .null, .null, .int 0⟩ }
  exact hempty.setHeader (by decide) (.int _)

end Localize.Memory
