import Localize.Proofs.Memory.Lasting
import Localize.Proofs.Project.Importing
import Localize.Proofs.Text.Blank

/-!
# Entries handed over

Every entry of a memory lies under the key of its texts, which are trimmed, and its source text is
not blank. So a memory without entries that imports what another one exports has the same entries
under the same keys in the same order, without those whose translation is blank. Each of them is
stored like a new one: texts, languages and the mark of a verified entry are those of the other
memory, whereas the use count begins at one again, although the document gives it.
-/

namespace Localize.Memory

variable {digest : Text → Text} {m : Memory} {key : Json} {e : Entry} {d : Direction} {s t u : Text}
  {now again : Nat}

/-! ### Entries under their own keys -/

/-- An entry with a trimmed source text that is not blank and a trimmed translation, under the key
of the source text. -/
structure Entry.Keyed (digest : Text → Text) (key : Json) (e : Entry) (s t : Text) : Prop where
  sourceText : e.sourceText = .str s
  translation : e.translation = .str t
  trimmedSource : Text.strip s = s
  trimmedTranslation : Text.strip t = t
  notBlank : Text.allBlank s = false
  key : key = .str (keyOf digest e.direction s)

/-- A memory whose entries lie under their own keys. -/
structure Orderly (digest : Text → Text) (m : Memory) : Prop where
  sameDigest : m.digest = digest
  entries : ∀ p ∈ m.cache, ∃ s t, p.2.Keyed digest p.1 s t

theorem keyed_ofTranslation (digest : Text → Text) (now : Nat) (d : Direction)
    (hblank : Text.allBlank s = false) (u : Text) (verified : Bool) (notes : Fields) :
    (Entry.ofTranslation now d s u verified notes).Keyed digest (.str (keyOf digest d s))
      (Text.strip s) (Text.strip u) where
  sourceText := rfl
  translation := rfl
  trimmedSource := Text.strip_strip s
  trimmedTranslation := Text.strip_strip u
  notBlank := by rwa [Text.allBlank_strip]
  key := by
    change Json.str (keyOf digest d s) = .str (keyOf digest d (Text.strip s))
    rw [keyOf, keyOf, Text.strip_strip]

/-- What an act can leave of the entries: all of them as they are, a new one in place of the one
under its key, one changed that keeps its source text and languages, all but one, or none. -/
inductive Leaves (m : Memory) : Table Json Entry → Prop
  | same : Leaves m m.cache
  | stored (now : Nat) (d : Direction) {s : Text} (hblank : Text.allBlank s = false) (u : Text)
      (verified : Bool) (notes : Fields) :
      Leaves m (Table.insert m.cache (m.key d s) (Entry.ofTranslation now d s u verified notes))
  | changed {d : Direction} {s : Text} {e e' : Entry} (hentry : m.entry? d s = some e)
      (hsource : e'.sourceText = e.sourceText) (hdirection : e'.direction = e.direction)
      (htranslation : e'.translation = e.translation ∨ ∃ u, e'.translation = .str (Text.strip u)) :
      Leaves m (Table.insert m.cache (m.key d s) e')
  | deleted (key : Json) : Leaves m (Table.erase m.cache key)
  | cleared : Leaves m []

theorem leaves_store (m : Memory) (now : Nat) (v : Volume) (d : Direction) (text translation : Json)
    (notes : Fields) (verified : Bool) :
    (m.store now v d text translation notes verified).2.1.digest = m.digest ∧
      m.Leaves (m.store now v d text translation notes verified).2.1.cache := by
  by_cases hstorable : Storable text translation
  · obtain ⟨t, u, rfl, rfl, hblank⟩ := hstorable
    rw [store_memory hblank]
    have hleaves := Leaves.stored (m := m) now d hblank u verified (keptNotes notes)
    unfold put
    dsimp only
    split
    · exact ⟨rfl, hleaves⟩
    · exact ⟨rfl, hleaves⟩
  · obtain ⟨failure, hstore⟩ := store_unstorable (m := m) (v := v) hstorable now d notes verified
    rw [hstore]
    exact ⟨rfl, .same⟩

theorem leaves_lookup (m : Memory) (now : Nat) (d : Direction) (s : Text) :
    (m.lookup now d s).2.digest = m.digest ∧ m.Leaves (m.lookup now d s).2.cache := by
  unfold lookup
  cases hentry : m.entry? d s with
  | none =>
    dsimp only
    split
    · exact ⟨rfl, .same⟩
    · exact ⟨rfl, .same⟩
  | some e =>
    have htouch : (m.touch now d s e).2.digest = m.digest ∧
        m.Leaves (m.touch now d s e).2.cache := by
      unfold touch
      dsimp only
      split
      · exact ⟨rfl, .changed hentry rfl rfl (.inl rfl)⟩
      · split
        · exact ⟨rfl, .changed hentry rfl rfl (.inl rfl)⟩
        · exact ⟨rfl, .changed hentry rfl rfl (.inl rfl)⟩
    dsimp only
    cases hresult : m.touch now d s e with
    | mk result m' =>
      rw [hresult] at htouch
      cases result <;> exact htouch

theorem leaves_change (m : Memory) (now : Nat) (v : Volume) (d : Direction) (s : Text)
    {f : Entry → Entry} (hsource : ∀ e, (f e).sourceText = e.sourceText)
    (hdirection : ∀ e, (f e).direction = e.direction)
    (htranslation : ∀ e, (f e).translation = e.translation ∨
      ∃ u, (f e).translation = .str (Text.strip u)) :
    (m.change now v d s f).2.1.digest = m.digest ∧ m.Leaves (m.change now v d s f).2.1.cache := by
  cases hentry : m.entry? d s with
  | none =>
    rw [change, hentry]
    exact ⟨rfl, .same⟩
  | some e =>
    rw [change_of_some hentry, saved_memory]
    exact ⟨rfl, .changed hentry (hsource e) (hdirection e) (htranslation e)⟩

theorem leaves_perform (act : Act) (now : Nat) (s : State) :
    (act.perform now s).2.1.digest = s.1.digest ∧ s.1.Leaves (act.perform now s).2.1.cache := by
  obtain ⟨m, v⟩ := s
  cases act with
  | store d text translation notes verified =>
    exact leaves_store m now v d text translation notes verified
  | update d text translation =>
    exact leaves_change m now v d text (fun _ => rfl) (fun _ => rfl) fun _ => .inr ⟨_, rfl⟩
  | verify d text =>
    exact leaves_change m now v d text (fun _ => rfl) (fun _ => rfl) fun _ => .inl rfl
  | delete d text =>
    change (m.delete now v d text).2.1.digest = m.digest ∧
      m.Leaves (m.delete now v d text).2.1.cache
    unfold delete
    split
    · exact ⟨rfl, .same⟩
    · rw [saved_memory]
      exact ⟨rfl, .deleted _⟩
  | clear =>
    change (Memory.saved _ now v ()).2.1.digest = m.digest ∧
      m.Leaves (Memory.saved _ now v ()).2.1.cache
    rw [saved_memory]
    exact ⟨rfl, .cleared⟩
  | lookup d text => exact leaves_lookup m now d text
  | save =>
    change (m.saved now v ()).2.1.digest = m.digest ∧ m.Leaves (m.saved now v ()).2.1.cache
    rw [saved_memory]
    exact ⟨rfl, .same⟩

namespace Orderly

variable {cache : Table Json Entry}

theorem insert (h : m.Orderly digest) (he : e.Keyed digest key s t) :
    ∀ p ∈ Table.insert m.cache key e, ∃ s t, p.2.Keyed digest p.1 s t := by
  intro p hp
  rcases Table.of_mem_insert hp with rfl | hp
  · exact ⟨s, t, he⟩
  · exact h.entries p hp

/-- Every entry that an act leaves lies under its own key. -/
theorem leaves (h : m.Orderly digest) (hleaves : m.Leaves cache) :
    ∀ p ∈ cache, ∃ s t, p.2.Keyed digest p.1 s t := by
  cases hleaves with
  | same => exact h.entries
  | stored now d hblank u verified notes =>
    rw [Memory.key, h.sameDigest]
    exact h.insert (keyed_ofTranslation digest now d hblank u verified notes)
  | @changed d s e e' hentry hsource hdirection htranslation =>
    obtain ⟨hfind, -⟩ := entry?_eq_some_iff.mp hentry
    obtain ⟨s', t, hkeyed⟩ := h.entries _ (Table.mem_of_find? hfind)
    have hsource' : e'.sourceText = .str s' := hsource.trans hkeyed.sourceText
    have hkey : m.key d s = .str (keyOf digest e'.direction s') := hdirection ▸ hkeyed.key
    rcases htranslation with hsame | ⟨u, hnew⟩
    · exact h.insert ⟨hsource', hsame.trans hkeyed.translation, hkeyed.trimmedSource,
        hkeyed.trimmedTranslation, hkeyed.notBlank, hkey⟩
    · exact h.insert ⟨hsource', hnew, hkeyed.trimmedSource, Text.strip_strip u, hkeyed.notBlank,
        hkey⟩
  | deleted key => exact fun p hp => h.entries p ((Table.erase_sublist m.cache key).subset hp)
  | cleared => exact fun p hp => absurd hp List.not_mem_nil

theorem perform {s : State} (h : s.1.Orderly digest) (act : Act) (now : Nat) :
    (act.perform now s).2.1.Orderly digest :=
  have ⟨hdigest, hleaves⟩ := leaves_perform act now s
  ⟨hdigest.trans h.sameDigest, h.leaves hleaves⟩

theorem performed {s : State} (h : s.1.Orderly digest) (acts : List (Nat × Act)) :
    (performed s acts).1.Orderly digest := by
  induction acts generalizing s with
  | nil => exact h
  | cons a acts ih => exact ih (h.perform a.2 a.1)

theorem done {s : State} (h : s.1.Orderly digest) (deeds : List (Nat × Deed)) :
    (done s deeds).1.Orderly digest := by
  rw [done_eq]
  exact h.performed _

end Orderly

/-! ### Handing over -/

/-- The item of an entry in the document for other programs. -/
def Entry.exported (e : Entry) : Json :=
  .obj (Json.record [("source", e.sourceText), ("translation", e.translation),
    ("sourceLang", e.direction.source), ("targetLang", e.direction.target),
    ("useCount", e.useCount), ("verified", .bool e.verified)])

/-- The translation of the entry has something in it. -/
def Entry.isTranslated (e : Entry) : Bool := !Text.allBlank (e.translation.text?.getD [])

/-- The entry as it is stored when it is imported. -/
def Entry.imported (now : Nat) (e : Entry) : Entry :=
  { e with
    createdAt := .nat now
    lastUsed := .nat now
    useCount := .nat 1
    notes := keptNotes [] }

/-- The entries whose translation has something in it. -/
def translated (m : Memory) : Table Json Entry := m.cache.filter fun p => p.2.isTranslated

/-- What an entry gives another memory. -/
def Entry.given (e : Entry) : Foreign :=
  ⟨e.direction, e.sourceText.text?.getD [], e.translation.text?.getD [], e.verified⟩

namespace Entry.Keyed

theorem isTranslated (h : e.Keyed digest key s t) : e.isTranslated = !Text.allBlank t := by
  rw [Entry.isTranslated, h.translation]
  rfl

theorem judged_exported (h : e.Keyed digest key s t) :
    (e.isTranslated = true → Judged e.exported (.ok (some e.given))) ∧
      (e.isTranslated = false → Judged e.exported (.ok none)) := by
  rw [h.isTranslated]
  constructor
  · intro htranslated
    have hsource : e.given.source = s := by rw [given, h.sourceText]; rfl
    have htranslation : e.given.translation = t := by rw [given, h.translation]; rfl
    refine .wellFormed ⟨?_, ?_, ?_, ?_, rfl, rfl, ?_⟩
    · rw [hsource, ← h.sourceText]
      rfl
    · rw [hsource]
      exact h.notBlank
    · rw [htranslation, ← h.translation]
      rfl
    · rw [htranslation]
      simpa using htranslated
    · change e.verified = (Json.bool e.verified).isSomething
      cases e.verified <;> rfl
  · intro hblank
    refine .untranslated fun t' ht' => ?_
    have hfield : Table.find? (Json.record [("source", e.sourceText),
      ("translation", e.translation), ("sourceLang", e.direction.source),
      ("targetLang", e.direction.target), ("useCount", e.useCount),
      ("verified", .bool e.verified)]) "translation".toList = some e.translation := rfl
    rw [hfield, h.translation] at ht'
    cases ht'
    simpa using hblank

/-- Another memory stores an entry that it is given under the same key. -/
theorem pair_given (h : e.Keyed digest key s t) (now : Nat) :
    e.given.pair digest now = (key, e.imported now) := by
  have hgiven : e.given = ⟨e.direction, s, t, e.verified⟩ := by
    rw [given, h.sourceText, h.translation]
    rfl
  rw [hgiven, Foreign.pair, ofTranslation, h.trimmedSource, h.trimmedTranslation, ← h.key,
    ← h.sourceText, ← h.translation, imported]

end Entry.Keyed

variable {ticks : Nat → Prop} {b : Memory} {v w : Volume} {target : Text}

theorem Lasting.sound_exportDocument (h : m.Lasting ticks) (now : Nat) :
    (m.exportDocument now).Sound := by
  refine Json.sound_record (by simp) ⟨Json.sound_find?_getD (Json.sound_obj_iff.mp h.header).2
    (.str _) _, .str _, .int _, .arr fun item hitem => ?_⟩
  obtain ⟨e, he, rfl⟩ := List.mem_map.mp hitem
  obtain ⟨p, hp, rfl⟩ := List.mem_map.mp he
  have hentry := h.entries p hp
  obtain ⟨n, hcount⟩ := hentry.useCount
  exact Json.sound_record (by simp) ⟨hentry.sourceText, hentry.translation, hentry.source,
    hentry.target, hcount ▸ .int n, .bool _⟩

/-- An export where the file can be written leaves the document there. -/
theorem exists_exportTo (m : Memory) (hwrite : v.CanWrite (.ofText target)) (now : Nat) :
    ∃ v₁, m.exportTo now v target = (.ok m.size, v₁) ∧
      v₁.content? (.ofText target) = some (.text (m.exportDocument now).document) := by
  obtain ⟨v₁, hdone, -⟩ := hwrite.writeJson (m.exportDocument now)
  exact ⟨v₁, by simp only [exportTo, hdone], Volume.content?_of_writeJson hdone⟩

namespace Orderly

/-- An import takes the entries that are translated, in their order. -/
theorem sifted (h : m.Orderly digest) :
    Sifted Judged (m.cache.values.map Entry.exported)
      (m.translated.map fun p => p.2.given) none := by
  rw [Table.values, List.map_map, translated]
  refine sifted_filter (fun p hp => ?_) fun p hp => ?_
  · obtain ⟨s, t, hkeyed⟩ := h.entries p hp
    exact hkeyed.judged_exported.1
  · obtain ⟨s, t, hkeyed⟩ := h.entries p hp
    exact hkeyed.judged_exported.2

/-- The entries that are given away are stored under the keys that they have. -/
theorem pairs_given (h : m.Orderly digest) (now : Nat) :
    (m.translated.map fun p => p.2.given).map (Foreign.pair digest now) =
      m.translated.map fun p => (p.1, p.2.imported now) := by
  rw [List.map_map]
  refine List.map_congr_left fun p hp => ?_
  obtain ⟨s, t, hkeyed⟩ := h.entries p (List.mem_filter.mp hp).1
  exact hkeyed.pair_given now

/-- A memory without entries that imports the document has the translated entries. -/
theorem importFrom (h : m.Orderly digest) (hlasting : m.Lasting ticks) (again : Nat)
    (hfile : w.content? (.ofText target) = some (.text (m.exportDocument now).document))
    (hempty : b.cache = []) (hdigest : b.digest = digest)
    (hcount : b.counters.additions.quantity?.isSome) (hsave : b.CanSave w) :
    ∃ b' w', b.importFrom again w target = (.ok m.translated.length, b', w') ∧
      b'.cache = m.translated.map fun p => (p.1, p.2.imported again) := by
  have hread : w.readJson (.ofText target) = .ok (some (m.exportDocument now)) :=
    Volume.readJson_eq_some_iff.mpr ⟨_, hfile,
      Json.read_document (hlasting.sound_exportDocument now)⟩
  have hitems : Json.elementsOrNone ((m.exportDocument now).field? "entries".toList) =
      .ok (m.cache.values.map Entry.exported) := Json.elementsOrNone_arr _
  obtain ⟨b₁, w₁, himport, hholds, hcan⟩ := importItems_sifted again 0 h.sifted (.inr hcount) hsave
  obtain ⟨w', hsaved, -⟩ := hcan.saved again m.translated.length
  have hdistinct : (Table.keys (m.translated.map fun p => (p.1, p.2.imported again))).Nodup := by
    have hkeys : Table.keys (m.translated.map fun p => (p.1, p.2.imported again)) =
        Table.keys m.translated := by
      rw [Table.keys, Table.keys, List.map_map]
      rfl
    rw [hkeys]
    exact hlasting.distinct.sublist (List.filter_sublist.map _)
  refine ⟨b₁, w', ?_, ?_⟩
  · rw [List.length_map, Nat.zero_add] at himport
    simp only [Memory.importFrom, hread, hitems, himport, countOrEnd, hsaved]
  · rw [hholds.cache, hempty, hdigest, h.pairs_given]
    exact Table.ofPairs_of_nodup hdistinct

end Orderly

/-- Whatever is done to a memory that has started without a file: its export tells the number of its
entries, and a memory without entries that imports the document tells the number of entries whose
translation is not blank. It has exactly these under the same keys in the same order, each with the
source text, the translation, the languages and the mark of a verified entry that it had. Its use
count is one, whatever it was. -/
theorem export_import_recounts {folder : Path} {every : Int} {m₀ : Memory} {v₀ : Volume}
    (hfile : v.content? (Memory.empty folder digest every).file = none)
    (hstart : (Memory.empty folder digest every).start now v = (.ok (), m₀, v₀))
    {deeds : List (Nat × Deed)} (hdeeds : ∀ d ∈ deeds, d.2.Sound) {v₁ : Volume}
    (hdone : done (m₀, v₀) deeds = (m, v₁)) {v₂ : Volume} (hwrite : v₂.CanWrite (.ofText target))
    (later : Nat) :
    ∃ v₃, m.exportTo later v₂ target = (.ok m.size, v₃) ∧
      ∀ (b : Memory) (w : Volume) (again : Nat),
        w.content? (.ofText target) = v₃.content? (.ofText target) →
        b.cache = [] → b.digest = digest → b.counters.additions.quantity?.isSome → b.CanSave w →
        ∃ b' w', b.importFrom again w target = (.ok m.translated.length, b', w') ∧
          b'.cache = m.translated.map fun p => (p.1, p.2.imported again) := by
  have hlasting : m.Lasting fun _ => True := by
    have hfresh : m₀.Lasting fun _ => True := lasting_of_start hfile hstart
    have h := hfresh.done (s := (m₀, v₀)) fun d hd => ⟨trivial, hdeeds d hd⟩
    rwa [hdone] at h
  have horderly : m.Orderly digest := by
    have hfresh : m₀.Orderly digest := by
      rw [(start_fresh hfile hstart).1]
      exact ⟨rfl, fun p hp => absurd hp List.not_mem_nil⟩
    have h := hfresh.done (s := (m₀, v₀)) deeds
    rwa [hdone] at h
  obtain ⟨v₃, hexport, hwritten⟩ := exists_exportTo m hwrite later
  refine ⟨v₃, hexport, fun b w again hsame hempty hdigest hcount hsave => ?_⟩
  exact horderly.importFrom hlasting again (hsame.trans hwritten) hempty hdigest hcount hsave

/-- A translation that is looked up, a verified one, and one that is changed to blanks. -/
def greetingDeeds : List (Nat × Deed) := [
  (2, .ofOp (.store "en".toList "es".toList (Json.lit "Hello") (Json.lit "Hola") [] false)),
  (3, .ofOp (.lookup "en".toList "es".toList "Hello".toList)),
  (4, .ofOp (.store "en".toList "es".toList (Json.lit " Bye ") (Json.lit "Adiós") [] true)),
  (5, .ofOp (.store "en".toList "es".toList (Json.lit "Yes") (Json.lit "Sí") [] false)),
  (6, .ofOp (.update "en".toList "es".toList "Yes".toList " ".toList))]

theorem sound_greetingDeeds : ∀ d ∈ greetingDeeds, d.2.Sound := by
  simp [greetingDeeds, Deed.Sound]

def greetingMemory : Memory := .empty ⟨false, ["mem".toList]⟩ id 50

def otherMemory : Memory := .empty ⟨false, ["other".toList]⟩ id 50

/-- The look-up is lost: the entry with the use count two is imported with the use count one. -/
theorem export_import_recounts_greetings :
    ∃ m₀ v₀ m v₁ v₃ b' w', greetingMemory.start 1 (.ofEntries []) = (.ok (), m₀, v₀) ∧
      done (m₀, v₀) greetingDeeds = (m, v₁) ∧
      m.exportTo 7 (.ofEntries []) "out.json".toList = (.ok 3, v₃) ∧
      otherMemory.importFrom 8 v₃ "out.json".toList = (.ok 2, b', w') ∧
      m.translated.values.map Entry.useCount = [.nat 2, .nat 1] ∧
      b'.cache.values.map Entry.useCount = [.nat 1, .nat 1] := by
  have hok : (greetingMemory.start 1 (.ofEntries [])).1.isOk = true := by decide +kernel
  have hsize : (done (greetingMemory.start 1 (.ofEntries [])).2 greetingDeeds).1.size = 3 := by
    decide +kernel
  have hcounts : (done (greetingMemory.start 1 (.ofEntries [])).2
      greetingDeeds).1.translated.values.map Entry.useCount = [.nat 2, .nat 1] := by
    decide +kernel
  have hsave : otherMemory.CanSave ((done (greetingMemory.start 1 (.ofEntries [])).2
      greetingDeeds).1.exportTo 7 (.ofEntries []) "out.json".toList).2 :=
    Volume.canWrite_of_isOk (by decide +kernel) (by decide +kernel)
  rcases hstart : greetingMemory.start 1 (.ofEntries []) with ⟨r, m₀, v₀⟩
  rw [hstart] at hok hsize hcounts hsave
  cases r with
  | error failure => cases hok
  | ok done₀ =>
    rcases hdone : done (m₀, v₀) greetingDeeds with ⟨m, v₁⟩
    rw [hdone] at hsize hcounts hsave
    have hfile : (Volume.ofEntries []).content? greetingMemory.file = none := by decide
    have hwrite : (Volume.ofEntries []).CanWrite (.ofText "out.json".toList) :=
      ⟨rfl, .null, _, rfl⟩
    obtain ⟨v₃, hexport, himports⟩ :=
      export_import_recounts hfile hstart sound_greetingDeeds hdone hwrite 7
    rw [hexport] at hsave
    obtain ⟨b', w', himport, hcache⟩ := himports otherMemory v₃ 8 rfl rfl rfl rfl hsave
    have hlength : m.translated.length = 2 := by
      have hmap := congrArg List.length hcounts
      rwa [List.length_map, Table.values, List.length_map] at hmap
    refine ⟨m₀, v₀, m, v₁, v₃, b', w', rfl, hdone, hsize ▸ hexport, hlength ▸ himport, hcounts, ?_⟩
    have hone : b'.cache.values.map Entry.useCount = m.translated.map fun _ => Json.nat 1 := by
      rw [hcache, Table.values, List.map_map, List.map_map]
      rfl
    rw [hone, List.map_const', hlength]
    rfl

end Localize.Memory
