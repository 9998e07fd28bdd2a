import Localize.Proofs.Memory.Chronicle
import Localize.Proofs.Memory.Saving
import Localize.Proofs.Memory.Storing

/-!
# Every history of a memory

A memory that has started without a file answers every sequence of operations as its chronicle
tells. A look-up gives what stands for the phrase; updating, verifying and deleting report whether
something stands, change nothing where nothing does, and leave all other keys alone. An operation
fails only where what is given cannot be stored or where the medium refuses a write, and a refused
write does not undo what the operation has done to the memory.
-/

namespace Localize.Memory

/-- What can be done to a memory. Languages are given by their codes. -/
inductive Op where
  | store (source target : Text) (text translation : Json) (notes : Fields) (verified : Bool)
  | storeAll (source target : Text) (notes : Fields) (pairs : List (Text × Json))
  | update (source target text translation : Text)
  | verify (source target text : Text)
  | delete (source target text : Text)
  | clear
  | lookup (source target text : Text)
  | lookupAll (source target : Text) (texts : List Text)
  | save

/-- What an operation gives when it comes to its end. -/
inductive Outcome where
  | done
  | changed (done : Bool)
  | found (translation : Option Json)
  | listed (lookups : Lookups)

/-- The outcome of an operation with the memory and the volume that it leaves. -/
def ending {α : Type} (f : α → Outcome) (r : Except Failure α × Memory × Volume) :
    Except Failure Outcome × Memory × Volume :=
  (r.1.map f, r.2)

namespace Op

def perform (now : Nat) (m : Memory) (v : Volume) : Op → Except Failure Outcome × Memory × Volume
  | .store s g text translation notes verified =>
    ending (fun _ => .done) (m.store now v (.ofCodes s g) text translation notes verified)
  | .storeAll s g notes pairs =>
    ending (fun _ => .done) (m.storeAll now v (.ofCodes s g) notes pairs)
  | .update s g t u => ending .changed (m.update now v (.ofCodes s g) t u)
  | .verify s g t => ending .changed (m.verify now v (.ofCodes s g) t)
  | .delete s g t => ending .changed (m.delete now v (.ofCodes s g) t)
  | .clear => ending (fun _ => .done) (m.clear now v)
  | .lookup s g t =>
    let (result, m) := m.lookup now (.ofCodes s g) t
    ending .found (result.mapError .fault, m, v)
  | .lookupAll s g texts =>
    let (result, m) := m.lookupAll now (.ofCodes s g) texts
    ending .listed (result.mapError .fault, m, v)
  | .save => ending (fun _ => .done) (m.saved now v ())

/-- The code of the target language, where the operation has one. -/
def target : Op → Text
  | .store _ g _ _ _ _ | .storeAll _ g _ _ | .update _ g _ _ | .verify _ g _ | .delete _ g _
  | .lookup _ g _ | .lookupAll _ g _ => g
  | .clear | .save => []

/-- The phrase that an operation changes if something stands for it, and what happens then. -/
def change? : Op → Option (Phrase × List Event)
  | .update s g t u => some (.of s g t, [.gave (.of s g t) (Text.strip u)])
  | .verify s g t => some (.of s g t, [])
  | .delete s g t => some (.of s g t, [.removed (.of s g t)])
  | _ => none

end Op

/-- A text that is not blank and a translation that is a text. -/
def Storable (text translation : Json) : Prop :=
  ∃ t u, text = .str t ∧ translation = .str u ∧ Text.allBlank t = false

/-- What storing translations in turn gives. -/
def givings (s g : Text) (pairs : List (Text × Json)) : List Event :=
  pairs.filterMap fun p => p.2.text?.map fun u => .gave (.of s g p.1) (Text.strip u)

theorem givings_cons (s g t u : Text) (pairs : List (Text × Json)) :
    givings s g ((t, .str u) :: pairs) =
      [.gave (.of s g t) (Text.strip u)] ++ givings s g pairs := rfl

/-- The operation writes the file, or may do so. -/
def Outcome.Writes : Outcome → Prop
  | .done | .changed true => True
  | .changed false | .found _ | .listed _ => False

/-- What an operation gives after some events when it comes to its end, and the events it adds. -/
inductive Op.Does (digest : Text → Text) (events : List Event) : Op → Outcome → List Event → Prop
  | store {s g t u : Text} {notes : Fields} {verified : Bool} (h : Text.allBlank t = false) :
      Does digest events (.store s g (.str t) (.str u) notes verified) .done
        [.gave (.of s g t) (Text.strip u)]
  | storeAll {s g : Text} {notes : Fields} {pairs : List (Text × Json)}
      (h : ∀ p ∈ pairs, Storable (.str p.1) p.2) :
      Does digest events (.storeAll s g notes pairs) .done (givings s g pairs)
  | change {op : Op} {x : Phrase} {new : List Event} {u : Text}
      (hchange : op.change? = some (x, new)) (hstands : Stands digest events x u) :
      Does digest events op (.changed true) new
  | absent {op : Op} {x : Phrase} {new : List Event} (hchange : op.change? = some (x, new))
      (hnone : ∀ u, ¬ Stands digest events x u) : Does digest events op (.changed false) []
  | clear : Does digest events .clear .done [.emptied]
  | lookup {s g t : Text} {found : Option Json}
      (h : ∀ v, found = some v ↔ ∃ u, v = .str u ∧ Stands digest events (.of s g t) u) :
      Does digest events (.lookup s g t) (.found found) []
  | lookupAll {s g : Text} {texts : List Text} {known : Text → Option Json}
      (h : ∀ t v, known t = some v ↔ ∃ u, v = .str u ∧ Stands digest events (.of s g t) u) :
      Does digest events (.lookupAll s g texts) (.listed (recalls known texts)) []
  | save : Does digest events .save .done []

/-- What an operation gives after some events, or how it fails, and the events it adds. -/
inductive Op.Answers (digest : Text → Text) (events : List Event) (v : Volume) :
    Op → Except Failure Outcome → List Event → Prop
  | does {op : Op} {outcome : Outcome} {new : List Event}
      (h : op.Does digest events outcome new) : Answers digest events v op (.ok outcome) new
  | unsaved {op : Op} {outcome : Outcome} {new : List Event} {failure : Failure}
      (h : op.Does digest events outcome new) (hwrites : outcome.Writes) (hrefuses : Refuses v) :
      Answers digest events v op (.error failure) new
  | unstorable {s g : Text} {text translation : Json} {notes : Fields} {verified : Bool}
      {failure : Failure} (h : ¬ Storable text translation) :
      Answers digest events v (.store s g text translation notes verified) (.error failure) []
  | partly {s g : Text} {notes : Fields} {first rest : List (Text × Json)} {failure : Failure}
      (hfirst : ∀ p ∈ first, Storable (.str p.1) p.2)
      (hrest : Refuses v ∨ ∃ p ∈ rest.head?, ¬ Storable (.str p.1) p.2) :
      Answers digest events v (.storeAll s g notes (first ++ rest)) (.error failure)
        (givings s g first)

/-- An operation that changes a phrase leaves the entries under all other keys alone. -/
def Op.Spares (op : Op) (digest : Text → Text) (m m' : Memory) : Prop :=
  ∀ x new, op.change? = some (x, new) → ∀ key ≠ Json.str (x.key digest),
    Table.find? m'.cache key = Table.find? m.cache key

/-- Operations performed one after another at given times answer as the events tell that came before
each of them. -/
inductive Recounts (digest : Text → Text) :
    List Event → Memory → Volume → List (Nat × Op) → Prop
  | nil {events : List Event} {m : Memory} {v : Volume} : Recounts digest events m v []
  | cons {events new : List Event} {m m' : Memory} {v v' : Volume} {now : Nat} {op : Op}
      {answer : Except Failure Outcome} {rest : List (Nat × Op)}
      (hperform : op.perform now m v = (answer, m', v'))
      (hanswers : op.Answers digest events v answer new) (hspares : op.Spares digest m m')
      (hsame : answer = .ok (.changed false) → m' = m ∧ v' = v)
      (hrest : Recounts digest (events ++ new) m' v' rest) :
      Recounts digest events m v ((now, op) :: rest)

/-! ### Saving -/

/-- A memory that mirrors the events, with a file that is there. -/
structure Follows (m : Memory) (v : Volume) (digest : Text → Text) (events : List Event) : Prop
    extends m.Mirrors digest events where
  filed : (v.content? m.file).isSome

variable {m m' m₁ : Memory} {v v' : Volume} {digest : Text → Text} {events new : List Event}
  {now : Nat} {s g t u : Text} {op : Op}

/-! ### One operation -/

/-- An operation that is performed answers as the events tell, and the memory follows them with the
events that are added. -/
structure Op.Step (op : Op) (digest : Text → Text) (events : List Event) (m : Memory) (v : Volume)
    (answer : Except Failure Outcome) (new : List Event) (m' : Memory) (v' : Volume) : Prop where
  answers : op.Answers digest events v answer new
  spares : op.Spares digest m m'
  same : answer = .ok (.changed false) → m' = m ∧ v' = v
  follows : m'.Follows v' digest (events ++ new)

/-- A memory that has changed as the operation is to change it, and is saved or not. -/
theorem step_of_written {α : Type} {f : α → Outcome} {a : α}
    {r : Except Failure α × Memory × Volume} (hfiled : (v.content? m.file).isSome)
    (hdoes : op.Does digest events (f a) new) (hwrites : (f a).Writes)
    (hmirrors : m₁.Mirrors digest (events ++ new)) (hfile : m₁.file = m.file)
    (hspares : op.Spares digest m m₁) (hr : r = (.ok a, m₁, v) ∨ r = m₁.saved now v a) :
    ∃ answer m' v', ending f r = (answer, m', v') ∧
      op.Step digest events m v answer new m' v' := by
  have hne : f a ≠ .changed false := by
    intro h
    rw [h] at hwrites
    exact hwrites
  have hfiled₁ : (v.content? m₁.file).isSome := by rwa [hfile]
  rcases hr with rfl | rfl
  · refine ⟨.ok (f a), m₁, v, rfl, .does hdoes, hspares, fun h => ?_, hmirrors, hfiled₁⟩
    exact absurd (Except.ok.inj h) hne
  · obtain ⟨r, v', hsaved, hfiled', -, hr⟩ := saved_filed hfiled₁ now a
    rw [hsaved]
    rcases hr with rfl | ⟨hrefuses, failure, rfl⟩
    · refine ⟨.ok (f a), m₁, v', rfl, .does hdoes, hspares, fun h => ?_, hmirrors, hfiled'⟩
      exact absurd (Except.ok.inj h) hne
    · exact ⟨.error failure, m₁, v', rfl, .unsaved hdoes hwrites hrefuses, hspares,
        (fun h => nomatch h), hmirrors, hfiled'⟩

/-! ### Looking up -/

theorem Mirrors.serves (h : m.Mirrors digest events) (d : Direction) (t : Text) : m.Serves d t :=
  ⟨⟨fun _ => h.misses, fun _ => h.uses _⟩, fun _ => h.hits⟩

/-- Looking up keeps a memory mirroring the events. -/
theorem Mirrors.used (h : m.Mirrors digest events) (hused : m.Used m') :
    m'.Mirrors digest events := by
  have hdistinct : (Table.keys m'.cache).Nodup := by
    rw [hused.keys]
    exact h.distinct
  apply h.same hused.toSameTexts hdistinct
  exact ⟨fun key => (hused.counted key).mpr (h.uses key), hused.counters.hits.mpr h.hits,
    hused.counters.misses.mpr h.misses, hused.counters.additions.mpr h.additions⟩

theorem Follows.used (h : m.Follows v digest events) (hused : m.Used m') :
    m'.Follows v digest events := by
  refine ⟨h.toMirrors.used hused, ?_⟩
  rw [file_eq hused.folder]
  exact h.filed

theorem Mirrors.known?_eq (h : m.Mirrors digest events) (hg : ':' ∉ g) (t : Text) :
    m.known? (.ofCodes s g) t = m.shown? s g t := by
  have hshown := h.shown s g t hg
  rw [shown?] at hshown ⊢
  rw [known?]
  cases hentry : m.entry? (.ofCodes s g) t with
  | none => rfl
  | some e =>
    rw [hentry] at hshown
    obtain ⟨u, hu, -⟩ := (hshown e.translation).mp rfl
    simp [hu]

/-! ### Storing -/

theorem store_unstorable {text translation : Json} (h : ¬ Storable text translation) (now : Nat)
    (d : Direction) (notes : Fields) (verified : Bool) :
    ∃ failure, m.store now v d text translation notes verified = (.error failure, m, v) := by
  unfold store
  cases text with
  | str t =>
    simp only
    cases hblank : Text.allBlank t with
    | true => exact ⟨_, rfl⟩
    | false =>
      cases translation with
      | str u => exact absurd ⟨t, u, rfl, rfl, hblank⟩ h
      | null | bool _ | int _ | float _ | arr _ | obj _ => exact ⟨_, rfl⟩
  | null | bool _ | int _ | float _ | arr _ | obj _ => exact ⟨_, rfl⟩

theorem store_follows (h : m.Follows v digest events) (hdigest : ∀ t, ':' ∉ digest t)
    (hg : ':' ∉ g) (now : Nat) (s : Text) (hblank : Text.allBlank t = false) (u : Text)
    (notes : Fields) (verified : Bool) :
    ∃ r m' v', m.store now v (.ofCodes s g) (.str t) (.str u) notes verified = (r, m', v') ∧
      m'.Follows v' digest (events ++ [.gave (.of s g t) (Text.strip u)]) ∧
      (Refuses v' → Refuses v) ∧
      ((∃ e, r = .ok e) ∨ Refuses v ∧ ∃ failure, r = .error failure) := by
  obtain ⟨m₁, e, hholds, he, hstore⟩ :=
    store_storable (u := u) h.additions now v (.ofCodes s g) hblank notes verified
  have hcounts : m₁.Counts := by
    refine ⟨fun key e' he' => ?_, hholds.hits ▸ h.hits, hholds.misses ▸ h.misses,
      hholds.additions.mpr h.additions⟩
    have hfind : Table.find? m₁.cache key =
        if m.key (.ofCodes s g) t = key then some e else Table.find? m.cache key := by
      rw [hholds.cache]
      exact Table.find?_insert _ _ _ _
    rw [hfind] at he'
    split at he'
    · cases he'
      rw [he]
      rfl
    · exact h.uses key e' he'
  have hmirrors : m₁.Mirrors digest (events ++ [.gave (.of s g t) (Text.strip u)]) := by
    apply h.toMirrors.gave hdigest hg _ _ hholds.digest hholds.cache hcounts
    · rw [he]
      rfl
    · rw [he]
      rfl
  have hfiled : (v.content? m₁.file).isSome := by
    rw [file, hholds.folder]
    exact h.filed
  rcases hstore with hstore | hstore
  · exact ⟨.ok e, m₁, v, hstore, ⟨hmirrors, hfiled⟩, id, .inl ⟨e, rfl⟩⟩
  · obtain ⟨r, v', hsaved, hfiled', hrefusals, hr⟩ := saved_filed hfiled now e
    refine ⟨r, m₁, v', hstore.trans hsaved, ⟨hmirrors, hfiled'⟩, refuses_of_tail hrefusals, ?_⟩
    rcases hr with hr | hr
    · exact .inl ⟨e, hr⟩
    · exact .inr hr

/-- Storing pairs in turn stores the first ones of them, all if it succeeds, and stops at a pair
that cannot be stored or where the medium refuses a write. -/
theorem storeAll_follows (h : m.Follows v digest events) (hdigest : ∀ t, ':' ∉ digest t)
    (hg : ':' ∉ g) (now : Nat) (s : Text) (notes : Fields) (pairs : List (Text × Json)) :
    ∃ r m' v' first rest, m.storeAll now v (.ofCodes s g) notes pairs = (r, m', v') ∧
      pairs = first ++ rest ∧ (∀ p ∈ first, Storable (.str p.1) p.2) ∧
      m'.Follows v' digest (events ++ givings s g first) ∧
      ((r = .ok () ∧ rest = []) ∨ (∃ failure, r = .error failure) ∧
        (Refuses v ∨ ∃ p ∈ rest.head?, ¬ Storable (.str p.1) p.2)) := by
  induction pairs generalizing m v events with
  | nil =>
    refine ⟨.ok (), m, v, [], [], rfl, rfl, fun p hp => absurd hp List.not_mem_nil, ?_,
      .inl ⟨rfl, rfl⟩⟩
    simpa [givings] using h
  | cons p pairs ih =>
    rw [storeAll]
    by_cases hstorable : Storable (.str p.1) p.2
    · have hfirst := hstorable
      obtain ⟨text, translation⟩ := p
      obtain ⟨t, u, ht, hu, hblank⟩ := hstorable
      cases ht
      simp only at hu
      subst hu
      obtain ⟨r, m₁, v₁, hstore, hfollows, hrefuses, hr⟩ :=
        store_follows h hdigest hg now s hblank u notes false
      rw [hstore]
      rcases hr with ⟨e, rfl⟩ | ⟨hmedium, failure, rfl⟩
      · obtain ⟨r, m', v', first, rest, hall, rfl, hstored, hfollows', hr⟩ := ih hfollows
        refine ⟨r, m', v', (text, .str u) :: first, rest, hall, rfl,
          List.forall_mem_cons.mpr ⟨hfirst, hstored⟩, ?_, ?_⟩
        · rw [givings_cons, ← List.append_assoc]
          exact hfollows'
        · rcases hr with hr | ⟨hr, hstop⟩
          · exact .inl hr
          · exact .inr ⟨hr, hstop.imp hrefuses id⟩
      · refine ⟨.error failure, m₁, v₁, [(text, .str u)], pairs, rfl, rfl, ?_, ?_,
          .inr ⟨⟨failure, rfl⟩, .inl hmedium⟩⟩
        · simpa using hfirst
        · exact hfollows
    · obtain ⟨failure, hstore⟩ :=
        store_unstorable (m := m) (v := v) hstorable now (.ofCodes s g) notes false
      rw [hstore]
      refine ⟨.error failure, m, v, [], p :: pairs, rfl, rfl,
        fun p hp => absurd hp List.not_mem_nil, ?_,
        .inr ⟨⟨failure, rfl⟩, .inr ⟨p, rfl, hstorable⟩⟩⟩
      simpa [givings] using h

/-! ### Changing -/

/-- An operation that changes the entry of a phrase: nothing happens where nothing stands, and
otherwise the memory changes as the events tell and is saved. -/
theorem step_of_change {r : Except Failure Bool × Memory × Volume} (h : m.Follows v digest events)
    (hg : ':' ∉ g) (hchange : op.change? = some (.of s g t, new))
    (habsent : m.entry? (.ofCodes s g) t = none → r = (.ok false, m, v))
    (hheld : ∀ e, m.entry? (.ofCodes s g) t = some e → ∃ m₁ : Memory, r = m₁.saved now v true ∧
      m₁.Mirrors digest (events ++ new) ∧ m₁.folder = m.folder ∧
      ∀ key ≠ m.key (.ofCodes s g) t, Table.find? m₁.cache key = Table.find? m.cache key) :
    ∃ answer added m' v', ending .changed r = (answer, m', v') ∧
      op.Step digest events m v answer added m' v' := by
  cases hentry : m.entry? (.ofCodes s g) t with
  | none =>
    have hnone := (h.toMirrors.shown_none hg).mp hentry
    refine ⟨.ok (.changed false), [], m, v, ?_, .does (.absent hchange hnone),
      fun _ _ _ _ _ => rfl, fun _ => ⟨rfl, rfl⟩, ?_⟩
    · rw [habsent hentry]
      rfl
    · simpa using h
  | some e =>
    obtain ⟨u, hstands⟩ := h.toMirrors.exists_stands hg hentry
    obtain ⟨m₁, hr, hmirrors, hfolder, hothers⟩ := hheld e hentry
    have hspares : op.Spares digest m m₁ := by
      intro x added hx key hkey
      rw [hchange] at hx
      cases hx
      apply hothers
      rw [key_eq_key_of, h.sameDigest]
      exact hkey
    obtain ⟨answer, m', v', hend, hstep⟩ := step_of_written h.filed
      (.change hchange hstands : op.Does digest events (.changed true) new) trivial hmirrors
      (file_eq hfolder) hspares (.inr hr)
    exact ⟨answer, new, m', v', hend, hstep⟩

theorem find?_setEntry_of_ne (m : Memory) (d : Direction) (t : Text) (e : Entry) {key : Json}
    (h : key ≠ m.key d t) : Table.find? (m.setEntry d t e).cache key = Table.find? m.cache key := by
  rw [setEntry, Table.find?_insert, if_neg (Ne.symm h)]

theorem counts_setEntry (h : m.Counts) (d : Direction) (t : Text) {e : Entry}
    (he : e.useCount.quantity?.isSome) : (m.setEntry d t e).Counts :=
  ⟨fun key => (countedAt_setEntry_iff he).mpr (.inr (h.uses key)), h.hits, h.misses, h.additions⟩

theorem change_of_some {d : Direction} {e : Entry} (he : m.entry? d t = some e) (now : Nat)
    (v : Volume) (f : Entry → Entry) :
    m.change now v d t f = (m.setEntry d t (f e)).saved now v true := by
  rw [change, he]

theorem delete_of_some {d : Direction} {e : Entry} (he : m.entry? d t = some e) (now : Nat)
    (v : Volume) : ∃ m₁ : Memory, m.delete now v d t = m₁.saved now v true ∧
      m₁.digest = m.digest ∧ m₁.folder = m.folder ∧ m₁.counters = m.counters ∧
      m₁.cache = Table.erase m.cache (m.key d t) := by
  unfold delete
  rw [he]
  exact ⟨_, rfl, rfl, rfl, rfl, rfl⟩

theorem step_update (h : m.Follows v digest events) (hdigest : ∀ t, ':' ∉ digest t)
    (hg : ':' ∉ g) (now : Nat) (s t u : Text) :
    ∃ answer new m' v', (Op.update s g t u).perform now m v = (answer, m', v') ∧
      (Op.update s g t u).Step digest events m v answer new m' v' := by
  apply step_of_change h hg rfl
  · intro hnone
    rw [update, change, hnone]
  · intro e he
    obtain ⟨hfind, hsource⟩ := entry?_eq_some_iff.mp he
    have hcount := h.uses _ e hfind
    refine ⟨_, change_of_some he now v _, ?_, rfl,
      fun key hkey => find?_setEntry_of_ne m _ t _ hkey⟩
    refine h.toMirrors.gave hdigest hg ?_ ?_ rfl rfl (counts_setEntry h.toCounts _ t hcount)
    · exact hsource
    · rfl

theorem step_verify (h : m.Follows v digest events) (hg : ':' ∉ g) (now : Nat) (s t : Text) :
    ∃ answer new m' v', (Op.verify s g t).perform now m v = (answer, m', v') ∧
      (Op.verify s g t).Step digest events m v answer new m' v' := by
  apply step_of_change h hg rfl
  · intro hnone
    rw [verify, change, hnone]
  · intro e he
    obtain ⟨hfind, -⟩ := entry?_eq_some_iff.mp he
    have hcount := h.uses _ e hfind
    refine ⟨_, change_of_some he now v _, ?_, rfl,
      fun key hkey => find?_setEntry_of_ne m _ t _ hkey⟩
    rw [List.append_nil]
    exact h.toMirrors.same (sameTexts_setEntry hfind rfl) (Table.nodup_keys_insert h.distinct _ _)
      (counts_setEntry h.toCounts _ t hcount)

theorem step_delete (h : m.Follows v digest events) (hdigest : ∀ t, ':' ∉ digest t)
    (hg : ':' ∉ g) (now : Nat) (s t : Text) :
    ∃ answer new m' v', (Op.delete s g t).perform now m v = (answer, m', v') ∧
      (Op.delete s g t).Step digest events m v answer new m' v' := by
  apply step_of_change h hg rfl
  · intro hnone
    rw [delete, hnone]
  · intro e he
    have hsome : m.entry? (.ofCodes s g) t ≠ none := by
      rw [he]
      exact Option.some_ne_none e
    obtain ⟨m₁, hdelete, hsame, hfolder, hcounters, hcache⟩ := delete_of_some he now v
    have hcounts : m₁.Counts := by
      refine ⟨fun key e' he' => ?_, ?_, ?_, ?_⟩
      · rw [hcache] at he'
        exact h.uses key e' (Table.find?_of_find?_erase h.distinct he')
      · rw [hcounters]
        exact h.hits
      · rw [hcounters]
        exact h.misses
      · rw [hcounters]
        exact h.additions
    refine ⟨m₁, hdelete, h.toMirrors.removed hdigest hg hsome hsame hcache hcounts, hfolder,
      fun key hkey => ?_⟩
    rw [hcache, Table.find?_erase_ne _ hkey.symm]

theorem counts_of_new (hcache : m.cache = []) (hcounters : m.counters = .zero) : m.Counts := by
  refine ⟨fun key e he => ?_, by rw [hcounters]; rfl, by rw [hcounters]; rfl,
    by rw [hcounters]; rfl⟩
  rw [hcache] at he
  cases he

/-! ### Any operation -/

theorem spares_of_change?_eq_none (h : op.change? = none) : op.Spares digest m m' := by
  intro x new hchange
  rw [h] at hchange
  cases hchange

theorem step_store (h : m.Follows v digest events) (hdigest : ∀ t, ':' ∉ digest t)
    (hg : ':' ∉ g) (now : Nat) (s : Text) (text translation : Json) (notes : Fields)
    (verified : Bool) : ∃ answer new m' v',
      (Op.store s g text translation notes verified).perform now m v = (answer, m', v') ∧
      (Op.store s g text translation notes verified).Step digest events m v answer new m' v' := by
  by_cases hstorable : Storable text translation
  · obtain ⟨t, u, rfl, rfl, hblank⟩ := hstorable
    obtain ⟨r, m', v', hstore, hfollows, -, hr⟩ :=
      store_follows h hdigest hg now s hblank u notes verified
    refine ⟨r.map fun _ => .done, _, m', v', by rw [Op.perform, hstore]; rfl, ?_,
      spares_of_change?_eq_none rfl, ?_, hfollows⟩
    · rcases hr with ⟨e, rfl⟩ | ⟨hrefuses, failure, rfl⟩
      · exact .does (.store hblank)
      · exact .unsaved (.store hblank) trivial hrefuses
    · rcases hr with ⟨e, rfl⟩ | ⟨-, failure, rfl⟩
      · exact fun h => nomatch h
      · exact fun h => nomatch h
  · obtain ⟨failure, hstore⟩ :=
      store_unstorable (m := m) (v := v) hstorable now (.ofCodes s g) notes verified
    refine ⟨.error failure, [], m, v, by rw [Op.perform, hstore]; rfl, .unstorable hstorable,
      spares_of_change?_eq_none rfl, (fun h => nomatch h), ?_⟩
    rwa [List.append_nil]

theorem step_storeAll (h : m.Follows v digest events) (hdigest : ∀ t, ':' ∉ digest t)
    (hg : ':' ∉ g) (now : Nat) (s : Text) (notes : Fields) (pairs : List (Text × Json)) :
    ∃ answer new m' v', (Op.storeAll s g notes pairs).perform now m v = (answer, m', v') ∧
      (Op.storeAll s g notes pairs).Step digest events m v answer new m' v' := by
  obtain ⟨r, m', v', first, rest, hstore, rfl, hfirst, hfollows, hr⟩ :=
    storeAll_follows h hdigest hg now s notes pairs
  refine ⟨r.map fun _ => .done, _, m', v', by rw [Op.perform, hstore]; rfl, ?_,
    spares_of_change?_eq_none rfl, ?_, hfollows⟩
  · rcases hr with ⟨rfl, rfl⟩ | ⟨⟨failure, rfl⟩, hstop⟩
    · rw [List.append_nil]
      exact .does (.storeAll hfirst)
    · exact .partly hfirst hstop
  · rcases hr with ⟨rfl, -⟩ | ⟨⟨failure, rfl⟩, -⟩
    · exact fun h => nomatch h
    · exact fun h => nomatch h

theorem step_clear (h : m.Follows v digest events) (now : Nat) :
    ∃ answer new m' v', Op.clear.perform now m v = (answer, m', v') ∧
      Op.clear.Step digest events m v answer new m' v' := by
  obtain ⟨m₁, hclear, hsame, hcache, hcounters, hfolder⟩ : ∃ m₁ : Memory,
      m.clear now v = m₁.saved now v () ∧ m₁.digest = m.digest ∧ m₁.cache = [] ∧
        m₁.counters = .zero ∧ m₁.folder = m.folder := ⟨_, rfl, rfl, rfl, rfl, rfl⟩
  have hcounts : m₁.Counts := counts_of_new hcache hcounters
  have hmirrors : m₁.Mirrors digest (events ++ [.emptied]) :=
    mirrors_of_empty (hsame.trans h.sameDigest) hcache hcounts fun _ _ => not_stands_emptied
  obtain ⟨answer, m', v', hend, hstep⟩ := step_of_written (f := fun _ => .done) h.filed
    (.clear : Op.clear.Does digest events .done [.emptied]) trivial hmirrors (file_eq hfolder)
    (spares_of_change?_eq_none rfl) (.inr hclear)
  exact ⟨answer, _, m', v', hend, hstep⟩

theorem step_lookup (h : m.Follows v digest events) (hg : ':' ∉ g) (now : Nat) (s t : Text) :
    ∃ answer new m' v', (Op.lookup s g t).perform now m v = (answer, m', v') ∧
      (Op.lookup s g t).Step digest events m v answer new m' v' := by
  obtain ⟨result, m', hlookup⟩ := exists_lookup now (h.toMirrors.serves (.ofCodes s g) t)
  obtain ⟨hresult, hused, -⟩ := lookup_ok hlookup
  obtain rfl : result = m.shown? s g t := hresult
  refine ⟨.ok (.found (m.shown? s g t)), [], m', v, by rw [Op.perform, hlookup]; rfl,
    .does (.lookup (h.shown s g t hg)), spares_of_change?_eq_none rfl, (fun h => nomatch h), ?_⟩
  rw [List.append_nil]
  exact h.used hused

theorem step_lookupAll (h : m.Follows v digest events) (hg : ':' ∉ g) (now : Nat) (s : Text)
    (texts : List Text) :
    ∃ answer new m' v', (Op.lookupAll s g texts).perform now m v = (answer, m', v') ∧
      (Op.lookupAll s g texts).Step digest events m v answer new m' v' := by
  obtain ⟨l, m', hall⟩ :=
    exists_lookupAll now fun t (_ : t ∈ texts) => h.toMirrors.serves (.ofCodes s g) t
  have hknown : m.known? (.ofCodes s g) = m.shown? s g :=
    funext fun t => h.toMirrors.known?_eq hg t
  obtain ⟨hl, hused, -⟩ := lookupAll_ok hall
  rw [hknown] at hl
  refine ⟨.ok (.listed l), [], m', v, by rw [Op.perform, hall]; rfl, ?_,
    spares_of_change?_eq_none rfl, (fun h => nomatch h), ?_⟩
  · rw [hl]
    exact .does (.lookupAll fun t v => h.shown s g t hg v)
  · rw [List.append_nil]
    exact h.used hused

theorem step_save (h : m.Follows v digest events) (now : Nat) :
    ∃ answer new m' v', Op.save.perform now m v = (answer, m', v') ∧
      Op.save.Step digest events m v answer new m' v' := by
  have hmirrors : m.Mirrors digest (events ++ []) := by
    rw [List.append_nil]
    exact h.toMirrors
  obtain ⟨answer, m', v', hend, hstep⟩ := step_of_written (f := fun _ => .done) h.filed
    (.save : Op.save.Does digest events .done []) trivial hmirrors rfl
    (spares_of_change?_eq_none rfl)
    (.inr rfl : m.saved now v () = (.ok (), m, v) ∨ m.saved now v () = m.saved now v ())
  exact ⟨answer, [], m', v', hend, hstep⟩

/-- Whatever operation is performed, it answers as the events tell. -/
theorem step_perform (h : m.Follows v digest events) (hdigest : ∀ t, ':' ∉ digest t)
    (hplain : ':' ∉ op.target) (now : Nat) :
    ∃ answer new m' v', op.perform now m v = (answer, m', v') ∧
      op.Step digest events m v answer new m' v' := by
  cases op with
  | store s g text translation notes verified =>
    exact step_store h hdigest hplain now s text translation notes verified
  | storeAll s g notes pairs => exact step_storeAll h hdigest hplain now s notes pairs
  | update s g t u => exact step_update h hdigest hplain now s t u
  | verify s g t => exact step_verify h hplain now s t
  | delete s g t => exact step_delete h hdigest hplain now s t
  | clear => exact step_clear h now
  | lookup s g t => exact step_lookup h hplain now s t
  | lookupAll s g texts => exact step_lookupAll h hplain now s texts
  | save => exact step_save h now

/-! ### Histories -/

theorem Follows.recounts (h : m.Follows v digest events) (hdigest : ∀ t, ':' ∉ digest t)
    {ops : List (Nat × Op)} (hplain : ∀ p ∈ ops, ':' ∉ p.2.target) :
    Recounts digest events m v ops := by
  induction ops generalizing m v events with
  | nil => exact .nil
  | cons p ops ih =>
    obtain ⟨hop, hrest⟩ := List.forall_mem_cons.mp hplain
    obtain ⟨answer, new, m', v', hperform, hstep⟩ := step_perform h hdigest hop p.1
    exact .cons hperform hstep.answers hstep.spares hstep.same (ih hstep.follows hrest)

/-- A memory that has started without a file has written its first one, and nothing stands. -/
theorem follows_of_start {folder : Path} {every : Int} {m₀ : Memory} {v₀ : Volume}
    (hfile : v.content? (Memory.empty folder digest every).file = none)
    (hstart : (Memory.empty folder digest every).start now v = (.ok (), m₀, v₀)) :
    m₀.Follows v₀ digest [] := by
  obtain ⟨rfl, v₁, hsave⟩ := start_fresh hfile hstart
  refine ⟨mirrors_of_empty rfl rfl (counts_of_new rfl rfl) fun _ _ => not_stands_nil, ?_⟩
  rw [file, (save_written hsave).done rfl]
  rfl

/-- A memory that starts in a folder without a memory file answers every sequence of operations as
its chronicle tells, whatever the digest is, as long as no target code and no digest holds a colon.
-/
theorem recounts_of_start {folder : Path} {every : Int} {m₀ : Memory} {v₀ : Volume}
    (hdigest : ∀ t, ':' ∉ digest t)
    (hfile : v.content? (Memory.empty folder digest every).file = none)
    (hstart : (Memory.empty folder digest every).start now v = (.ok (), m₀, v₀))
    {ops : List (Nat × Op)} (hplain : ∀ p ∈ ops, ':' ∉ p.2.target) :
    Recounts digest [] m₀ v₀ ops :=
  (follows_of_start hfile hstart).recounts hdigest hplain

/-- A memory in an empty folder under a digest that is the same for all texts, saved at every second
addition. -/
def crowded : Memory := .empty ⟨false, ["memory".toList]⟩ (fun _ => ['0']) 2

theorem recounts_of_start_crowded :
    ∃ m₀ v₀, crowded.start 0 (.ofEntries []) = (.ok (), m₀, v₀) ∧
      Recounts (fun _ => ['0']) [] m₀ v₀ [
        (1, .store "en".toList "es".toList (Json.lit " Save ") (Json.lit "Guardar") [] false),
        (2, .lookup "en".toList "es".toList "Save".toList),
        (3, .storeAll "en".toList "es".toList [] [("Open".toList, Json.lit "Abrir ")]),
        (4, .lookup "en".toList "es".toList "Save".toList),
        (5, .delete "en".toList "es".toList "Save".toList),
        (6, .update "en".toList "es".toList "Open".toList "Abra".toList),
        (7, .lookupAll "en".toList "es".toList ["Open".toList, "Save".toList]),
        (8, .clear)] := by
  have hok : (crowded.start 0 (.ofEntries [])).1.isOk = true := by decide +kernel
  cases hstart : crowded.start 0 (.ofEntries []) with
  | mk outcome rest =>
    obtain ⟨m₀, v₀⟩ := rest
    cases outcome with
    | error failure =>
      rw [hstart] at hok
      cases hok
    | ok done =>
      have hfile : (Volume.ofEntries []).content? crowded.file = none := by decide
      exact ⟨m₀, v₀, rfl, recounts_of_start (fun _ => by decide) hfile hstart (by decide)⟩

end Localize.Memory
