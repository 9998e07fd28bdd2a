import Localize.Proofs.Memory.Recall
import Localize.Proofs.Text.Basic

/-!
# What a memory has been given

A translation is given to a phrase, which is a trimmed text with its two languages, and stands until
another one is given to the phrase, the phrase is removed, or the memory is emptied. It also gives
way to a translation of another text whose digest is the same, but never to one for other languages:
a key tells the languages as long as neither the target's code nor a digest holds a colon. A memory
that mirrors a list of events answers for every phrase with the translation that stands.
-/

namespace Localize.Memory

/-- What a translation is given to: a trimmed text and the codes of its languages. -/
structure Phrase where
  text : Text
  source : Text
  target : Text
  deriving DecidableEq

namespace Phrase

def of (source target t : Text) : Phrase := ⟨Text.strip t, source, target⟩

def key (digest : Text → Text) (x : Phrase) : Text :=
  keyOf digest (.ofCodes x.source x.target) x.text

end Phrase

inductive Event where
  | gave (x : Phrase) (translation : Text)
  | removed (x : Phrase)
  | emptied

/-- The event puts an end to what was given to a phrase: something else is given to it or to another
text of the same languages and digest, it is removed, or everything is. -/
def Event.Ends (digest : Text → Text) (x : Phrase) : Event → Prop
  | .gave y _ => y.source = x.source ∧ y.target = x.target ∧ digest y.text = digest x.text
  | .removed y => y = x
  | .emptied => True

/-- A translation was given to a phrase, and nothing has put an end to it since. -/
def Stands (digest : Text → Text) (events : List Event) (x : Phrase) (translation : Text) : Prop :=
  ∃ before after, events = before ++ .gave x translation :: after ∧
    ∀ e ∈ after, ¬ e.Ends digest x

variable {digest : Text → Text} {events : List Event} {x : Phrase} {u : Text}

theorem not_stands_nil : ¬ Stands digest [] x u := by
  rintro ⟨before, after, h, -⟩
  exact absurd h.symm (by simp)

theorem stands_concat_iff {e : Event} : Stands digest (events ++ [e]) x u ↔
    e = .gave x u ∨ (¬ e.Ends digest x ∧ Stands digest events x u) := by
  constructor
  · rintro ⟨before, after, h, hafter⟩
    rcases List.eq_nil_or_concat' after with rfl | ⟨after, last, rfl⟩
    · exact .inl (List.cons.inj (List.append_inj' h rfl).2).1
    · right
      have hsplit : events ++ [e] = (before ++ .gave x u :: after) ++ [last] := by
        rw [h, List.append_assoc, List.cons_append]
      obtain ⟨hevents, hlast⟩ := List.append_inj' hsplit rfl
      have hsame : e = last := (List.cons.inj hlast).1
      refine ⟨?_, before, after, hevents, fun e' he' => hafter e' (List.mem_append_left _ he')⟩
      rw [hsame]
      exact hafter last (by simp)
  · rintro (rfl | ⟨hends, before, after, rfl, hafter⟩)
    · exact ⟨events, [], rfl, fun e he => absurd he List.not_mem_nil⟩
    · refine ⟨before, after ++ [e], by simp, fun e' he' => ?_⟩
      rcases List.mem_append.mp he' with he' | he'
      · exact hafter e' he'
      · rw [List.mem_singleton.mp he']
        exact hends

/-! ### Keys -/

variable {m m' : Memory} {s g t s' g' t' : Text}

theorem key_eq_key_of (m : Memory) (s g t : Text) :
    m.key (.ofCodes s g) t = .str ((Phrase.of s g t).key m.digest) := by
  rw [key, Phrase.key, keyOf, keyOf, Phrase.of, Text.strip_strip]

/-- A key tells the languages and the digest. -/
theorem key_eq_iff (hdigest : ∀ t, ':' ∉ m.digest t) (hg : ':' ∉ g) (hg' : ':' ∉ g') :
    m.key (.ofCodes s g) t = m.key (.ofCodes s' g') t' ↔
      s = s' ∧ g = g' ∧ m.digest (Text.strip t) = m.digest (Text.strip t') := by
  constructor
  · intro h
    have hkeys : s ++ ':' :: g ++ ':' :: m.digest (Text.strip t) =
        s' ++ ':' :: g' ++ ':' :: m.digest (Text.strip t') := Json.str.inj h
    obtain ⟨hlanguages, htext⟩ := Text.append_separator_inj (hdigest _) (hdigest _) hkeys
    obtain ⟨hsource, htarget⟩ := Text.append_separator_inj hg hg' hlanguages
    exact ⟨hsource, htarget, htext⟩
  · rintro ⟨rfl, rfl, htext⟩
    rw [key, key, keyOf, keyOf, htext]

/-! ### A memory that mirrors events -/

/-- The translation that a memory has for a text. -/
def shown? (m : Memory) (s g t : Text) : Option Json :=
  ( m.entry? (.ofCodes s g) t).map Entry.translation

/-- The counters of a memory can go on. -/
structure Counts (m : Memory) : Prop where
  uses : ∀ key, m.CountedAt key
  hits : m.counters.hits.quantity?.isSome
  misses : m.counters.misses.quantity?.isSome
  additions : m.counters.additions.quantity?.isSome

/-- A memory has for every phrase what stands after the events, and it can count what is done to
it. -/
structure Mirrors (m : Memory) (digest : Text → Text) (events : List Event) : Prop
    extends m.Counts where
  sameDigest : m.digest = digest
  distinct : (Table.keys m.cache).Nodup
  shown : ∀ s g t, ':' ∉ g → ∀ v, m.shown? s g t = some v ↔
    ∃ u, v = .str u ∧ Stands digest events (.of s g t) u

theorem Mirrors.shown_none (h : m.Mirrors digest events) (hg : ':' ∉ g) :
    m.entry? (.ofCodes s g) t = none ↔ ∀ u, ¬ Stands digest events (.of s g t) u := by
  have hshown := h.shown s g t hg
  rw [shown?] at hshown
  constructor
  · intro hnone u hstands
    have hsome := (hshown (.str u)).mpr ⟨u, rfl, hstands⟩
    rw [hnone] at hsome
    cases hsome
  · intro hnot
    cases hentry : m.entry? (.ofCodes s g) t with
    | none => rfl
    | some e =>
      rw [hentry] at hshown
      obtain ⟨u, -, hstands⟩ := (hshown e.translation).mp rfl
      exact absurd hstands (hnot u)

theorem Mirrors.exists_stands (h : m.Mirrors digest events) (hg : ':' ∉ g) {e : Entry}
    (he : m.entry? (.ofCodes s g) t = some e) : ∃ u, Stands digest events (.of s g t) u := by
  have hsome : m.shown? s g t = some e.translation := by
    rw [shown?, he]
    rfl
  obtain ⟨u, -, hstands⟩ := (h.shown s g t hg e.translation).mp hsome
  exact ⟨u, hstands⟩

theorem shown?_congr (hdigest : m'.digest = m.digest)
    (htexts : m'.textsAt (m.key (.ofCodes s g) t) = m.textsAt (m.key (.ofCodes s g) t)) :
    m'.shown? s g t = m.shown? s g t := by
  have hentry := entry?_texts_congr hdigest htexts
  have htranslation : ∀ o : Option Entry,
      o.map Entry.translation = (o.map Entry.texts).map fun texts => texts.2.1 := by
    intro o
    cases o <;> rfl
  rw [shown?, shown?, htranslation, htranslation, hentry]

theorem Mirrors.same (h : m.Mirrors digest events) (hsame : m.SameTexts m')
    (hdistinct : (Table.keys m'.cache).Nodup) (hcounts : m'.Counts) :
    m'.Mirrors digest events := by
  refine ⟨hcounts, hsame.digest.trans h.sameDigest, hdistinct, fun s g t hg v => ?_⟩
  rw [shown?_congr hsame.digest (hsame.texts _)]
  exact h.shown s g t hg v

/-! ### What events do -/

/-- The translation of an entry that is under the key of a text. -/
def Entry.shownFor? (t : Text) (e : Entry) : Option Json :=
  if e.sourceText = .str (Text.strip t) then some e.translation else none

theorem shown?_eq (m : Memory) (s g t : Text) : m.shown? s g t =
    (Table.find? m.cache (m.key (.ofCodes s g) t)).bind (Entry.shownFor? t) := by
  unfold shown? entry?
  cases Table.find? m.cache (m.key (.ofCodes s g) t) with
  | none => rfl
  | some e =>
    simp only [Option.bind_some, Entry.shownFor?]
    split
    · rfl
    · rfl

/-- A new entry under the key of a phrase is given to that phrase. -/
theorem Mirrors.gave (h : m.Mirrors digest events) (hdigest : ∀ t, ':' ∉ digest t)
    (hg : ':' ∉ g) {e : Entry} (hsource : e.sourceText = .str (Text.strip t))
    (htranslation : e.translation = .str u) (hsame : m'.digest = m.digest)
    (hcache : m'.cache = Table.insert m.cache (m.key (.ofCodes s g) t) e) (hcounts : m'.Counts) :
    m'.Mirrors digest (events ++ [.gave (.of s g t) u]) := by
  have hcolon : ∀ t, ':' ∉ m.digest t := by
    rw [h.sameDigest]
    exact hdigest
  have hnodup : (Table.keys m'.cache).Nodup := by
    rw [hcache]
    exact Table.nodup_keys_insert h.distinct _ _
  refine ⟨hcounts, hsame.trans h.sameDigest, hnodup, fun s' g' t' hg' v => ?_⟩
  have hends : (Event.gave (.of s g t) u).Ends digest (.of s' g' t') ↔
      m.key (.ofCodes s g) t = m.key (.ofCodes s' g') t' := by
    rw [key_eq_iff hcolon hg hg', h.sameDigest]
    rfl
  have hfind : m'.shown? s' g' t' =
      if m.key (.ofCodes s g) t = m.key (.ofCodes s' g') t' then e.shownFor? t'
      else m.shown? s' g' t' := by
    rw [shown?_eq, key_congr hsame, hcache, Table.find?_insert, shown?_eq]
    split
    · rfl
    · rfl
  simp only [stands_concat_iff, hends]
  rw [hfind]
  by_cases hkey : m.key (.ofCodes s g) t = m.key (.ofCodes s' g') t'
  · obtain ⟨rfl, rfl, -⟩ := (key_eq_iff hcolon hg hg').mp hkey
    rw [if_pos hkey, Entry.shownFor?, hsource, htranslation]
    by_cases htext : Text.strip t = Text.strip t'
    · have hphrase : Phrase.of s g t = Phrase.of s g t' := by rw [Phrase.of, Phrase.of, htext]
      rw [if_pos (congrArg Json.str htext), hphrase]
      simp [hkey, eq_comm]
    · have hphrase : Phrase.of s g t ≠ Phrase.of s g t' := fun hsame =>
        htext (congrArg Phrase.text hsame)
      have hstr : Json.str (Text.strip t) ≠ .str (Text.strip t') := fun hsame =>
        htext (Json.str.inj hsame)
      rw [if_neg hstr]
      simp [hkey, hphrase]
  · have hphrase : Phrase.of s g t ≠ Phrase.of s' g' t' := by
      intro hsame
      rw [key_eq_key_of, key_eq_key_of, hsame] at hkey
      exact hkey rfl
    rw [if_neg hkey, h.shown s' g' t' hg' v]
    simp [hkey, hphrase]

/-- Taking the entry of a phrase away removes the phrase. -/
theorem Mirrors.removed (h : m.Mirrors digest events) (hdigest : ∀ t, ':' ∉ digest t)
    (hg : ':' ∉ g) (hsome : m.entry? (.ofCodes s g) t ≠ none) (hsame : m'.digest = m.digest)
    (hcache : m'.cache = Table.erase m.cache (m.key (.ofCodes s g) t)) (hcounts : m'.Counts) :
    m'.Mirrors digest (events ++ [.removed (.of s g t)]) := by
  have hcolon : ∀ t, ':' ∉ m.digest t := by
    rw [h.sameDigest]
    exact hdigest
  have hnodup : (Table.keys m'.cache).Nodup := by
    rw [hcache]
    exact Table.nodup_keys_erase h.distinct _
  refine ⟨hcounts, hsame.trans h.sameDigest, hnodup, fun s' g' t' hg' v => ?_⟩
  have hfind : m'.shown? s' g' t' =
      if m.key (.ofCodes s g) t = m.key (.ofCodes s' g') t' then none
      else m.shown? s' g' t' := by
    rw [shown?_eq, key_congr hsame, hcache, shown?_eq]
    split
    · next hkey => rw [← hkey, Table.find?_erase_self h.distinct, Option.bind_none]
    · next hkey => rw [Table.find?_erase_ne _ hkey]
  have hends : (Event.removed (.of s g t)).Ends digest (.of s' g' t') ↔
      Phrase.of s g t = Phrase.of s' g' t' := Iff.rfl
  simp only [stands_concat_iff, hends]
  rw [hfind]
  by_cases hkey : m.key (.ofCodes s g) t = m.key (.ofCodes s' g') t'
  · rw [if_pos hkey]
    by_cases hphrase : Phrase.of s g t = Phrase.of s' g' t'
    · simp [hphrase]
    · -- the key was held by the phrase that is removed, so nothing stood for the other one
      obtain ⟨rfl, rfl, -⟩ := (key_eq_iff hcolon hg hg').mp hkey
      obtain ⟨e, he⟩ := Option.ne_none_iff_exists'.mp hsome
      obtain ⟨hheld, htext⟩ := entry?_eq_some_iff.mp he
      have hother : m.shown? s g t' = none := by
        rw [shown?_eq, ← hkey, hheld, Option.bind_some, Entry.shownFor?, htext, if_neg]
        intro hsame
        exact hphrase (by rw [Phrase.of, Phrase.of, Json.str.inj hsame])
      have hnone := h.shown s g t' hg v
      rw [hother] at hnone
      simpa [hphrase] using hnone
  · have hphrase : Phrase.of s g t ≠ Phrase.of s' g' t' := by
      intro hsame
      rw [key_eq_key_of, key_eq_key_of, hsame] at hkey
      exact hkey rfl
    rw [if_neg hkey, h.shown s' g' t' hg' v]
    simp [hphrase]

theorem mirrors_of_empty (hsame : m.digest = digest) (hcache : m.cache = [])
    (hcounts : m.Counts) (h : ∀ x u, ¬ Stands digest events x u) : m.Mirrors digest events := by
  refine ⟨hcounts, hsame, by rw [hcache]; exact List.nodup_nil, fun s g t _ v => ?_⟩
  rw [shown?_eq, hcache]
  simp [h]

theorem not_stands_emptied : ¬ Stands digest (events ++ [.emptied]) x u := by
  rw [stands_concat_iff]
  simp [Event.Ends]

end Localize.Memory
