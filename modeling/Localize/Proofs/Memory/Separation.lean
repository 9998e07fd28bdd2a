import Localize.Proofs.Memory.Saving
import Localize.Proofs.Memory.Storing
import Localize.Proofs.Text.Basic

/-!
# Languages apart

The keys of two target languages are never the same, so storing in one direction leaves a memory
that is alike in the other. What is written meanwhile is the file of the memory and nothing else,
and where that file can be written all can be stored that could be stored before.
-/

namespace Localize.Memory

variable {m m' : Memory} {now : Nat} {v v' larger : Volume} {d : Direction} {notes : Fields}
  {pairs : List (Text × Text)} {entries : List (Json × Entry)}

/-- No text of one direction has a key of a text of the other. -/
def Direction.Apart (d d' : Direction) : Prop :=
  ∀ (m : Memory) (t t' : Text), m.key d t ≠ m.key d' t'

theorem apart_of_target_ne {source : Json} {g g' : Text} (hg : ':' ∉ g) (hg' : ':' ∉ g')
    (hne : g ≠ g') : Direction.Apart ⟨source, .str g⟩ ⟨source, .str g'⟩ := by
  intro m t t' h
  have hkeys : source.display ++ ':' :: g ++ ':' :: m.digest (Text.strip t) =
      source.display ++ ':' :: g' ++ ':' :: m.digest (Text.strip t') := Json.str.inj h
  simp only [List.append_assoc, List.append_cancel_left_eq, List.cons_append, List.cons.injEq,
    true_and] at hkeys
  exact hne (Text.separator_append_inj hg hg' hkeys).1

/-! ### The memory -/

theorem Holds.counters (h : m.Holds entries m') : Counters.Alike m.counters m'.counters :=
  ⟨by rw [h.hits], by rw [h.misses], h.additions⟩

/-- Storing under other keys leaves a memory that is alike. -/
theorem Holds.alike (h : m.Holds entries m')
    (hkeys : ∀ t, m.key d t ∉ Table.keys entries) : m.Alike d m' := by
  refine ⟨h.digest, h.folder, fun t => ?_, fun t => ?_, h.counters⟩
  · rw [textsAt, textsAt, h.find?_of_not_mem (hkeys t)]
  · rw [CountedAt, CountedAt, h.find?_of_not_mem (hkeys t)]

theorem storeAll_alike {d' : Direction} (hapart : d.Apart d')
    (h : m.storeAll now v d' notes (pairs.map fun p => (p.1, .str p.2)) = (.ok (), m', v')) :
    m.Alike d m' := by
  apply (storeAll_ok h).alike
  intro t hmem
  rw [Table.keys, List.map_map] at hmem
  obtain ⟨p, -, hp⟩ := List.mem_map.mp hmem
  exact hapart m t p.1 hp.symm

/-! ### The volume -/

theorem storeAll_kept
    (h : m.storeAll now v d notes (pairs.map fun p => (p.1, .str p.2)) = (.ok (), m', v')) :
    v.Kept [m.file] v' := by
  induction pairs generalizing m v with
  | nil =>
    cases h
    exact .refl _ _
  | cons p pairs ih =>
    rw [List.map_cons, storeAll] at h
    cases hstore : m.store now v d (.str p.1) (.str p.2) notes false with
    | mk outcome rest =>
      obtain ⟨m₁, v₁⟩ := rest
      cases outcome with
      | error failure =>
        simp only [hstore] at h
        cases h
      | ok e =>
        simp only [hstore] at h
        obtain ⟨hholds, -, hsave⟩ := store_ok hstore
        have hrest := ih h
        rw [file_eq hholds.folder] at hrest
        rcases hsave with rfl | hsave
        · exact hrest
        · have hfirst := (save_written hsave).kept
          rw [hholds.folder] at hfirst
          exact hfirst.trans hrest (List.Subset.refl _)

/-! ### Storing again -/

/-- What a memory takes when it is stored: a pair whose text is not blank, if additions can be
counted. -/
def Takes (m : Memory) (pairs : List (Text × Text)) : Prop :=
  ∀ p ∈ pairs, Text.allBlank p.1 = false ∧ m.counters.additions.quantity?.isSome

theorem Takes.of_alike (h : Counters.Alike m.counters m'.counters) (htakes : m.Takes pairs) :
    m'.Takes pairs :=
  fun p hp => ⟨(htakes p hp).1, h.additions.mpr (htakes p hp).2⟩

theorem takes_of_storeAll
    (h : m.storeAll now v d notes (pairs.map fun p => (p.1, .str p.2)) = (.ok (), m', v')) :
    m.Takes pairs := by
  induction pairs generalizing m v with
  | nil => exact fun p hp => absurd hp List.not_mem_nil
  | cons p pairs ih =>
    rw [List.map_cons, storeAll] at h
    cases hstore : m.store now v d (.str p.1) (.str p.2) notes false with
    | mk outcome rest =>
      obtain ⟨m₁, v₁⟩ := rest
      cases outcome with
      | error failure =>
        simp only [hstore] at h
        cases h
      | ok e =>
        simp only [hstore] at h
        obtain ⟨hholds, hfirst, -⟩ := store_ok hstore
        exact List.forall_mem_cons.mpr ⟨hfirst, Takes.of_alike hholds.counters.symm (ih h)⟩

/-- Where the file of the memory can be written, whatever the memory takes can be stored. -/
theorem exists_storeAll (htakes : m.Takes pairs) (hfree : v.FreeWithin larger)
    (hfile : (larger.content? m.file).isSome) (now : Nat) (d : Direction) (notes : Fields) :
    ∃ m' v', m.storeAll now v d notes (pairs.map fun p => (p.1, .str p.2)) = (.ok (), m', v') ∧
      v'.FreeWithin larger := by
  induction pairs generalizing m v with
  | nil => exact ⟨m, v, rfl, hfree⟩
  | cons p pairs ih =>
    obtain ⟨⟨hblank, hadditions⟩, hrest⟩ := List.forall_mem_cons.mp htakes
    obtain ⟨m₁, e, hholds, -, hstore⟩ :=
      store_storable (u := p.2) hadditions now v d hblank notes false
    have htakes₁ : m₁.Takes pairs := Takes.of_alike hholds.counters hrest
    have hfile₁ : (larger.content? m₁.file).isSome := by rwa [file_eq hholds.folder]
    rw [List.map_cons, storeAll]
    rcases hstore with hstore | hstore
    · rw [hstore]
      exact ih htakes₁ hfree hfile₁
    · obtain ⟨v₁, hsave, hfree₁⟩ := exists_save hfree hfile₁ now
      rw [hstore, saved, hsave]
      exact ih htakes₁ hfree₁ hfile₁

end Localize.Memory
