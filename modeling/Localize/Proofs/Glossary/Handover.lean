import Localize.Proofs.Glossary.Lasting
import Localize.Proofs.Glossary.Latest
import Localize.Proofs.Project.Importing
import Localize.Proofs.Text.Blank

/-!
# Terms handed over

The terms of a glossary that were added and changed are trimmed, not blank, and lie under their own
keys; what counts as nothing has given way to its default. Of such a term an import makes the same
entry under the same key, at its own time. So a glossary that imports what another one exports is
laid over by it: every term of the other is taken over, and the rest stays as it is.
-/

namespace Localize.Glossary

variable {e : Entry} {g : Glossary} {now again : Nat}

/-! ### Entries that can be handed over -/

/-- The entry as one that was added at a time. -/
def Entry.dated (now : Nat) (e : Entry) : Entry :=
  { e with createdAt := .nat now, updatedAt := .nat now }

/-- An entry that a document can hold, with a trimmed term, and without a value that a reader would
take for missing. -/
structure Entry.Portable (e : Entry) : Prop where
  term : ∃ t, e.term = .str t ∧ Text.strip t = t ∧ Text.allBlank t = false
  translations : (Json.obj e.translations).Sound
  category : Filled defaultCategory e.category
  description : Filled (.str []) e.description
  context : Filled (.str []) e.context
  createdAt : e.createdAt.Sound
  updatedAt : e.updatedAt.Sound

theorem portable_draft {d : Draft} (h : d.Sound) (he : d.entry now = .ok e) : e.Portable := by
  unfold Draft.entry at he
  split at he
  · next term _ =>
    split at he
    · cases he
    · next hblank =>
      split at he
      · cases he
      · next translations htranslations =>
        cases he
        exact {
          term := ⟨Text.strip term, rfl, Text.strip_strip term, by
            rw [Text.allBlank_strip]
            simpa using hblank⟩
          translations := Json.sound_fieldsOrNone (by simpa using h.translations) htranslations
          category := filled_orElse h.category filled_category
          description := filled_orElse h.description filled_blank
          context := filled_orElse h.context filled_blank
          createdAt := .int _
          updatedAt := .int _ }
  · cases he

namespace Entry.Portable

theorem revise (h : e.Portable) {r : Revision} (hr : r.Sound) (now : Nat) :
    (r.apply now e).Portable where
  term := h.term
  translations := h.translations.merge hr.translations
  category := filled_orElse hr.category h.category
  description := filled_orElse hr.description h.description
  context := filled_orElse hr.context h.context
  createdAt := h.createdAt
  updatedAt := .int _

theorem sound_toJson (h : e.Portable) : e.toJson.Sound := by
  obtain ⟨t, hterm, -, -⟩ := h.term
  exact Entry.sound_toJson (hterm ▸ .str t) h.translations h.category.sound h.description.sound
    h.context.sound h.createdAt h.updatedAt

/-- The item of an entry is read as the entry, at the time of the reader. -/
theorem ofForeign_toJson (h : e.Portable) {t : Text} (hterm : e.term = .str t)
    (hstrip : Text.strip t = t) (now : Nat) :
    Entry.ofForeign now e.toJson t e.translations = e.dated now := by
  have hread : Entry.ofForeign now e.toJson t e.translations =
      { e with
        term := .str (Text.strip t)
        category := e.category.orElse defaultCategory
        description := e.description.orElse (.str [])
        caseSensitive := decide (Json.bool e.caseSensitive ≠ .bool false)
        context := e.context.orElse (.str [])
        createdAt := .nat now
        updatedAt := .nat now } := rfl
  rw [hread, hstrip, ← hterm, decide_bool_ne_false, h.category.kept, h.description.kept,
    h.context.kept, dated]

/-- An import takes the item of an entry, under the key of the entry. -/
theorem judged_toJson (h : e.Portable) {key : Json} (hkey : e.key = .ok key) (now : Nat) :
    Judged now e.toJson (.ok (some (key, e.dated now))) := by
  obtain ⟨t, hterm, hstrip, hblank⟩ := h.term
  have hfind : e.toJson.field? "term".toList = some (.str t) := by
    rw [← hterm]
    rfl
  have htranslations : Json.fieldsOrNone (e.toJson.field? "translations".toList) =
      .ok e.translations := Json.fieldsOrNone_obj e.translations
  have hpair : Entry.pairOfForeign now e.toJson t e.translations = (key, e.dated now) := by
    refine Prod.ext ?_ (h.ofForeign_toJson hterm hstrip now)
    have hsame := key_ofForeign now e.toJson t e.translations
    rw [h.ofForeign_toJson hterm hstrip now] at hsame
    exact Except.ok.inj (hsame.symm.trans hkey)
  rw [← hpair]
  exact .wellFormed hfind hblank htranslations

end Entry.Portable

/-! ### Glossaries that can be handed over -/

/-- A glossary whose terms lie under their keys and can be handed over, with a header that a
document can hold. -/
structure Portable (g : Glossary) : Prop where
  keyed : Keyed g.terms
  entries : ∀ e ∈ g.terms.values, e.Portable
  header : (Json.obj g.header).Sound

/-- What an act brings are values that a document can hold. -/
def Act.Sound : Act → Prop
  | .add draft => draft.Sound
  | .update _ _ revision => revision.Sound
  | _ => True

theorem Act.Sound.keeps {act : Act} (h : act.Sound) (now : Nat) : act.Keeps Entry.Portable now where
  added draft e hact he := by
    subst hact
    exact portable_draft h he
  revised caseSensitive term revision e hact he := by
    subst hact
    exact he.revise h now

/-- Whatever a glossary without terms is put through, what is left can be handed over. -/
theorem portable_after (hterms : g.terms = []) (hheader : (Json.obj g.header).Sound) (v : Volume)
    {acts : List (Nat × Act)} (hacts : ∀ a ∈ acts, a.2.Sound) : (after (g, v) acts).1.Portable := by
  have hnone : ∀ e ∈ g.terms.values, e.Portable := by
    rw [hterms]
    exact fun e he => absurd he List.not_mem_nil
  have hstart : Portable g := ⟨hterms ▸ .nil, hnone, hheader⟩
  refine after_preserves (P := fun s => s.1.Portable) hstart fun a ha s h => ⟨?_, ?_, ?_⟩
  · exact h.keyed.run a.1 a.2
  · exact ((hacts a ha).keeps a.1).run h.entries
  · rcases a.2.header_run a.1 s with hsame | hdated
    · rw [hsame]
      exact h.header
    · rw [hdated]
      exact h.header.insert (.int _) _

variable {b : Glossary} {v w : Volume} {target : Text}

/-- An export where the file can be written leaves the document there. -/
theorem exists_exportTo (g : Glossary) (hwrite : v.CanWrite (.ofText target)) (now : Nat) :
    ∃ v₁, g.exportTo now v target = (.ok g.terms.length, v₁) ∧
      v₁.content? (.ofText target) = some (.text (g.exportDocument now).document) := by
  obtain ⟨v₁, hdone, -⟩ := hwrite.writeJson (g.exportDocument now)
  exact ⟨v₁, by simp only [exportTo, hdone], Volume.content?_of_writeJson hdone⟩

namespace Portable

theorem sound_exportDocument (h : g.Portable) (now : Nat) : (g.exportDocument now).Sound := by
  refine Json.sound_record (by simp) ⟨Json.sound_find?_getD (Json.sound_obj_iff.mp h.header).2
    (.str _) _, .str _, .int _, .arr fun item hitem => ?_⟩
  obtain ⟨e, he, rfl⟩ := List.mem_map.mp hitem
  exact (h.entries e he).sound_toJson

/-- An import takes all terms, in their order. -/
theorem sifted (h : g.Portable) (now : Nat) :
    Sifted (Judged now) (g.terms.values.map Entry.toJson)
      (g.terms.map fun p => (p.1, p.2.dated now)) none := by
  rw [Table.values, List.map_map]
  exact sifted_map fun p hp =>
    (h.entries p.2 (List.mem_map_of_mem hp)).judged_toJson (h.keyed.keyed p hp) now

/-- An import of what was exported lays the terms over those that are there. -/
theorem importFrom (h : g.Portable) (again : Nat)
    (hfile : w.content? (.ofText target) = some (.text (g.exportDocument now).document))
    (hsave : b.CanSave w) :
    ∃ b' w', b.importFrom again w target = (.ok g.terms.length, b', w') ∧
      b'.terms = Table.merge b.terms (g.terms.map fun p => (p.1, p.2.dated again)) := by
  have hread : w.readJson (.ofText target) = .ok (some (g.exportDocument now)) :=
    Volume.readJson_eq_some_iff.mpr ⟨_, hfile, Json.read_document (h.sound_exportDocument now)⟩
  have hitems : Json.elementsOrNone ((g.exportDocument now).field? "terms".toList) =
      .ok (g.terms.values.map Entry.toJson) := Json.elementsOrNone_arr _
  obtain ⟨b', w', himport, htakes⟩ := importItems_sifted 0 (h.sifted again) hsave
  refine ⟨b', w', ?_, htakes.terms⟩
  simp only [Glossary.importFrom, hread, hitems, himport, countOrEnd, List.length_map, Nat.zero_add]

end Portable

/-- A glossary that imports what another one has exported is laid over by it, for all terms that
were added and changed: both operations tell the number of terms handed over; under each of their
keys is then the entry of the other glossary, with the time of the import; under every other key is
what was there before; the keys that were there stay where they are, and the new ones follow in the
order of the other glossary. -/
theorem export_import_merges {g₀ : Glossary} (hterms : g₀.terms = [])
    (hheader : (Json.obj g₀.header).Sound) (v₀ : Volume) {acts : List (Nat × Act)}
    (hacts : ∀ a ∈ acts, a.2.Sound) {v : Volume} {target : Text}
    (hwrite : v.CanWrite (.ofText target)) (now : Nat) :
    let a := (after (g₀, v₀) acts).1
    ∃ v₁, a.exportTo now v target = (.ok a.terms.length, v₁) ∧
      ∀ (b : Glossary) (w : Volume) (again : Nat),
        w.content? (.ofText target) = v₁.content? (.ofText target) → b.CanSave w →
        ∃ b' w', b.importFrom again w target = (.ok a.terms.length, b', w') ∧
          (∀ key, Table.find? b'.terms key =
            ((Table.find? a.terms key).map (Entry.dated again)).or (Table.find? b.terms key)) ∧
          Table.keys b'.terms =
            Table.keys b.terms ++ (Table.keys a.terms).filter (· ∉ Table.keys b.terms) := by
  intro a
  have ha : a.Portable := portable_after hterms hheader v₀ hacts
  obtain ⟨v₁, hexport, hfile⟩ := exists_exportTo a hwrite now
  refine ⟨v₁, hexport, fun b w again hsame hsave => ?_⟩
  obtain ⟨b', w', himport, hmerge⟩ := ha.importFrom again (hsame.trans hfile) hsave
  have hkeys : Table.keys (a.terms.map fun p => (p.1, p.2.dated again)) = Table.keys a.terms := by
    rw [Table.keys, Table.keys, List.map_map]
    rfl
  have hdistinct : (Table.keys (a.terms.map fun p => (p.1, p.2.dated again))).Nodup := by
    rw [hkeys]
    exact ha.keyed.distinct
  refine ⟨b', w', himport, fun key => ?_, ?_⟩
  · rw [hmerge, Table.find?_merge, Table.find?_reverse hdistinct, Table.find?_map_values]
  · rw [hmerge, Table.keys_merge hdistinct, hkeys]

/-- A term whose letter case matters, which is changed, and one whose letter case does not. -/
def drinkActs : List (Nat × Act) := [
  (1, .add { term := Json.lit " Acme ", translations := .obj [("es".toList, Json.lit "Ácme")] }),
  (2, .add { term := Json.lit "CAFÉ", caseSensitive := .bool false, doNotTranslate := .bool true }),
  (3, .update true (Json.lit "Acme") { category := Json.lit "brand" })]

theorem sound_drinkActs : ∀ a ∈ drinkActs, a.2.Sound := by
  simp only [drinkActs, List.forall_mem_cons, List.not_mem_nil, false_implies, implies_true,
    and_true]
  refine ⟨⟨.obj (by simp) ?_, .null, .str _, .str _⟩, ⟨.null, .null, .str _, .str _⟩,
    nofun, .str _, .null, .null⟩
  simp only [List.forall_mem_cons, List.not_mem_nil, false_implies, implies_true, and_true]
  exact .str _

/-- A glossary that has a term of its own and one under the key of another glossary's term. -/
def ownTerms : Glossary :=
  (after (.empty none, .ofEntries []) [(4, .add { term := Json.lit "café" }),
    (5, .add { term := Json.lit "Zeta" })]).1

theorem canSave_ownTerms (w : Volume) : ownTerms.CanSave w := by
  rintro path hpath
  cases hpath

/-- The term under the shared key gives way to the other glossary's, where it is; the new term comes
last. -/
theorem export_import_merges_drinks :
    let a := (after (.empty none, .ofEntries []) drinkActs).1
    ∃ v₁, a.exportTo 6 (.ofEntries []) "out.json".toList = (.ok 2, v₁) ∧
      ∃ b' w', ownTerms.importFrom 7 v₁ "out.json".toList = (.ok 2, b', w') ∧
        Table.keys b'.terms = [Json.lit "café", Json.lit "Zeta", Json.lit "Acme"] ∧
        (Table.find? b'.terms (Json.lit "café")).map (·.term) = some (Json.lit "CAFÉ") ∧
        (Table.find? b'.terms (Json.lit "Acme")).map (·.category) = some (Json.lit "brand") := by
  intro a
  have hlength : a.terms.length = 2 := by decide +kernel
  have hterms : (Glossary.empty none).terms = [] := rfl
  have hwrite : (Volume.ofEntries []).CanWrite (.ofText "out.json".toList) := ⟨rfl, .null, _, rfl⟩
  obtain ⟨v₁, hexport, himports⟩ := export_import_merges hterms (lasting_empty none).header
    (.ofEntries []) sound_drinkActs hwrite 6
  obtain ⟨b', w', himport, hfind, hkeys⟩ := himports ownTerms v₁ 7 rfl (canSave_ownTerms v₁)
  refine ⟨v₁, hlength ▸ hexport, b', w', hlength ▸ himport, ?_, ?_, ?_⟩
  · rw [hkeys]
    decide +kernel
  · rw [hfind]
    decide +kernel
  · rw [hfind]
    decide +kernel

end Localize.Glossary
