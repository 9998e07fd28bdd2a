import Localize.Proofs.Glossary.Latest
import Localize.Proofs.Glossary.Preparation
import Localize.Proofs.Text.Case

/-!
# Strings that are a term

A string is looked for as it reads and then in small letters. Both looks go by keys alone, and a key
does not tell whether letter case counts for its entry. So a string is settled by the entry that it
is the term of, one whose letter case counts before one whose does not; but where it is the term of
none, by an entry that reads as its small letters do, even when letter case counts for that one.
-/

namespace Localize.Glossary

variable {g : Glossary} {language t : Text} {e : Entry}

/-- The trimmed text is the term of the entry, as far as letter case counts for it. -/
def Entry.IsTerm (e : Entry) (t : Text) : Prop :=
  ∃ term, e.term = .str term ∧
    if e.caseSensitive then Text.strip t = term else Text.lower (Text.strip t) = Text.lower term

/-- The entry that settles a text: one that it is the term of, letter case counting for it if it
counts for any of these, or where there is none, one whose letter case counts and whose term is the
text in small letters. -/
def Settles (g : Glossary) (t : Text) (e : Entry) : Prop :=
  e ∈ g.terms.values ∧
    ((e.IsTerm t ∧
        (e.caseSensitive = true ∨ ∀ e' ∈ g.terms.values, e'.IsTerm t → e'.caseSensitive = false)) ∨
      ((∀ e' ∈ g.terms.values, ¬e'.IsTerm t) ∧ e.caseSensitive = true ∧
        e.term = .str (Text.lower (Text.strip t))))

/-- A text is the term of an entry if it has the key of the entry. -/
theorem Entry.isTerm_iff :
    e.IsTerm t ↔ e.key = .ok (.str (keyText e.caseSensitive (Text.strip t))) := by
  unfold Entry.IsTerm Entry.key
  rw [keyOf_eq_str_iff]
  refine exists_congr fun term => and_congr_right fun _ => ?_
  cases e.caseSensitive <;> exact eq_comm

theorem Keyed.find?_eq_some_iff {terms : Table Json Entry} (h : Keyed terms) {key : Text} :
    Table.find? terms (.str key) = some e ↔ e ∈ terms.values ∧ e.key = .ok (.str key) := by
  constructor
  · intro hfind
    have hmem := Table.mem_of_find? hfind
    exact ⟨List.mem_map_of_mem hmem, h.keyed _ hmem⟩
  · rintro ⟨hmem, hkey⟩
    obtain ⟨⟨k, _⟩, hp, rfl⟩ := List.mem_map.mp hmem
    obtain rfl := Except.ok.inj (hkey.symm.trans (h.keyed _ hp))
    exact Table.find?_of_mem h.distinct hp

/-- An entry that is found as the text reads is one that the text is the term of. -/
theorem isTerm_of_key (h : e.key = .ok (.str (Text.strip t))) : e.IsTerm t := by
  rw [Entry.isTerm_iff, h]
  cases hcase : e.caseSensitive with
  | true => rfl
  | false =>
    obtain ⟨term, -, hterm⟩ := keyOf_eq_str_iff.mp h
    rw [hcase] at hterm
    have hsmall : Text.lower (Text.strip t) = Text.strip t := by
      rw [← hterm]
      exact Text.lower_lower term
    rw [keyText, if_neg (by simp), hsmall]

theorem Keyed.eq_of_key {terms : Table Json Entry} (h : Keyed terms) {e' : Entry} {key : Text}
    (he : e ∈ terms.values) (hkey : e.key = .ok (.str key)) (he' : e' ∈ terms.values)
    (hkey' : e'.key = .ok (.str key)) : e = e' := by
  have hfind := h.find?_eq_some_iff.mpr ⟨he, hkey⟩
  rw [h.find?_eq_some_iff.mpr ⟨he', hkey'⟩] at hfind
  exact (Option.some.inj hfind).symm

theorem Entry.IsTerm.key_strict (h : e.IsTerm t) (hcase : e.caseSensitive = true) :
    e.key = .ok (.str (Text.strip t)) := by
  rw [Entry.isTerm_iff, hcase] at h
  exact h

theorem Entry.IsTerm.key_loose (h : e.IsTerm t) (hcase : e.caseSensitive = false) :
    e.key = .ok (.str (Text.lower (Text.strip t))) := by
  rw [Entry.isTerm_iff, hcase] at h
  exact h

/-- At most one entry settles a text. -/
theorem Settles.unique (h : Keyed g.terms) {e' : Entry} (he : g.Settles t e)
    (he' : g.Settles t e') : e = e' := by
  obtain ⟨hmem, ⟨hterm, hcase⟩ | ⟨hnone, hcase, hterm⟩⟩ := he <;>
    obtain ⟨hmem', ⟨hterm', hcase'⟩ | ⟨hnone', hcase', hterm'⟩⟩ := he'
  · rcases Bool.eq_false_or_eq_true e.caseSensitive with hstrict | hloose
    · have hstrict' : e'.caseSensitive = true := by
        refine hcase'.resolve_right fun hall => ?_
        rw [hall e hmem hterm] at hstrict
        cases hstrict
      exact h.eq_of_key hmem (hterm.key_strict hstrict) hmem' (hterm'.key_strict hstrict')
    · have hloose' : e'.caseSensitive = false := by
        refine hcase.resolve_left ?_ e' hmem' hterm'
        rw [hloose]
        exact Bool.false_ne_true
      exact h.eq_of_key hmem (hterm.key_loose hloose) hmem' (hterm'.key_loose hloose')
  · exact absurd hterm (hnone' e hmem)
  · exact absurd hterm' (hnone e' hmem')
  · have hkey : e.key = .ok (.str (Text.lower (Text.strip t))) := by
      rw [Entry.key, hcase, hterm, keyOf_str, keyText, if_pos rfl]
    have hkey' : e'.key = .ok (.str (Text.lower (Text.strip t))) := by
      rw [Entry.key, hcase', hterm', keyOf_str, keyText, if_pos rfl]
    exact h.eq_of_key hmem hkey hmem' hkey'

/-- What the first look finds settles the text. -/
theorem settles_of_find?_strip (h : Keyed g.terms)
    (hfind : Table.find? g.terms (.str (Text.strip t)) = some e) : g.Settles t e := by
  obtain ⟨he, hkey⟩ := h.find?_eq_some_iff.mp hfind
  refine ⟨he, .inl ⟨isTerm_of_key hkey, ?_⟩⟩
  rcases Bool.eq_false_or_eq_true e.caseSensitive with hstrict | hloose
  · exact .inl hstrict
  · refine .inr fun e' he' hterm' => Bool.eq_false_iff.mpr fun hstrict' => ?_
    have hsame := h.eq_of_key he hkey he' (hterm'.key_strict hstrict')
    rw [← hsame, hloose] at hstrict'
    cases hstrict'

/-- What the second look finds settles the text when the first one finds nothing. -/
theorem settles_of_find?_lower (h : Keyed g.terms)
    (hfirst : Table.find? g.terms (.str (Text.strip t)) = none)
    (hfind : Table.find? g.terms (.str (Text.lower (Text.strip t))) = some e) : g.Settles t e := by
  obtain ⟨he, hkey⟩ := h.find?_eq_some_iff.mp hfind
  have hloose : ∀ e' ∈ g.terms.values, e'.IsTerm t → e'.caseSensitive = false := by
    intro e' he' hterm'
    refine Bool.eq_false_iff.mpr fun hstrict' => ?_
    rw [h.find?_eq_some_iff.mpr ⟨he', hterm'.key_strict hstrict'⟩] at hfirst
    cases hfirst
  refine ⟨he, ?_⟩
  cases hcase : e.caseSensitive with
  | true =>
    have hterm : e.term = .str (Text.lower (Text.strip t)) := by
      obtain ⟨term, hterm, hsame⟩ := keyOf_eq_str_iff.mp hkey
      rw [hcase, keyText, if_pos rfl] at hsame
      rw [hterm, hsame]
    refine .inr ⟨fun e' he' hterm' => ?_, rfl, hterm⟩
    have hsame := h.eq_of_key he hkey he' (hterm'.key_loose (hloose e' he' hterm'))
    rw [hsame, hloose e' he' hterm'] at hcase
    cases hcase
  | false => exact .inl ⟨Entry.isTerm_iff.mpr (by rw [hkey, hcase]; rfl), .inr hloose⟩

theorem Settles.key (h : g.Settles t e) : e.key = .ok (.str (Text.strip t)) ∨
    e.key = .ok (.str (Text.lower (Text.strip t))) := by
  obtain ⟨-, ⟨hterm, -⟩ | ⟨-, hcase, hterm⟩⟩ := h
  · rcases Bool.eq_false_or_eq_true e.caseSensitive with hstrict | hloose
    · exact .inl (hterm.key_strict hstrict)
    · exact .inr (hterm.key_loose hloose)
  · refine .inr ?_
    rw [Entry.key, hcase, hterm, keyOf_str, keyText, if_pos rfl]

/-- The entry that the two looks find is the one that settles the text. -/
theorem find?_or_iff_settles (h : Keyed g.terms) :
    (Table.find? g.terms (.str (Text.strip t))).or
        (Table.find? g.terms (.str (Text.lower (Text.strip t)))) = some e ↔ g.Settles t e := by
  cases hfirst : Table.find? g.terms (.str (Text.strip t)) with
  | some found =>
    rw [Option.some_or, Option.some_inj]
    have hfound := settles_of_find?_strip h hfirst
    exact ⟨fun hsame => hsame ▸ hfound, fun he => hfound.unique h he⟩
  | none =>
    rw [Option.none_or]
    refine ⟨settles_of_find?_lower h hfirst, fun he => ?_⟩
    refine h.find?_eq_some_iff.mpr ⟨he.1, he.key.resolve_left fun hkey => ?_⟩
    rw [h.find?_eq_some_iff.mpr ⟨he.1, hkey⟩] at hfirst
    cases hfirst

/-- A text has the final form of the entry that settles it. -/
theorem wholeTerm?_eq_some_iff (h : Keyed g.terms) {final : Json} :
    g.wholeTerm? language t = some final ↔ ∃ e, g.Settles t e ∧ e.final? language = some final := by
  have hlooks : g.wholeTerm? language t = ((Table.find? g.terms (.str (Text.strip t))).or
      (Table.find? g.terms (.str (Text.lower (Text.strip t))))).bind (·.final? language) := by
    unfold wholeTerm?
    dsimp only
    cases Table.find? g.terms (.str (Text.strip t)) with
    | some e => rfl
    | none => cases Table.find? g.terms (.str (Text.lower (Text.strip t))) <;> rfl
  rw [hlooks, Option.bind_eq_some_iff]
  simp only [find?_or_iff_settles h]

/-- An entry that alone has the text for its term settles it. -/
theorem Entry.IsTerm.settles (h : e.IsTerm t) (he : e ∈ g.terms.values)
    (halone : ∀ e' ∈ g.terms.values, e'.IsTerm t → e' = e) : g.Settles t e := by
  refine ⟨he, .inl ⟨h, ?_⟩⟩
  rcases Bool.eq_false_or_eq_true e.caseSensitive with hstrict | hloose
  · exact .inl hstrict
  · exact .inr fun e' he' hterm' => halone e' he' hterm' ▸ hloose

/-- A string alone has the final form of the entry that settles it. -/
theorem find?_settle_self (h : Keyed g.terms) {final : Json} :
    Table.find? (g.settle language [t]).finals t = some final ↔
      ∃ e, g.Settles t e ∧ e.final? language = some final := by
  rw [find?_settle_finals, if_pos (List.mem_singleton_self t), wholeTerm?_eq_some_iff h]

/-- A trimmed text is settled by the entry that has it for its term, if letter case counts. -/
theorem settles_of_strict (he : e ∈ g.terms.values) (hcase : e.caseSensitive = true)
    (hterm : e.term = .str t) (htrim : Text.strip t = t) : g.Settles t e := by
  refine ⟨he, .inl ⟨⟨t, hterm, ?_⟩, .inl hcase⟩⟩
  rw [hcase, if_pos rfl, htrim]

/-- Whatever a glossary is put through, a string is settled with the final form of the entry that
settles it, if it has one, and so of an entry that alone has the string for its term. All other
strings remain to be translated, in their order. -/
theorem settled_after (path : Option Path) (v : Volume) (acts : List (Nat × Act))
    (language : Text) (strings : List Text) :
    let g := (after (Glossary.empty path, v) acts).1
    let settled := g.settle language strings
    (∀ t final, Table.find? settled.finals t = some final ↔
      t ∈ strings ∧ ∃ e, g.Settles t e ∧ e.final? language = some final) ∧
    (∀ t ∈ strings, ∀ e ∈ g.terms.values, e.IsTerm t →
      (∀ e' ∈ g.terms.values, e'.IsTerm t → e' = e) →
      ∀ final, e.final? language = some final → Table.find? settled.finals t = some final) ∧
    settled.pending = strings.filter fun t => t ∉ settled.finals.keys := by
  intro g settled
  have hkeyed : Keyed g.terms := keyed_after path v acts
  have hfinals : ∀ t final, Table.find? settled.finals t = some final ↔
      t ∈ strings ∧ ∃ e, g.Settles t e ∧ e.final? language = some final := by
    intro t final
    rw [find?_settle_finals, ← wholeTerm?_eq_some_iff hkeyed]
    split
    · next ht => simp [ht]
    · next ht => simp [ht]
  refine ⟨hfinals, ?_, ?_⟩
  · intro t ht e he hterm halone final hfinal
    exact (hfinals t final).mpr ⟨ht, e, hterm.settles he halone, hfinal⟩
  · change (g.settle language strings).pending = _
    rw [settle_eq]
    refine List.filter_congr fun t ht => ?_
    have hkey : t ∈ settled.finals.keys ↔ g.wholeTerm? language t ≠ none := by
      rw [mem_keys_settle_finals, and_iff_right ht]
    rw [Bool.eq_iff_iff, Option.isNone_iff_eq_none, decide_eq_true_eq, hkey, not_not]

/-- A name that is kept as it is, in small letters. -/
def smallName : Draft where
  term := Json.lit "acme"
  doNotTranslate := .bool true

/-- The name in capitals is not the term of the entry, and is settled by it all the same. -/
theorem capitals_settled_by_small_name :
    let g := (after (Glossary.empty none, ⟨[], []⟩) [(1, .add smallName)]).1
    (∀ e ∈ g.terms.values, ¬e.IsTerm "ACME".toList) ∧
      Table.find? (g.settle "es".toList ["ACME".toList]).finals "ACME".toList =
        some (Json.lit "acme") := by
  intro g
  have hall : ∀ e ∈ g.terms.values, e.caseSensitive = true ∧ e.term = Json.lit "acme" := by decide
  have hkept : ∃ e ∈ g.terms.values, e.final? "es".toList = some (Json.lit "acme") := by decide
  have hnone : ∀ e ∈ g.terms.values, ¬e.IsTerm "ACME".toList := by
    rintro e he ⟨term, hterm, hsame⟩
    obtain ⟨hcase, hname⟩ := hall e he
    rw [hcase, if_pos rfl] at hsame
    rw [hname] at hterm
    exact absurd (hterm.trans (congrArg Json.str hsame.symm)) (by decide)
  refine ⟨hnone, ?_⟩
  obtain ⟨e, he, hfinal⟩ := hkept
  obtain ⟨hfinals, -⟩ := settled_after none ⟨[], []⟩ [(1, .add smallName)] "es".toList
    ["ACME".toList]
  refine (hfinals "ACME".toList (Json.lit "acme")).mpr ⟨List.mem_singleton_self _, e, ?_, hfinal⟩
  exact ⟨he, .inr ⟨hnone, (hall e he).1, (hall e he).2.trans (by decide)⟩⟩

end Localize.Glossary
