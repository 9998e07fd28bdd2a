import Localize.Proofs.Glossary.Preparation

/-!
# Protection loses nothing

A preparation accounts for every string: it is settled, or it is sent once, in order, with its terms
replaced by tokens of its own. When every text comes back as it was sent, restoring gives the
strings with the final forms of their terms, all exchanged at once. A final form that joins with
its neighbours to the mark can spoil this: the tokens give way one after another, and a token that
has only come about in a restored text is replaced as well.
-/

namespace Localize.Glossary

open Localize.Span Placeholder

/-- What a preparation of strings promises. -/
structure Preparation.Faithful (g : Glossary) (language : Text) (strings : List Text)
    (prepared : Preparation) : Prop where
  /-- The strings to translate keep their order. -/
  ordered : prepared.pending.Sublist strings
  /-- Every string is settled, or it is to be translated, once. -/
  divided : ∀ t ∈ strings,
    (t ∈ prepared.finals.keys ∧ t ∉ prepared.pending) ∨
      (t ∉ prepared.finals.keys ∧ prepared.pending.count t = 1)
  /-- Nothing else is settled. -/
  known : ∀ t ∈ prepared.finals.keys, t ∈ strings
  /-- Each text sent is the string at its place, tokens standing for the spans kept, and the final
  forms of these are recorded under the tokens. -/
  aligned : prepared.sent.length = prepared.pending.length ∧
    ∀ (i : Nat) (t : Text), prepared.pending[i]? = some t → ∃ n,
      prepared.sent[i]? = some (exchange t (numbered n (g.kept language t))) ∧
      ∀ p ∈ numbered n (g.kept language t), ∃ r, (p.1, r) ∈ prepared.reservations ∧
        r.final = .str (g.finalOf language t p.2)
  /-- No two texts sent are the same. -/
  distinct : prepared.sent.Nodup
  /-- The tokens are numbered from zero on. -/
  tokens : Table.keys prepared.reservations =
    (List.range prepared.reservations.length).map token
  /-- Every token stands at one place of one text sent. -/
  unique : ∀ k < prepared.reservations.length, ∃! p : Nat × Text × Text,
    prepared.sent[p.1]? = some (p.2.1 ++ token k ++ p.2.2)

variable {g : Glossary} {language : Text}

theorem keys_reservedFrom (h : g.TextualIn language) (n : Nat) (strings : List Text) :
    Table.keys (g.reservedFrom language n strings) =
      (List.range' n (g.keptIn language strings)).map token := by
  induction strings generalizing n with
  | nil => rfl
  | cons t rest ih =>
    obtain ⟨reserved, hres, -⟩ := reserve_eq_map h t n
    have hown : Table.keys (g.reserve language t n) =
        (List.range' n (g.kept language t).length).map token := by
      rw [hres, Table.keys, List.map_map, ← numbered_eq_map]
      rfl
    simp only [Table.keys] at ih hown ⊢
    rw [reservedFrom, List.map_append, hown, ih, keptIn_cons, ← List.map_append,
      List.range'_append_1]

theorem length_reservedFrom (h : g.TextualIn language) (n : Nat) (strings : List Text) :
    (g.reservedFrom language n strings).length = g.keptIn language strings := by
  have hlen := congrArg List.length (keys_reservedFrom h n strings)
  rwa [Table.keys, List.length_map, List.length_map, List.length_range'] at hlen

/-- The final forms of a string's spans are recorded under its tokens. -/
theorem mem_reservedFrom (h : g.TextualIn language) {strings : List Text} {i n : Nat} {t : Text}
    (ht : strings[i]? = some t) {p : Text × Span}
    (hp : p ∈ numbered (n + g.keptIn language (strings.take i)) (g.kept language t)) :
    ∃ r, (p.1, r) ∈ g.reservedFrom language n strings ∧
      r.final = .str (g.finalOf language t p.2) := by
  induction strings generalizing i n with
  | nil => cases ht
  | cons t' rest ih =>
    cases i with
    | zero =>
      obtain rfl : t' = t := Option.some.inj ht
      obtain ⟨reserved, hres, hfinal⟩ := reserve_eq_map h t' n
      have hs : p.2 ∈ g.kept language t' := snd_mem_of_mem_numbered hp
      refine ⟨reserved p.2, List.mem_append_left _ ?_, hfinal p.2 hs⟩
      rw [hres]
      exact List.mem_map_of_mem hp
    | succ i =>
      rw [List.getElem?_cons_succ] at ht
      rw [List.take_succ_cons, keptIn_cons, ← Nat.add_assoc] at hp
      obtain ⟨r, hr, hfinal⟩ := ih ht hp
      exact ⟨r, List.mem_append_right _ hr, hfinal⟩

theorem faithful_of_prepare (hforms : g.TextualIn language) {strings : List Text}
    (hdistinct : strings.Nodup) (hmark : ∀ t ∈ strings, ¬ mark <:+: t) {prepared : Preparation}
    (h : g.prepare language strings = .ok prepared) : prepared.Faithful g language strings := by
  obtain ⟨-, rfl⟩ := prepare_ok_iff.mp h
  have hsub := settle_pending_sublist g language strings
  have hpending : (g.settle language strings).pending.Nodup := hsub.nodup hdistinct
  have hmark' : ∀ t ∈ (g.settle language strings).pending, ¬ mark <:+: t := fun t ht =>
    hmark t (hsub.subset ht)
  have hlen := length_reservedFrom hforms 0 (g.settle language strings).pending
  constructor
  case ordered => exact hsub
  case divided =>
    intro t ht
    cases hterm : g.wholeTerm? language t with
    | some final =>
      refine .inl ⟨mem_keys_settle_finals.mpr ⟨ht, by simp [hterm]⟩, ?_⟩
      rw [mem_settle_pending, hterm]
      simp
    | none =>
      refine .inr ⟨fun hk => (mem_keys_settle_finals.mp hk).2 hterm, ?_⟩
      exact List.count_eq_one_of_mem hpending (mem_settle_pending.mpr ⟨ht, hterm⟩)
  case known => exact fun t ht => (mem_keys_settle_finals.mp ht).1
  case aligned =>
    refine ⟨length_sentFrom g language 0 _, fun i t ht => ?_⟩
    refine ⟨0 + g.keptIn language ((g.settle language strings).pending.take i), ?_, ?_⟩
    · rw [sentFrom_getElem?, ht, Option.map_some]
    · exact fun p hp => mem_reservedFrom hforms ht hp
  case distinct => exact nodup_sentFrom hpending hmark' 0
  case tokens => rw [keys_reservedFrom hforms, hlen, List.range_eq_range']
  case unique =>
    intro k hk
    rw [hlen] at hk
    exact existsUnique_token hmark' (Nat.zero_le k) (by omega)

theorem restoreAll_reservedFrom (hforms : g.TextualIn language) (n : Nat) (strings : List Text)
    (translations : Table Text Text) :
    restoreAll (g.reservedFrom language n strings) translations =
      .ok (translations.map fun p =>
        (p.1, Placeholder.restore p.2 (g.finalsFrom language n strings))) := by
  unfold restoreAll
  rw [mapM_ok_iff, List.forall₂_map_right_iff, List.forall₂_same]
  intro p _
  simp only [restore_reservedFrom hforms]
  rfl

/-- Strings without the mark are prepared faithfully. When every text comes back as it was sent,
each string is restored to itself with the final forms of its terms, all exchanged at once, if this
does not bring the mark about; terms that are kept as written never do. -/
theorem prepare_restore_echo (hterms : g.Textual) (hforms : g.TextualIn language)
    {strings : List Text} (hdistinct : strings.Nodup) (hmark : ∀ t ∈ strings, ¬ mark <:+: t) :
    ∃ (prepared : Preparation) (restored : Table Text Text),
      g.prepare language strings = .ok prepared ∧ prepared.Faithful g language strings ∧
      restoreAll prepared.reservations (prepared.pending.zip prepared.sent) = .ok restored ∧
      restored.keys = prepared.pending ∧
      (∀ (i : Nat) (t : Text), prepared.pending[i]? = some t → ¬ mark <:+: g.exchanged language t →
        restored[i]? = some (t, g.exchanged language t)) ∧
      (g.KeptAsWritten language → ∀ (i : Nat) (t : Text), prepared.pending[i]? = some t →
        restored[i]? = some (t, t)) := by
  obtain ⟨prepared, hprepared⟩ : ∃ prepared, g.prepare language strings = .ok prepared :=
    ⟨_, hterms.prepare_eq language strings⟩
  have hfaithful := faithful_of_prepare hforms hdistinct hmark hprepared
  obtain ⟨-, hparts⟩ := prepare_ok_iff.mp hprepared
  have hlen := hfaithful.aligned.1
  have hrestored := restoreAll_reservedFrom hforms 0 (g.settle language strings).pending
    (prepared.pending.zip prepared.sent)
  have hecho : ∀ (i : Nat) (t : Text), prepared.pending[i]? = some t →
      ¬ mark <:+: g.exchanged language t →
      ((prepared.pending.zip prepared.sent).map fun p => (p.1, Placeholder.restore p.2
        (g.finalsFrom language 0 (g.settle language strings).pending)))[i]? =
        some (t, g.exchanged language t) := by
    intro i t ht hfinal
    obtain ⟨n, hu, -⟩ := hfaithful.aligned.2 i t ht
    have hzip : (prepared.pending.zip prepared.sent)[i]? =
        some (t, exchange t (numbered n (g.kept language t))) :=
      List.getElem?_zip_eq_some.mpr ⟨ht, hu⟩
    have hmark' : ∀ t ∈ (g.settle language strings).pending, ¬ mark <:+: t := fun t h =>
      hmark t ((settle_pending_sublist g language strings).subset h)
    rw [List.getElem?_map, hzip, Option.map_some]
    rw [hparts] at ht hu
    rw [restore_sentFrom hmark' ht hu hfinal]
  refine ⟨prepared, _, hprepared, hfaithful, ?_, ?_, hecho, ?_⟩
  · rw [← hrestored, hparts]
  · rw [Table.keys, List.map_map]
    exact List.map_fst_zip (by omega)
  · intro hkept i t ht
    have hsame := hkept.exchanged_eq t
    have htmark : ¬ mark <:+: t := hmark t (hfaithful.ordered.subset (List.mem_of_getElem? ht))
    have h := hecho i t ht (by rwa [hsame])
    rwa [hsame] at h

/-- An entry for a term whose letter case counts. -/
def Entry.exact (term : Text) (translations : Fields) (doNotTranslate : Bool) : Entry where
  term := .str term
  translations := translations
  category := defaultCategory
  description := .str []
  caseSensitive := true
  doNotTranslate := doNotTranslate
  context := .str []
  createdAt := .nat 0
  updatedAt := .nat 0

/-- A glossary in memory only, with the entries of terms whose letter case counts. -/
def ofExact (entries : List (String × Fields × Bool)) : Glossary where
  path := none
  terms := entries.map fun (term, translations, keep) =>
    (.str term.toList, .exact term.toList translations keep)
  header := []

theorem textual_ofExact (entries : List (String × Fields × Bool)) :
    (Glossary.ofExact entries).Textual := by
  intro e he
  obtain ⟨p, hp, rfl⟩ := List.mem_map.mp he
  obtain ⟨q, -, rfl⟩ := List.mem_map.mp hp
  exact ⟨q.1.toList, rfl⟩

theorem textualIn_of_all
    (h : ∀ e ∈ g.terms.values, ((e.final? language).getD (.str [])).text?.isSome) :
    g.TextualIn language := by
  intro e he final hfinal
  have hsome := h e he
  rw [hfinal, Option.getD_some] at hsome
  cases final with
  | str f => exact ⟨f, rfl⟩
  | null | bool _ | int _ | float _ | arr _ | obj _ => cases hsome

/-- A name that is kept and a word with a form of its own, one inside the other's string. -/
def shop : Glossary :=
  .ofExact [("Acme", [], true), ("Dashboard", [("es".toList, Json.lit "Panel")], false)]

theorem prepare_restore_echo_shop : ∃ (prepared : Preparation) (restored : Table Text Text),
    shop.prepare "es".toList ["Acme".toList, "Acme Dashboard".toList] = .ok prepared ∧
      prepared.Faithful shop "es".toList ["Acme".toList, "Acme Dashboard".toList] ∧
      restoreAll prepared.reservations (prepared.pending.zip prepared.sent) = .ok restored ∧
      shop.exchanged "es".toList "Acme Dashboard".toList = "Acme Panel".toList := by
  have hterms : shop.Textual := textual_ofExact _
  have hforms : shop.TextualIn "es".toList := textualIn_of_all (by decide)
  have hdistinct : ["Acme".toList, "Acme Dashboard".toList].Nodup := by decide
  have hmark : ∀ t ∈ ["Acme".toList, "Acme Dashboard".toList], ¬ mark <:+: t := by decide
  obtain ⟨prepared, restored, hprepared, hfaithful, hrestored, -⟩ :=
    prepare_restore_echo hterms hforms hdistinct hmark
  exact ⟨prepared, restored, hprepared, hfaithful, hrestored, by decide⟩

/-- A form that is the beginning of the mark, for a term that the rest of the mark can follow. -/
def joining : Glossary :=
  .ofExact [("A-", [("es".toList, Json.lit "__GLOSS")], false),
    ("B", [("es".toList, Json.lit "x")], false)]

/-- A restored text can hold a token that neither its string nor any final form holds, and then the
token of another string is put in its place. -/
theorem restored_text_can_join_to_token :
    ¬ ∀ (g : Glossary) (language : Text) (strings : List Text),
      g.Textual → (∀ e ∈ g.terms.values, e.term ≠ .str []) → strings.Nodup →
      (∀ t ∈ strings, ¬ mark <:+: t) →
      (∀ e ∈ g.terms.values, ∀ final, e.final? language = some final →
        ∃ f, final = .str f ∧ ¬ mark <:+: f) →
      ∀ (prepared : Preparation) (restored : Table Text Text),
        g.prepare language strings = .ok prepared →
        restoreAll prepared.reservations (prepared.pending.zip prepared.sent) = .ok restored →
        ∀ (i : Nat) (t : Text), prepared.pending[i]? = some t →
          restored[i]? = some (t, g.exchanged language t) := by
  intro h
  have hterms : joining.Textual := textual_ofExact _
  have hforms : joining.TextualIn "es".toList := textualIn_of_all (by decide)
  have hfinals : ∀ e ∈ joining.terms.values, ∀ final, e.final? "es".toList = some final →
      ∃ f, final = .str f ∧ ¬ mark <:+: f := by
    intro e he final hfinal
    obtain ⟨f, rfl⟩ := hforms e he final hfinal
    have hall : ∀ e ∈ joining.terms.values,
        ¬ mark <:+: ((e.final? "es".toList).bind Json.text?).getD [] := by decide
    have hf := hall e he
    rw [hfinal] at hf
    exact ⟨f, rfl, hf⟩
  have hprepared := hterms.prepare_eq "es".toList ["A-ARY_1__".toList, "see B".toList]
  have hrestored := restoreAll_reservedFrom hforms 0
    (joining.settle "es".toList ["A-ARY_1__".toList, "see B".toList]).pending
  have heq := h joining "es".toList ["A-ARY_1__".toList, "see B".toList] hterms (by decide)
    (by decide) (by decide) hfinals _ _ hprepared (hrestored _) 0 "A-ARY_1__".toList (by decide)
  exact absurd heq (by decide)

end Localize.Glossary
