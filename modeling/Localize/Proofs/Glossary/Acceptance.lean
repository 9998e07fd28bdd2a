import Localize.Batch.Marker
import Localize.Proofs.Glossary.Found
import Localize.Proofs.Glossary.Lossless

/-!
# Replies that keep their placeholders

A reply is accepted when a scan finds every token in it that it finds in the text that was sent. In
a text that was sent the scan finds every token, so each of them is exchanged in the reply, and the
restored reply holds its final form. Tokens of a reply that share underscores can spoil this, and so
can a final form that joins with what is beside it: the tokens give way one after another, and one
that the scan has not found can be the first to do so.
-/

namespace Localize.Placeholder

/-- In a woven text with one more token no token reaches over the place where that one begins. -/
theorem Woven.pieces_weave {n k : Nat} {u c : Text} (hw : Woven (n + 1) k u)
    (hc : ¬ mark <:+: c) :
    pieces (u ++ token n ++ c) = pieces u ++ .token (token n) :: pieces c := by
  rw [List.append_assoc, ← pieces_append_of_isToken (isToken_token n)]
  refine pieces_append fun x found y hfound hxy => ?_
  obtain ⟨digits, hdigits, rfl⟩ := hfound.exists_eq
  have hmark : (x ++ ['_', '_']) ++ mark ++ ('_' :: (digits ++ '_' :: '_' :: y)) =
      u ++ token n ++ c := by
    rw [List.append_assoc u, hxy]
    simp
  rcases append_mark_eq_append_token hc hmark with ⟨z, hu, hbehind⟩ | ⟨hx, -⟩
  · -- the mark is that of a token further left
    left
    obtain ⟨m, z', -, -, hz⟩ := hw.mark_in_token hu.symm
    rw [hz, List.cons_append, List.cons_append] at hbehind
    have hsame : digits ++ '_' :: ('_' :: y) =
        Text.ofNat m ++ '_' :: ('_' :: (z' ++ token n ++ c)) := by
      simpa using hbehind
    have hunderscore : '_' ∉ digits := not_isDigit_of_mem hdigits (by decide)
    obtain ⟨rfl, -⟩ := Text.separator_append_inj hunderscore (underscore_not_mem_ofNat m) hsame
    rw [hu, hz]
    simp only [List.length_append, List.length_cons, List.length_nil]
    omega
  · right
    rw [List.append_cancel_right hx]

/-- A scan finds every token of a woven text. -/
theorem Woven.mem_pieces {n k m : Nat} {t : Text} (hw : Woven n k t) (hn : n ≤ m)
    (hm : m < n + k) : .token (token m) ∈ pieces t := by
  induction hw with
  | plain _ => omega
  | @weave n k u c hu hc ih =>
    rw [hu.pieces_weave hc]
    rcases Nat.lt_or_ge n m with h | h
    · exact List.mem_append_left _ (ih h (by omega))
    · obtain rfl : m = n := by omega
      exact List.mem_append_right _ List.mem_cons_self

end Localize.Placeholder

namespace Localize.Glossary

open Localize.Span Placeholder

theorem token_injective : Function.Injective token := by
  intro m n h
  rw [token, token] at h
  exact Text.ofNat_injective (List.append_cancel_left (List.append_cancel_right h))

/-- Tokens with the final texts of what they stand for. -/
def finalTexts (reservations : Reservations) : List (Text × Text) :=
  reservations.filterMap fun p => p.2.final.text?.map (p.1, ·)

/-- Every token stands for something with a final text. -/
def HaveTexts (reservations : Reservations) : Prop :=
  ∀ p ∈ reservations, ∃ f, p.2.final = .str f

variable {reservations : Reservations}

theorem finalTexts_cons {token final : Text} {r : Reserved} (h : r.final = .str final)
    (rest : Reservations) :
    finalTexts ((token, r) :: rest) = (token, final) :: finalTexts rest := by
  rw [finalTexts, List.filterMap_cons, h]
  rfl

theorem HaveTexts.keys_finalTexts (h : HaveTexts reservations) :
    Table.keys (finalTexts reservations) = Table.keys reservations := by
  induction reservations with
  | nil => rfl
  | cons p rest ih =>
    obtain ⟨⟨f, hf⟩, hrest⟩ := List.forall_mem_cons.mp h
    rw [finalTexts_cons hf, Table.keys_cons, Table.keys_cons, ih hrest]

theorem HaveTexts.restore_eq (h : HaveTexts reservations) (t : Text) :
    restore reservations t = .ok (Placeholder.restore t (finalTexts reservations)) := by
  induction reservations generalizing t with
  | nil => rfl
  | cons p rest ih =>
    obtain ⟨⟨f, hf⟩, hrest⟩ := List.forall_mem_cons.mp h
    rw [finalTexts_cons hf, restore_cons_of_text hf, ih hrest]
    rfl

theorem mem_finalTexts {p : Text × Reserved} {f : Text} (hp : p ∈ reservations)
    (hf : p.2.final = .str f) : (p.1, f) ∈ finalTexts reservations :=
  List.mem_filterMap.mpr ⟨p, hp, by rw [hf]; rfl⟩

variable {g : Glossary} {language : Text}

theorem haveTexts_reservedFrom (h : g.TextualIn language) (n : Nat) (strings : List Text) :
    HaveTexts (g.reservedFrom language n strings) := by
  intro p hp
  obtain ⟨t, -, s, hs, hr⟩ := exists_reservation_of_mem hp
  obtain ⟨r, hr', hfinal⟩ := h.exists_reservation hs
  obtain rfl : r = p.2 := Option.some.inj (hr'.symm.trans hr)
  exact ⟨_, hfinal⟩

/-- The reply has every token of the text sent. -/
theorem lostPlaceholders_eq_nil_iff {sent reply : Text} :
    Batch.lostPlaceholders sent reply = [] ↔ ∀ t ∈ tokensIn sent, t ∈ tokensIn reply := by
  rw [Batch.lostPlaceholders, Batch.without, List.filter_eq_nil_iff]
  simp

/-- A reply that has every token of the text sent is restored at once, if nowhere in the outcome the
core of a token can join: what comes out holds the final form of every token of the text sent, and
no token. -/
theorem accepted_reply_restored (hforms : g.TextualIn language) {strings : List Text}
    (hmark : ∀ t ∈ strings, ¬ mark <:+: t) {prepared : Prepared}
    (hprepared : g.protect language strings = .ok prepared) {sent reply : Text}
    (hsent : sent ∈ prepared.strings) (haccepted : Batch.lostPlaceholders sent reply = [])
    (hjoint : ∀ m, token m ∈ Table.keys prepared.reservations →
      ¬ Joint (finalFor (finalTexts prepared.reservations)) (pieces reply) m) :
    restore prepared.reservations reply =
        .ok (exchangeFound (finalTexts prepared.reservations) reply) ∧
      (∀ p ∈ prepared.reservations, p.1 <:+: sent → ∃ f, p.2.final = .str f ∧
        f <:+: exchangeFound (finalTexts prepared.reservations) reply) ∧
      ∀ p ∈ prepared.reservations,
        ¬ p.1 <:+: exchangeFound (finalTexts prepared.reservations) reply := by
  obtain ⟨-, rfl⟩ := protect_ok_iff.mp hprepared
  dsimp only at hsent hjoint ⊢
  have htexts := haveTexts_reservedFrom hforms 0 strings
  have hkeys := keys_reservedFrom hforms 0 strings
  have hdistinct : (Table.keys (finalTexts (g.reservedFrom language 0 strings))).Nodup := by
    rw [htexts.keys_finalTexts, hkeys]
    exact List.Nodup.map token_injective (List.nodup_range' _)
  have htokens : ∀ t ∈ Table.keys (g.reservedFrom language 0 strings), ∃ m, t = token m := by
    intro t ht
    rw [hkeys] at ht
    obtain ⟨m, -, rfl⟩ := List.mem_map.mp ht
    exact ⟨m, rfl⟩
  refine ⟨?_, fun p hp hstands => ?_, fun p hp hstands => ?_⟩
  · rw [htexts.restore_eq, restore_eq_exchangeFound _ hdistinct]
    · rwa [htexts.keys_finalTexts]
    · intro p hp
      exact htokens p.1 (htexts.keys_finalTexts ▸ List.mem_map_of_mem hp)
  · obtain ⟨f, hf⟩ := htexts p hp
    obtain ⟨m, hm⟩ := htokens p.1 (List.mem_map_of_mem hp)
    obtain ⟨t, -, n, -, -, hw⟩ := woven_of_mem_sentFrom hmark hsent
    rw [hm] at hstands
    obtain ⟨x, y, hxy⟩ := hstands
    obtain ⟨hn, hk⟩ := hw.number_of_token hxy
    have hreply : token m ∈ tokensIn reply :=
      lostPlaceholders_eq_nil_iff.mp haccepted _ (mem_tokensIn_iff.mpr (hw.mem_pieces hn hk))
    have hfinal : finalFor (finalTexts (g.reservedFrom language 0 strings)) (token m) = f := by
      rw [finalFor, Table.find?_of_mem hdistinct (hm ▸ mem_finalTexts hp hf), Option.getD_some]
    refine ⟨f, hf, ?_⟩
    rw [← hfinal]
    exact infix_render_of_mem (mem_tokensIn_iff.mp hreply) _
  · obtain ⟨m, hm⟩ := htokens p.1 (List.mem_map_of_mem hp)
    rw [hm] at hstands
    exact hjoint m (hm ▸ List.mem_map_of_mem hp) (joint_of_token hstands)

/-- Two letters with words for forms. -/
def letters : Glossary :=
  .ofExact [("A", [("es".toList, Json.lit "Uno")], false),
    ("B", [("es".toList, Json.lit "Dos")], false)]

/-- A reply with the tokens in another order, one of them twice. -/
theorem accepted_reply_restored_in_other_order : ∃ prepared,
    letters.protect "es".toList ["see A and B".toList] = .ok prepared ∧
      prepared.strings = ["see __GLOSSARY_1__ and __GLOSSARY_0__".toList] ∧
      restore prepared.reservations "__GLOSSARY_0__, __GLOSSARY_1__, __GLOSSARY_0__".toList =
        .ok "Dos, Uno, Dos".toList ∧
      ∀ p ∈ prepared.reservations, ¬ p.1 <:+: "Dos, Uno, Dos".toList := by
  have hterms : letters.Textual := textual_ofExact _
  have hforms : letters.TextualIn "es".toList := textualIn_of_all (by decide)
  have hprepared := hterms.protect_eq "es".toList ["see A and B".toList]
  have haccepted : Batch.lostPlaceholders "see __GLOSSARY_1__ and __GLOSSARY_0__".toList
      "__GLOSSARY_0__, __GLOSSARY_1__, __GLOSSARY_0__".toList = [] := by decide
  have houtcome : exchangeFound
      (finalTexts (letters.reservedFrom "es".toList 0 ["see A and B".toList]))
      "__GLOSSARY_0__, __GLOSSARY_1__, __GLOSSARY_0__".toList = "Dos, Uno, Dos".toList := by decide
  have hkeys : Table.keys (letters.reservedFrom "es".toList 0 ["see A and B".toList]) =
      [token 0, token 1] := by decide
  have h := accepted_reply_restored hforms (by decide) hprepared (by decide) haccepted (by
    intro m hm hjoint
    have hcore : core m <:+: "Dos, Uno, Dos".toList := houtcome ▸ hjoint.core_stands
    rw [hkeys, List.mem_cons, List.mem_singleton] at hm
    rcases hm with hm | hm
    · obtain rfl := token_injective hm
      exact absurd hcore (by decide)
    · obtain rfl := token_injective hm
      exact absurd hcore (by decide))
  rw [houtcome] at h
  exact ⟨_, hprepared, by decide, h.1, h.2.2⟩

/-- Two tokens of a reply can share underscores. The scan finds the first of them only, the other
one gives way before it, and what is left of the first is no token any more. -/
theorem accepted_reply_can_lack_final :
    ¬ ∀ (g : Glossary) (language : Text) (strings : List Text), g.Textual →
      (∀ t ∈ strings, ¬ mark <:+: t) →
      (∀ e ∈ g.terms.values, ∀ final, e.final? language = some final →
        ∃ f, final = .str f ∧ ¬ mark <:+: f) →
      ∀ (prepared : Prepared) (sent reply : Text), g.protect language strings = .ok prepared →
        sent ∈ prepared.strings → Batch.lostPlaceholders sent reply = [] →
        ∃ restored, restore prepared.reservations reply = .ok restored ∧
          (∀ p ∈ prepared.reservations, p.1 <:+: sent →
            ∃ f, p.2.final = .str f ∧ f <:+: restored) ∧
          ∀ p ∈ prepared.reservations, ¬ p.1 <:+: restored := by
  intro h
  have hterms : letters.Textual := textual_ofExact _
  have hforms : letters.TextualIn "es".toList := textualIn_of_all (by decide)
  have hfinals : ∀ e ∈ letters.terms.values, ∀ final, e.final? "es".toList = some final →
      ∃ f, final = .str f ∧ ¬ mark <:+: f := by
    intro e he final hfinal
    obtain ⟨f, rfl⟩ := hforms e he final hfinal
    have hall : ∀ e ∈ letters.terms.values,
        ¬ mark <:+: ((e.final? "es".toList).bind Json.text?).getD [] := by decide
    have hf := hall e he
    rw [hfinal] at hf
    exact ⟨f, rfl, hf⟩
  have hprepared := hterms.protect_eq "es".toList ["see A".toList, "see B".toList]
  obtain ⟨restored, hrestored, hholds, -⟩ := h letters "es".toList ["see A".toList, "see B".toList]
    hterms (by decide) hfinals _ "see __GLOSSARY_1__".toList
    "see __GLOSSARY_1__GLOSSARY_0__".toList hprepared (by decide) (by decide)
  rw [(haveTexts_reservedFrom hforms 0 _).restore_eq] at hrestored
  cases hrestored
  have hkey : token 1 ∈
      Table.keys (letters.reservedFrom "es".toList 0 ["see A".toList, "see B".toList]) := by decide
  obtain ⟨p, hp, hp1⟩ := List.mem_map.mp hkey
  have hform : ∀ p ∈ letters.reservedFrom "es".toList 0 ["see A".toList, "see B".toList],
      p.1 = token 1 → p.2.final = .str "Dos".toList := by decide
  obtain ⟨f, hf, hin⟩ := hholds p hp (hp1 ▸ by decide)
  rw [hform p hp hp1] at hf
  cases hf
  exact absurd hin (by decide)

end Localize.Glossary
