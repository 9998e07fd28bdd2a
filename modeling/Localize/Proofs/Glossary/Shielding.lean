import Localize.Proofs.Glossary.Lossless
import Localize.Proofs.Glossary.WholeWord

/-!
# No protected term is sent

In the texts that are sent, no protected term stands as whole words any more. A token is one run of
word characters, so a whole word cannot begin or end in it or directly beside it, and a term without
the mark does not hold a token: such a term would stand between the tokens, where the string holds
it too, and every place of the string where it stands is touched by a span that has given way.
-/

namespace Localize.Glossary

open Localize.Span Placeholder

/-! ### Word characters of tokens -/

theorem isWord_of_isDigit {c : Char} (h : c.isDigit = true) : Text.isWord c = true := by
  have hle : c.toNat < 128 := by
    simp only [Char.isDigit, Bool.and_eq_true, decide_eq_true_eq, UInt32.le_iff_toNat_le] at h
    have hval : c.val.toNat ≤ 57 := h.2
    exact Nat.lt_of_le_of_lt hval (by decide)
  simp only [Text.isWord, hle, if_true, Char.isAlphanum, h, Bool.or_true, Bool.true_or]

theorem isWord_of_mem_token {c : Char} {n : Nat} (h : c ∈ token n) : Text.isWord c = true := by
  have hopening : opening.all Text.isWord = true := by decide
  have hclosing : closing.all Text.isWord = true := by decide
  rw [token, List.mem_append, List.mem_append] at h
  rcases h with (h | h) | h
  · exact List.all_eq_true.mp hopening c h
  · exact isWord_of_isDigit (Text.isDigit_of_mem_ofNat h)
  · exact List.all_eq_true.mp hclosing c h

theorem any_head?_of_forall {p : Char → Bool} {t : Text} (h : ∀ c ∈ t, p c = true) (hne : t ≠ []) :
    t.head?.any p = true := by
  rw [List.head?_eq_some_head hne]
  exact h _ (List.head_mem hne)

theorem any_getLast?_of_forall {p : Char → Bool} {t : Text} (h : ∀ c ∈ t, p c = true)
    (hne : t ≠ []) : t.getLast?.any p = true := by
  rw [List.getLast?_eq_some_getLast hne]
  exact h _ (List.getLast_mem hne)

theorem not_isBoundary {left right : Option Char} (hleft : left.any Text.isWord = true)
    (hright : right.any Text.isWord = true) : Text.isBoundary left right ≠ true := by
  simp [Text.isBoundary, hleft, hright]

/-! ### Whole words among tokens -/

theorem WholeWords.not_behind_words {a term b : Text} (h : WholeWords a term b)
    (hends : WordEnds term) {v run : Text} (hrun : ∀ c ∈ run, Text.isWord c = true)
    (hne : run ≠ []) : a ≠ v ++ run := by
  rintro rfl
  have hleft := h.left
  rw [List.getLast?_append_of_ne_nil _ hne] at hleft
  exact not_isBoundary (any_getLast?_of_forall hrun hne) hends.1 hleft

theorem WholeWords.not_before_words {a term b : Text} (h : WholeWords a term b)
    (hends : WordEnds term) {run v : Text} (hrun : ∀ c ∈ run, Text.isWord c = true)
    (hne : run ≠ []) : b ≠ run ++ v := by
  rintro rfl
  have hright := h.right
  rw [List.head?_append_of_ne_nil _ hne] at hright
  exact not_isBoundary hends.2 (any_head?_of_forall hrun hne) hright

/-- Whole words that begin before the end of a run of word characters, and do not hold the run, end
before its beginning. -/
theorem WholeWords.ends_before {x term y r run c : Text} (hwhole : WholeWords x term y)
    (hends : WordEnds term) (hrun : ∀ c ∈ run, Text.isWord c = true) (hne : run ≠ [])
    (hnot : ¬ run <:+: term) (h : term ++ y = r ++ (run ++ c)) :
    ∃ z, z ≠ [] ∧ r = term ++ z ∧ y = z ++ run ++ c := by
  rcases List.append_eq_append_iff.mp h with ⟨z, hr, hy⟩ | ⟨w, hterm, hrest⟩
  · refine ⟨z, ?_, hr, by rw [hy, List.append_assoc]⟩
    rintro rfl
    exact hwhole.not_before_words hends hrun hne hy
  · exfalso
    rcases List.append_eq_append_iff.mp hrest with ⟨w', hw, -⟩ | ⟨w', hsplit, hy⟩
    · exact hnot ⟨r, w', by rw [hterm, hw, List.append_assoc]⟩
    · have hw' : w' ≠ [] := by
        rintro rfl
        rw [List.append_nil] at hsplit
        exact hnot ⟨r, [], by rw [hterm, hsplit, List.append_nil]⟩
      have hwords : ∀ c ∈ w', Text.isWord c = true := fun c hc =>
        hrun c (hsplit ▸ List.mem_append_right w hc)
      exact hwhole.not_before_words hends hwords hw' hy

/-- Whole words stand apart from a run of word characters that they do not hold. -/
theorem WholeWords.beside {x term y u run c : Text} (hwhole : WholeWords x term y)
    (hends : WordEnds term) (hrun : ∀ c ∈ run, Text.isWord c = true) (hne : run ≠ [])
    (hnot : ¬ run <:+: term) (h : x ++ term ++ y = u ++ run ++ c) :
    (∃ z, z ≠ [] ∧ u = x ++ term ++ z ∧ y = z ++ run ++ c) ∨
      ∃ z, z ≠ [] ∧ x = u ++ run ++ z ∧ c = z ++ term ++ y := by
  simp only [List.append_assoc] at h
  rcases List.append_eq_append_iff.mp h with ⟨r, hu, hrest⟩ | ⟨r, hx, hrest⟩
  · obtain ⟨z, hz, hr, hy⟩ := hwhole.ends_before hends hrun hne hnot hrest
    exact .inl ⟨z, hz, by rw [hu, hr, List.append_assoc], hy⟩
  · rcases List.append_eq_append_iff.mp hrest with ⟨z, hr, hc⟩ | ⟨q, hsplit, hq⟩
    · refine .inr ⟨z, ?_, by rw [hx, hr, List.append_assoc], by rw [hc, List.append_assoc]⟩
      rintro rfl
      rw [List.append_nil] at hr
      exact hwhole.not_behind_words hends hrun hne (hx.trans (congrArg (u ++ ·) hr))
    · exfalso
      rcases eq_or_ne r [] with rfl | hr
      · rw [List.nil_append] at hsplit
        rw [← hsplit] at hq
        obtain ⟨z, -, hnil, -⟩ := hwhole.ends_before (r := []) hends hrun hne hnot hq
        exact hends.ne_nil (List.append_eq_nil_iff.mp hnil.symm).1
      · have hwords : ∀ c ∈ r, Text.isWord c = true := fun c hc =>
          hrun c (hsplit ▸ List.mem_append_left q hc)
        exact hwhole.not_behind_words hends hwords hr hx

/-- A term that stands as whole words among the tokens of a text stands in the text itself, beside
all spans that have given way to them. -/
theorem whole_of_exchange {term : Text} (hends : WordEnds term) (hterm : ¬ mark <:+: term)
    {spans : List Span} {t : Text} (hin : ∀ s ∈ spans, s.In t) (hapart : Apart spans) {n : Nat}
    {x y : Text} (h : exchange t (numbered n spans) = x ++ term ++ y)
    (hwhole : WholeWords x term y) :
    ∃ a b, t = a ++ term ++ b ∧ a.getLast? = x.getLast? ∧ b.head? = y.head? ∧
      ∀ s ∈ spans, s.stop ≤ a.length ∨ (a.length + term.length : Nat) ≤ s.start := by
  induction spans generalizing t n x y with
  | nil => exact ⟨x, y, h, rfl, rfl, fun s hs => absurd hs List.not_mem_nil⟩
  | cons s rest ih =>
    obtain ⟨a, b, ht, hs⟩ := hin s List.mem_cons_self
    obtain ⟨hin', hapart'⟩ := in_before_of_apart hin hapart ht hs
    have hfollow := (List.pairwise_cons.mp hapart).1
    have hnot : ¬ token n <:+: term := token_not_infix_of_mark hterm n
    rw [numbered, exchange_cons ht hs] at h
    rcases hwhole.beside hends (fun _ => isWord_of_mem_token) (token_ne_nil n) hnot h.symm with
      ⟨z, hz, hbefore, hy⟩ | ⟨z, hz, hx, hbehind⟩
    · have hhead : y.head? = z.head? := by
        rw [hy, List.append_assoc, List.head?_append_of_ne_nil _ hz]
      have hwhole' : WholeWords x term z := ⟨hwhole.left, hhead ▸ hwhole.right⟩
      obtain ⟨a', b', ha, hleft, hright, hbeside⟩ := ih hin' hapart' hbefore hwhole'
      have hb' : b' ≠ [] := by
        rintro rfl
        exact hz (List.head?_eq_none_iff.mp hright.symm)
      refine ⟨a', b' ++ s.text ++ b, ?_, hleft, ?_, ?_⟩
      · rw [ht, ha]
        simp only [List.append_assoc]
      · rw [List.append_assoc, List.head?_append_of_ne_nil _ hb', hright, hhead]
      · intro s' hs'
        rcases List.mem_cons.mp hs' with rfl | hs'
        · right
          rw [hs, ha]
          simp only [List.length_append]
          omega
        · exact hbeside s' hs'
    · refine ⟨a ++ s.text ++ z, y, ?_, ?_, rfl, ?_⟩
      · rw [ht, hbehind]
        simp only [List.append_assoc]
      · rw [hx, List.getLast?_append_of_ne_nil _ hz, List.getLast?_append_of_ne_nil _ hz]
      · intro s' hs'
        left
        simp only [List.length_append]
        rcases List.mem_cons.mp hs' with rfl | hs'
        · rw [stop, hs]
          omega
        · have hstop := hfollow s' hs'
          omega

/-! ### Texts sent -/

variable {g : Glossary} {language : Text}

theorem textual_of_find_ok {t : Text} {found : List Occurrence} (h : g.find t = .ok found) :
    g.Textual := by
  obtain ⟨each, heach, -⟩ := bind_ok_iff.mp h
  intro e he
  obtain ⟨part, -, hocc⟩ := exists_of_mem_left (mapM_ok_iff.mp heach) he
  cases hterm : e.term with
  | str term => exact ⟨term, rfl⟩
  | null | bool _ | int _ | float _ | arr _ | obj _ =>
    rw [Entry.occurrences, hterm] at hocc
    cases hocc

/-- A protected term without the mark does not stand as whole words in what is sent for a string. -/
theorem WordsIn.not_whole_sent (hg : g.WordsIn language) {t : Text}
    (hfind : ∃ found, g.find t = .ok found) {term : Text} (hterm : g.Protects language term)
    (hmark : ¬ mark <:+: term) {n : Nat} {x y : Text}
    (h : exchange t (numbered n (g.kept language t)) = x ++ term ++ y) :
    ¬ WholeWords x term y := by
  intro hwhole
  have hends := hg.wordEnds hterm
  obtain ⟨a, b, ht, hleft, hright, hbeside⟩ :=
    whole_of_exchange hends hmark (fun _ => in_of_mem_kept) (apart_kept g language t) h hwhole
  have hstands : WholeWords a term b := ⟨hleft ▸ hwhole.left, hright ▸ hwhole.right⟩
  obtain ⟨s, hs, hbegin, hend⟩ := hg.exists_kept_over hfind hterm ht hstands
  rcases hbeside s hs with hbefore | hbehind
  · omega
  · omega

/-- In what is sent for strings no term with a form in the language is found. The strings may hold
anything; the terms are words whose letter case counts, and do not hold the mark. -/
theorem no_protected_term_found (hg : g.WordsIn language)
    (hmark : ∀ term, g.Protects language term → ¬ mark <:+: term) (strings : List Text) :
    (g.Textual → ∃ p, g.protect language strings = .ok p) ∧
      ∀ p, g.protect language strings = .ok p → p.strings.length = strings.length ∧
        ∀ u ∈ p.strings, ∃ found, g.find u = .ok found ∧
          ∀ m ∈ found, m.entry.final? language = none := by
  constructor
  · intro htextual
    exact ⟨_, protect_ok_iff.mpr ⟨fun t _ => htextual.find_ok t, rfl⟩⟩
  · intro p hp
    obtain ⟨hfind, rfl⟩ := protect_ok_iff.mp hp
    refine ⟨length_sentFrom g language 0 strings, fun u hu => ?_⟩
    obtain ⟨i, hi⟩ := List.mem_iff_getElem?.mp hu
    rw [sentFrom_getElem?] at hi
    obtain ⟨t, ht, hsent⟩ := Option.map_eq_some_iff.mp hi
    have hfindt := hfind t (List.mem_of_getElem? ht)
    have htextual : g.Textual := textual_of_find_ok hfindt.choose_spec
    obtain ⟨found, hfound⟩ := htextual.find_ok u
    refine ⟨found, hfound, fun m hm => ?_⟩
    by_contra hform
    have hsome : (m.entry.final? language).isSome = true := Option.isSome_iff_ne_none.mpr hform
    obtain ⟨e, he, part, hocc, hm⟩ := (mem_find_iff hfound).mp hm
    obtain ⟨rfl, -, -⟩ := Entry.mem_occurrences hocc hm
    obtain ⟨hcase, term, hterm, hends⟩ := hg m.entry he hsome
    have hprotects : g.Protects language term := ⟨m.entry, he, hterm, hsome⟩
    obtain ⟨x, y, hxy, -, hwhole⟩ :=
      Entry.whole_of_mem_occurrences hterm hcase hends.ne_nil hocc hm
    exact hg.not_whole_sent hfindt hprotects (hmark term hprotects) (hsent.trans hxy) hwhole

/-- A term that overlaps itself, and the word that it begins and ends with. -/
def echoing : Glossary := .ofExact [("so-so", [], true), ("so", [], true)]

theorem no_protected_term_found_echoing : ∃ p,
    echoing.protect "es".toList ["so-so-so!".toList] = .ok p ∧
      p.strings = ["__GLOSSARY_2__-__GLOSSARY_1__-__GLOSSARY_0__!".toList] ∧
      ∀ u ∈ p.strings, ∃ found, echoing.find u = .ok found ∧
        ∀ m ∈ found, m.entry.final? "es".toList = none := by
  have hwords : echoing.WordsIn "es".toList := by
    have hall : ∀ e ∈ echoing.terms.values, e.caseSensitive = true ∧
        (e.term.text?.bind List.head?).any Text.isWord = true ∧
        (e.term.text?.bind List.getLast?).any Text.isWord = true := by decide
    intro e he _
    obtain ⟨hcase, hhead, hlast⟩ := hall e he
    obtain ⟨term, hterm⟩ : ∃ term, e.term = .str term := textual_ofExact _ e he
    rw [hterm] at hhead hlast
    exact ⟨hcase, term, hterm, hhead, hlast⟩
  have hmark : ∀ term, echoing.Protects "es".toList term → ¬ mark <:+: term := by
    have hall : ∀ e ∈ echoing.terms.values, ¬ mark <:+: e.term.text?.getD [] := by decide
    rintro term ⟨e, he, hterm, -⟩
    have h := hall e he
    rwa [hterm] at h
  obtain ⟨hok, hsent⟩ := no_protected_term_found hwords hmark ["so-so-so!".toList]
  obtain ⟨p, hp⟩ := hok (textual_ofExact _)
  refine ⟨p, hp, ?_, (hsent p hp).2⟩
  rw [(protect_ok_iff.mp hp).2]
  decide

end Localize.Glossary
