import Localize.Proofs.Markup.Selector
import Localize.Proofs.Text.Case

/-!
# Written selectors

A rule is written as its tag, its classes in their order behind dots, and its id behind a number
sign, which stands before the classes, among them or behind them. Whatever blanks are around it, the
selector is read as this rule and no other: each part ends where the mark of the next one stands, so
the id is the only text behind a number sign, and the classes around it are still apart when it has
been taken out.
-/

namespace Localize.Markup

open Text (isBlank isNameChar allBlank strip)

variable {rule : Rule} {n : Nat} {mark : Char} {name t u before behind : Text} {classes : List Text}

/-- What stands in a selector as an id or a class. -/
def IsPart (name : Text) : Prop :=
  name ≠ [] ∧ ∀ c ∈ name, c.isAlphanum = true ∨ c = '-' ∨ c = '_'

/-- What stands in a selector as a tag and is not changed when it is read. -/
def IsSmallTag (name : Text) : Prop :=
  name ≠ [] ∧ ∀ c ∈ name, c.isLower = true ∨ c.isDigit = true ∨ c = '-'

instance (name : Text) : Decidable (IsPart name) :=
  inferInstanceAs (Decidable (name ≠ [] ∧ ∀ c ∈ name, _))

instance (name : Text) : Decidable (IsSmallTag name) :=
  inferInstanceAs (Decidable (name ≠ [] ∧ ∀ c ∈ name, _))

/-- A rule with a part at least, all of whose parts can stand in a selector. -/
structure Rule.Writable (rule : Rule) : Prop where
  tag : ∀ name ∈ rule.tag, IsSmallTag name
  id : ∀ name ∈ rule.id, IsPart name
  classes : ∀ name ∈ rule.classes, IsPart name
  part : rule ≠ .empty

def writeId : Option Text → Text
  | some name => '#' :: name
  | none => []

def writeClasses (classes : List Text) : Text := classes.flatMap ('.' :: ·)

/-- The selector of a rule that has its id behind so many of the classes. -/
def Rule.write (rule : Rule) (n : Nat) : Text :=
  rule.tag.getD [] ++
    (writeClasses (rule.classes.take n) ++ (writeId rule.id ++ writeClasses (rule.classes.drop n)))

/-! ### Where parts end -/

theorem IsPart.isIdent (h : IsPart name) : IsIdent name := by
  refine ⟨h.1, fun c hc => ?_⟩
  rw [isIdentChar, isNameChar]
  rcases h.2 c hc with hchar | rfl | rfl
  · rw [hchar]
    rfl
  · decide
  · decide

theorem IsSmallTag.toNat_cases (h : IsSmallTag name) : ∀ c ∈ name, c.toNat = 45 ∨
    (48 ≤ c.toNat ∧ c.toNat ≤ 57) ∨ (97 ≤ c.toNat ∧ c.toNat ≤ 122) := by
  intro c hc
  rcases h.2 c hc with hsmall | hdigit | rfl
  · have hlow : c.isLower = (decide (c.val ≥ 'a'.val) && decide (c.val ≤ 'z'.val)) := rfl
    refine .inr (.inr ?_)
    simpa [hlow, UInt32.le_iff_toNat_le] using hsmall
  · refine .inr (.inl ?_)
    simpa [Char.isDigit, UInt32.le_iff_toNat_le] using hdigit
  · exact .inl rfl

theorem IsSmallTag.isNameChar (h : IsSmallTag name) : ∀ c ∈ name, isNameChar c = true := by
  intro c hc
  have hnumber := h.toNat_cases c hc
  rw [Text.isNameChar_iff]
  omega

theorem IsSmallTag.lower_eq (h : IsSmallTag name) : Text.lower name = name := by
  refine Text.lower_of_isSmall fun c hc => ?_
  have hnumber := h.toNat_cases c hc
  have hsmall := Text.isSmall_of_not_capital c.toNat (by omega) (by omega)
  rwa [Char.ofNat_toNat] at hsmall

/-- Nothing follows, or the mark of a part. -/
def Stops (t : Text) : Prop := ∀ c ∈ t.head?, c = '.' ∨ c = '#'

theorem Stops.not_isIdentChar (h : Stops t) : ∀ c ∈ t.head?, isIdentChar c = false := by
  intro c hc
  rcases h c hc with rfl | rfl
  · decide
  · decide

theorem Stops.not_isNameChar (h : Stops t) : ∀ c ∈ t.head?, isNameChar c = false := by
  intro c hc
  rcases h c hc with rfl | rfl
  · decide
  · decide

theorem stops_nil : Stops [] := nofun

theorem Stops.writeClasses_append (h : Stops t) (classes : List Text) :
    Stops (writeClasses classes ++ t) := by
  cases classes with
  | nil => exact h
  | cons first classes =>
    rintro c ⟨⟩
    exact .inl rfl

theorem stops_writeClasses (classes : List Text) : Stops (writeClasses classes) := by
  have h := stops_nil.writeClasses_append classes
  rwa [List.append_nil] at h

theorem Stops.writeId_append (h : Stops t) (id : Option Text) : Stops (writeId id ++ t) := by
  cases id with
  | none => exact h
  | some name =>
    rintro c ⟨⟩
    exact .inr rfl

/-! ### Reading the parts -/

/-- A marked name is read up to the next mark. -/
theorem markedName?_append (hname : IsIdent name) (ht : Stops t) :
    markedName? mark (mark :: name ++ t) = some (name, (mark :: name).length) := by
  have htake : (name ++ t).takeWhile isIdentChar = name :=
    takeWhile_append_of_head hname.2 ht.not_isIdentChar
  simp [markedName?, htake, hname.1]

theorem notMem_writeClasses (hclasses : ∀ name ∈ classes, IsIdent name) {c : Char}
    (hdot : c ≠ '.') (hc : isIdentChar c = false) : c ∉ writeClasses classes := by
  simp only [writeClasses, List.mem_flatMap, List.mem_cons, not_exists, not_and, not_or]
  refine fun name hname => ⟨hdot, fun hmem => ?_⟩
  rw [(hclasses name hname).2 c hmem] at hc
  cases hc

/-- The classes of a selector without an id are read in their order. -/
theorem readings_writeClasses (hclasses : ∀ name ∈ classes, IsIdent name) :
    Text.readings (markedName? '.') (writeClasses classes) = classes := by
  induction classes with
  | nil => exact Text.readings_nil rfl
  | cons first classes ih =>
    obtain ⟨hfirst, hothers⟩ := List.forall_mem_cons.mp hclasses
    have hread : markedName? '.' ('.' :: first ++ writeClasses classes) =
        some (first, ('.' :: first).length) :=
      markedName?_append hfirst (stops_writeClasses classes)
    change Text.readings _ ('.' :: first ++ writeClasses classes) = _
    rw [Text.readings_append_of_some (List.cons_ne_nil '.' first) hread, ih hothers]

/-- A text with one number sign has the name behind it for the id, and without the id it is what
stands around it. -/
theorem firstMatch?_writeId (ht : '#' ∉ t) (hu : '#' ∉ u) (hstops : Stops u)
    (hname : IsIdent name) :
    Text.firstMatch? (fun v => (markedName? '#' v).map (·.1)) (t ++ ('#' :: name ++ u)) =
        some name ∧
      Text.replaceFirst ('#' :: name) [] (t ++ ('#' :: name ++ u)) = t ++ u := by
  have hmarked : Marked '#' (t ++ ('#' :: name ++ u)) := by
    obtain ⟨c, name, rfl⟩ := List.exists_cons_of_ne_nil hname.1
    exact ⟨c, hname.2 c List.mem_cons_self, t, name ++ u, by simp⟩
  cases hfirst : Text.firstMatch? (fun v => (markedName? '#' v).map (·.1))
      (t ++ ('#' :: name ++ u)) with
  | none => exact absurd hmarked (firstMatch?_marked_eq_none_iff.mp hfirst)
  | some found =>
    obtain ⟨front, rest, htext, hreplace, hfound, hrest⟩ := exists_of_firstMatch? hfirst
    have hsign : '#' ∉ name ++ u := by
      rw [List.mem_append, not_or]
      refine ⟨fun hmem => ?_, hu⟩
      cases hname.2 '#' hmem
    -- The number sign stands in one place, and the name behind it ends in one.
    obtain ⟨rfl, hsame⟩ := Text.separator_unique ht hsign htext.symm
    obtain ⟨rfl, rfl⟩ :=
      append_inj_of_head isIdentChar hfound.2 hrest hname.2 hstops.not_isIdentChar hsame
    exact ⟨rfl, hreplace⟩

/-! ### Reading a selector -/

theorem isIdentChar_of_isNameChar {c : Char} (h : isNameChar c = true) : isIdentChar c = true := by
  rw [isIdentChar, h, Bool.true_or]

theorem not_isBlank_of_isIdentChar {c : Char} (h : isIdentChar c = true) : isBlank c = false := by
  rw [isIdentChar, Bool.or_eq_true, decide_eq_true_eq] at h
  rcases h with hname | rfl
  · rw [Bool.eq_false_iff]
    intro hblank
    rw [Text.not_isNameChar_of_isBlank hblank] at hname
    cases hname
  · decide

theorem mem_writeClasses_cases {c : Char} (hclasses : ∀ name ∈ classes, IsPart name)
    (hc : c ∈ writeClasses classes) : c = '.' ∨ isIdentChar c = true := by
  obtain ⟨name, hname, hc⟩ := List.mem_flatMap.mp hc
  exact (List.mem_cons.mp hc).imp_right ((hclasses name hname).isIdent.2 c)

theorem mem_writeId_cases {id : Option Text} {c : Char} (hid : ∀ name ∈ id, IsPart name)
    (hc : c ∈ writeId id) : c = '#' ∨ isIdentChar c = true := by
  cases id with
  | none => cases hc
  | some name => exact (List.mem_cons.mp hc).imp_right ((hid name rfl).isIdent.2 c)

theorem Rule.Writable.isNameChar_tag (h : rule.Writable) :
    ∀ c ∈ rule.tag.getD [], isNameChar c = true := by
  cases hrule : rule.tag with
  | none => exact fun c hc => absurd hc List.not_mem_nil
  | some name => exact (h.tag name hrule).isNameChar

/-- A selector has the characters of names and the marks of parts. -/
theorem mem_write_cases (h : rule.Writable) {c : Char} (hc : c ∈ rule.write n) :
    c = '.' ∨ c = '#' ∨ isIdentChar c = true := by
  simp only [Rule.write, List.mem_append] at hc
  have hclass {classes : List Text} (hsub : classes ⊆ rule.classes)
      (hc : c ∈ writeClasses classes) : c = '.' ∨ c = '#' ∨ isIdentChar c = true :=
    (mem_writeClasses_cases (fun name hname => h.classes name (hsub hname)) hc).imp_right .inr
  rcases hc with htag | hfirst | hid | hothers
  · exact .inr (.inr (isIdentChar_of_isNameChar (h.isNameChar_tag c htag)))
  · exact hclass (List.take_subset n _) hfirst
  · exact .inr (mem_writeId_cases h.id hid)
  · exact hclass (List.drop_subset n _) hothers

/-- No character of a selector is a blank. -/
theorem not_isBlank_of_mem_write (h : rule.Writable) (n : Nat) :
    ∀ c ∈ rule.write n, isBlank c = false := by
  intro c hc
  rcases mem_write_cases h hc with rfl | rfl | hident
  · decide
  · decide
  · exact not_isBlank_of_isIdentChar hident

theorem writeId_eq_nil_iff {id : Option Text} : writeId id = [] ↔ id = none := by
  cases id <;> simp [writeId]

theorem writeClasses_eq_nil_iff : writeClasses classes = [] ↔ classes = [] := by
  cases classes <;> simp [writeClasses]

theorem write_ne_nil (h : rule.Writable) (n : Nat) : rule.write n ≠ [] := by
  intro hnil
  simp only [Rule.write, List.append_eq_nil_iff, writeId_eq_nil_iff, writeClasses_eq_nil_iff]
    at hnil
  obtain ⟨htag, hfirst, hid, hothers⟩ := hnil
  have hclasses : rule.classes = [] := by
    rw [← List.take_append_drop n rule.classes, hfirst, hothers, List.append_nil]
  refine h.part ?_
  obtain ⟨tag, id, classes⟩ := rule
  cases tag with
  | none => rw [Rule.empty, Rule.mk.injEq]; exact ⟨rfl, hid, hclasses⟩
  | some name => exact absurd htag (h.tag name rfl).1

theorem strip_write (h : rule.Writable) (n : Nat) : strip (rule.write n) = rule.write n :=
  Text.strip_eq_self_iff.mpr
    ⟨fun c hc => not_isBlank_of_mem_write h n c (List.mem_of_head? hc),
      fun c hc => not_isBlank_of_mem_write h n c (List.mem_of_getLast? hc)⟩

/-- The tag ends where the first mark stands. -/
theorem tag_write (h : rule.Writable) (hs : strip t = rule.write n) :
    (Rule.ofSelector t).tag = rule.tag ∧
      behindTag t = writeClasses (rule.classes.take n) ++
        (writeId rule.id ++ writeClasses (rule.classes.drop n)) := by
  have hstops : Stops (writeClasses (rule.classes.take n) ++
      (writeId rule.id ++ writeClasses (rule.classes.drop n))) :=
    ((stops_writeClasses _).writeId_append rule.id).writeClasses_append _
  have htake : (strip t).takeWhile isNameChar = rule.tag.getD [] := by
    rw [hs, Rule.write, takeWhile_append_of_head h.isNameChar_tag hstops.not_isNameChar]
  have hdrop : behindTag t = writeClasses (rule.classes.take n) ++
      (writeId rule.id ++ writeClasses (rule.classes.drop n)) := by
    rw [behindTag, hs, Rule.write, dropWhile_append_of_head h.isNameChar_tag hstops.not_isNameChar]
  refine ⟨?_, hdrop⟩
  simp only [Rule.ofSelector, htake]
  cases hrule : rule.tag with
  | none => rfl
  | some name =>
    have htag := h.tag name hrule
    simp [htag.1, htag.lower_eq]

theorem ofSelector_of_strip (h : rule.Writable) (hs : strip t = rule.write n) :
    Rule.ofSelector t = rule := by
  obtain ⟨htag, hbehind⟩ := tag_write h hs
  have hident : ∀ name ∈ rule.classes, IsIdent name := fun name hname =>
    (h.classes name hname).isIdent
  have hfirst : '#' ∉ writeClasses (rule.classes.take n) :=
    notMem_writeClasses (fun name hname => hident name (List.mem_of_mem_take hname)) (by decide)
      (by decide)
  have hothers : '#' ∉ writeClasses (rule.classes.drop n) :=
    notMem_writeClasses (fun name hname => hident name (List.mem_of_mem_drop hname)) (by decide)
      (by decide)
  have hall : writeClasses (rule.classes.take n) ++ writeClasses (rule.classes.drop n) =
      writeClasses rule.classes := by
    rw [writeClasses, writeClasses, ← List.flatMap_append, List.take_append_drop, writeClasses]
  have hclasses : (Text.scan (fun _ v => markedName? '.' v) (writeClasses rule.classes)).map
      (·.value) = rule.classes := readings_writeClasses hident
  have hparts : (Rule.ofSelector t).id = rule.id ∧ (Rule.ofSelector t).classes = rule.classes := by
    cases hrule : rule.id with
    | none =>
      rw [hrule, writeId, List.nil_append, hall] at hbehind
      have hid : (Rule.ofSelector t).id = none := by
        rw [id_ofSelector, hbehind, firstMatch?_marked_eq_none_iff, ← hall]
        exact fun hmarked => (List.mem_append.mp hmarked.mem).elim hfirst hothers
      rw [classes_ofSelector_of_no_id hid, hbehind]
      exact ⟨hid, hclasses⟩
    | some name =>
      rw [hrule, writeId] at hbehind
      obtain ⟨hread, hremaining⟩ := firstMatch?_writeId hfirst hothers (stops_writeClasses _)
        (h.id name hrule).isIdent
      have hid : (Rule.ofSelector t).id = some name := by rw [id_ofSelector, hbehind, hread]
      rw [classes_ofSelector_of_id hid, hbehind, hremaining, hall]
      exact ⟨hid, hclasses⟩
  calc Rule.ofSelector t
      = ⟨(Rule.ofSelector t).tag, (Rule.ofSelector t).id, (Rule.ofSelector t).classes⟩ := rfl
    _ = rule := by rw [htag, hparts.1, hparts.2]

/-- A rule is read from each of its selectors, whatever blanks are around it. -/
theorem rulesOf_write (h : rule.Writable) (n : Nat) (hbefore : allBlank before = true)
    (hbehind : allBlank behind = true) :
    rulesOf [.str (before ++ rule.write n ++ behind)] = [rule] := by
  have hs : strip (before ++ rule.write n ++ behind) = rule.write n := by
    rw [Text.strip_between_blanks hbefore hbehind, strip_write h]
  generalize before ++ rule.write n ++ behind = t at hs
  have hblank : allBlank t = false := by
    obtain ⟨c, hc⟩ := List.exists_mem_of_ne_nil _ (write_ne_nil h n)
    rw [← Text.allBlank_strip, hs]
    exact Text.allBlank_eq_false.mpr ⟨c, hc, not_isBlank_of_mem_write h n c hc⟩
  simp [rulesOf, hblank, ofSelector_of_strip h hs]

/-- A rule whose id is a class too and begins another one. -/
def repeatedName : Rule where
  tag := some "h1".toList
  id := some "a".toList
  classes := ["x_a".toList, "a".toList, "a-b".toList, "a".toList]

theorem rulesOf_write_repeatedName :
    repeatedName.write 2 = "h1.x_a.a#a.a-b.a".toList ∧ repeatedName.Writable ∧
      rulesOf [.str (" \t".toList ++ repeatedName.write 2 ++ ['\u00a0'])] = [repeatedName] := by
  have hrule : repeatedName.Writable := by
    refine ⟨?_, ?_, by decide, by decide⟩
    · rintro name ⟨⟩
      decide
    · rintro name ⟨⟩
      decide
  exact ⟨by decide, hrule, rulesOf_write hrule 2 (by decide) (by decide)⟩

end Localize.Markup
