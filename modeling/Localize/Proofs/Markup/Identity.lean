import Localize.Proofs.Markup.Exactness

/-!
# The id and the classes of an element

The id and the classes of an element are looked for under `id`, `class` and `className` in the text
of its attributes. A search finds its name at the end of any attribute's name, letter case ignored,
and passes over a value that is empty. So what is read is the value of the first attribute that has
a value and a name that ends as the one looked for: the right one where no other name ends so.
-/

namespace Localize.Markup

open Text (isBlank isNameChar allBlank)

variable {name t u y value : Text} {a : Attribute} {attributes : Attributes}

/-! ### A name and its value -/

/-- The value given to a name at the beginning of a text. -/
def givenTo? (name t : Text) : Option Text := do
  let behind ← afterName? name t
  let behind ← afterEquals? behind
  let (value, _) ← quotedValue? behind
  return value

theorem attributeValue?_eq (name t : Text) :
    attributeValue? name t = Text.firstMatch? (givenTo? name) t := rfl

theorem exists_of_givenTo? (h : givenTo? name t = some value) :
    ∃ w blanks more rest, t = w ++ (blanks ++ '=' :: more) ∧ SameLetters name w ∧
      allBlank blanks = true ∧ quotedValue? (Text.stripLeft more) = some (value, rest) := by
  obtain ⟨behind, hbehind, h⟩ := Option.bind_eq_some_iff.mp h
  obtain ⟨after, hafter, h⟩ := Option.bind_eq_some_iff.mp h
  obtain ⟨⟨value', rest⟩, hvalue, h⟩ := Option.bind_eq_some_iff.mp h
  obtain rfl : value' = value := Option.some.inj h
  obtain ⟨w, rfl, hsame⟩ := afterName?_eq_some_iff.mp hbehind
  obtain ⟨blanks, more, rfl, hblanks, rfl⟩ := exists_of_afterEquals? hafter
  exact ⟨w, blanks, more, rest, rfl, hsame, hblanks, hvalue⟩

theorem givenTo?_of_calm (hname : IsName name) (h : Calm t) : givenTo? name t = none := by
  rw [Option.eq_none_iff_forall_ne_some]
  intro value hvalue
  obtain ⟨w, blanks, more, rest, rfl, hsame, hblanks, -⟩ := exists_of_givenTo? hvalue
  exact not_sameLetters_of_calm h hblanks hname hsame

/-- At a name that ends before its value that value is read if the name is the one looked for. -/
theorem givenTo?_name (hname : name ≠ [] ∧ IsName name) (hy : IsName y)
    (hvalue : ∀ c ∈ value, isQuote c = false) (rest : Text) :
    givenTo? name (y ++ '=' :: '"' :: (value ++ '"' :: rest)) =
      if Text.lower y = Text.lower name ∧ value ≠ [] then some value else none := by
  split_ifs with h
  · have hsame : SameLetters name y := (sameLetters_iff hname.2 hy).mpr h.1
    rw [givenTo?, afterName?_eq_some_iff.mpr ⟨y, rfl, hsame⟩, Option.bind_eq_bind, Option.bind_some,
      afterEquals?_cons, stripLeft_quoted, Option.bind_eq_bind, Option.bind_some,
      quotedValue?_quoted rfl hvalue rfl, if_neg h.2]
    rfl
  · rw [Option.eq_none_iff_forall_ne_some]
    intro found hfound
    obtain ⟨w, blanks, more, rest', heq, hsame, hblanks, hquoted⟩ := exists_of_givenTo? hfound
    obtain ⟨rfl, rfl⟩ := eq_of_sameLetters hy hname hsame hblanks heq
    rw [stripLeft_quoted, quotedValue?_quoted rfl hvalue rfl] at hquoted
    refine h ⟨(sameLetters_iff hname.2 hy).mp hsame, fun hempty => ?_⟩
    rw [if_pos hempty] at hquoted
    cases hquoted

/-! ### The text of attributes -/

instance : DecidablePred Attribute.Quoted := fun a =>
  decidable_of_iff ((a.gap ≠ [] ∧ allBlank a.gap = true) ∧ (a.name ≠ [] ∧ IsName a.name) ∧
      (a.value.all fun c => c ∉ delimiters) = true)
    ⟨fun h => ⟨h.1, h.2.1, fun c hc => of_decide_eq_true (List.all_eq_true.mp h.2.2 c hc)⟩,
      fun h => ⟨h.gap, h.name, List.all_eq_true.mpr fun c hc => decide_eq_true (h.value c hc)⟩⟩

instance : DecidablePred Attributes.Quoted := fun attributes =>
  decidable_of_iff ((∀ a ∈ attributes.items, a.Quoted) ∧ allBlank attributes.trailing = true)
    ⟨fun h => ⟨h.1, h.2⟩, fun h => ⟨h.items, h.trailing⟩⟩

/-- The name ends as the one looked for, letter case ignored, and there is a value. -/
def Attribute.Answers (a : Attribute) (name : Text) : Prop :=
  Text.lower name <:+ Text.lower a.name ∧ a.value ≠ []

instance (a : Attribute) (name : Text) : Decidable (a.Answers name) :=
  inferInstanceAs (Decidable (Text.lower name <:+ Text.lower a.name ∧ a.value ≠ []))

namespace Attribute

theorem length_of_lower (hname : IsName name) (hy : IsName y)
    (h : Text.lower y = Text.lower name) : y.length = name.length := by
  rw [lower_of_name hy, lower_of_name hname] at h
  simpa using congrArg List.length h

/-- In an attribute whose name ends as the one looked for that end is where it is read: every longer
end of the name is another name. -/
theorem firstMatch?_answers (h : a.Quoted) (hname : name ≠ [] ∧ IsName name)
    (hanswers : a.Answers name) (u : Text) :
    Text.firstMatch? (givenTo? name) (a.name ++ '=' :: '"' :: (a.value ++ '"' :: u)) =
      some a.value := by
  obtain ⟨⟨front, hfront⟩, hvalue⟩ := hanswers
  rw [lower_of_name h.name.2, eq_comm, List.map_eq_append_iff] at hfront
  obtain ⟨x, y, hxy, -, hlower⟩ := hfront
  have hx : IsName x := fun c hc => h.name.2 c (hxy ▸ List.mem_append_left y hc)
  have hy : IsName y := fun c hc => h.name.2 c (hxy ▸ List.mem_append_right x hc)
  rw [← lower_of_name hy] at hlower
  have hread : givenTo? name (y ++ '=' :: '"' :: (a.value ++ '"' :: u)) = some a.value :=
    (givenTo?_name hname hy h.not_isQuote u).trans (if_pos ⟨hlower, hvalue⟩)
  rw [hxy, List.append_assoc, Text.firstMatch?_append_of_none, Text.firstMatch?_of_some hread]
  intro x' y' hxy' hy'
  have hlonger : IsName (y' ++ y) := by
    intro c hc
    rcases List.mem_append.mp hc with hc | hc
    · exact hx c (hxy' ▸ List.mem_append_right x' hc)
    · exact hy c hc
  rw [← List.append_assoc, givenTo?_name hname hlonger h.not_isQuote u, if_neg]
  rintro ⟨hsame, -⟩
  have hlength := length_of_lower hname.2 hlonger hsame
  rw [List.length_append, length_of_lower hname.2 hy hlower] at hlength
  exact hy' (List.length_eq_zero_iff.mp (by omega))

/-- Any other attribute is passed over. -/
theorem firstMatch?_not_answers (h : a.Quoted) (hname : name ≠ [] ∧ IsName name)
    (hanswers : ¬ a.Answers name) (hu : Calm u) :
    Text.firstMatch? (givenTo? name) (a.name ++ '=' :: '"' :: (a.value ++ '"' :: u)) =
      Text.firstMatch? (givenTo? name) u := by
  have hwithin : Text.firstMatch? (givenTo? name) (a.name ++ '=' :: '"' :: (a.value ++ '"' :: u)) =
      Text.firstMatch? (givenTo? name) ('=' :: '"' :: (a.value ++ '"' :: u)) := by
    refine Text.firstMatch?_append_of_none fun x y hxy _ => ?_
    have hy : IsName y := fun c hc => h.name.2 c (hxy ▸ List.mem_append_right x hc)
    rw [givenTo?_name hname hy h.not_isQuote u, if_neg]
    rintro ⟨hsame, hvalue⟩
    refine hanswers ⟨?_, hvalue⟩
    rw [← hsame, lower_of_name hy, lower_of_name h.name.2, hxy, List.map_append]
    exact List.suffix_append _ _
  have hsplit : '=' :: '"' :: (a.value ++ '"' :: u) = '=' :: '"' :: (a.value ++ ['"']) ++ u := by
    simp
  rw [hwithin, hsplit]
  refine Text.firstMatch?_append_of_none fun x y hxy hy => ?_
  cases x with
  | nil =>
    -- The name looked for is not empty, so it does not end right before the equals sign.
    have hnil : IsName [] := fun _ hc => absurd hc List.not_mem_nil
    rw [List.nil_append] at hxy
    rw [← hxy, ← hsplit]
    refine (givenTo?_name hname hnil h.not_isQuote u).trans (if_neg fun hsame => ?_)
    exact hname.1 (List.length_eq_zero_iff.mp (length_of_lower hname.2 hnil hsame.1).symm)
  | cons c x =>
    have hrest : '"' :: (a.value ++ ['"']) = x ++ y := (List.cons.inj hxy).2
    have hequals : '=' ∉ y := fun hmem =>
      h.notMem_quoted (hrest ▸ List.mem_append_right x hmem)
    exact givenTo?_of_calm hname.2 (hu.append_left hequals)

theorem attributeValue?_write (h : a.Quoted) (hname : name ≠ [] ∧ IsName name) (hu : Calm u) :
    attributeValue? name (a.write ++ u) =
      if a.Answers name then some a.value else attributeValue? name u := by
  rw [attributeValue?_eq, write_append, Text.firstMatch?_append_of_none]
  · split_ifs with hanswers
    · exact firstMatch?_answers h hname hanswers u
    · exact firstMatch?_not_answers h hname hanswers hu
  · exact fun x y hxy hy => givenTo?_of_calm hname.2 (h.calm_behind hxy hy _)

end Attribute

namespace Attributes

/-- The value of the first attribute that answers to a name. -/
def answer (attributes : Attributes) (name : Text) : Option Text :=
  (attributes.items.find? fun a => a.Answers name).map Attribute.value

/-- The value of the attribute of a name, letter case ignored. -/
def valueOf (attributes : Attributes) (name : Text) : Option Text :=
  (attributes.items.find? fun a => Text.lower a.name = Text.lower name).map Attribute.value

theorem attributeValue?_write (h : attributes.Quoted) (hname : name ≠ [] ∧ IsName name) :
    attributeValue? name attributes.write = attributes.answer name := by
  obtain ⟨items, trailing⟩ := attributes
  induction items with
  | nil =>
    refine Text.firstMatch?_eq_none_iff.mpr fun behind hbehind => ?_
    have hequals : '=' ∉ behind := fun hmem => h.notMem_trailing (hbehind.subset hmem)
    exact givenTo?_of_calm hname.2 (calm_of_notMem hequals)
  | cons item items ih =>
    have hrest : Quoted ⟨items, trailing⟩ :=
      ⟨fun item' hitem => h.items item' (List.mem_cons_of_mem item hitem), h.trailing⟩
    have hwrite : (⟨item :: items, trailing⟩ : Attributes).write =
        item.write ++ (⟨items, trailing⟩ : Attributes).write := by
      simp [write]
    have hcalm : Calm (⟨items, trailing⟩ : Attributes).write := by
      simpa using hrest.calm calm_nil
    rw [hwrite, Attribute.attributeValue?_write (h.items item List.mem_cons_self) hname hcalm,
      ih hrest, answer, answer]
    by_cases hanswers : item.Answers name
    · rw [if_pos hanswers, List.find?_cons_of_pos (by simpa using hanswers), Option.map_some]
    · rw [if_neg hanswers, List.find?_cons_of_neg (by simpa using hanswers)]

theorem Quoted.no_brace (h : attributes.Quoted) : '\x7b' ∉ attributes.write := by
  have hblank : ∀ t : Text, allBlank t = true → '\x7b' ∉ t := fun t ht hmem =>
    absurd (List.all_eq_true.mp ht '\x7b' hmem) (by decide)
  simp only [write, List.mem_append, List.mem_flatMap, not_or, not_exists, not_and]
  refine ⟨fun a ha => ?_, hblank _ h.trailing⟩
  have hquoted := h.items a ha
  simp only [Attribute.write, List.mem_append, List.mem_cons, List.not_mem_nil, or_false, not_or]
  exact ⟨hblank _ hquoted.gap.2, fun hmem => absurd (hquoted.name.2 '\x7b' hmem) (by decide),
    by decide, by decide, fun hmem => hquoted.value '\x7b' hmem (by decide), by decide⟩

/-- Without braces no class is given by an expression. -/
theorem classExpression?_of_notMem (h : '\x7b' ∉ t) : classExpression? t = none := by
  refine Text.firstMatch?_eq_none_iff.mpr fun behind hbehind => ?_
  cases hname : afterName? "className".toList behind with
  | none => rfl
  | some after =>
    obtain ⟨w, rfl, -⟩ := afterName?_eq_some_iff.mp hname
    cases hequals : afterEquals? after with
    | none => simp [hequals]
    | some rest =>
      obtain ⟨blanks, more, rfl, -, rfl⟩ := exists_of_afterEquals? hequals
      simp only [hequals, Option.bind_eq_bind, Option.bind_some]
      split
      · next inside heq =>
        have hstrip : '\x7b' ∈ Text.stripLeft more := by
          rw [heq]
          exact List.mem_cons_self
        have hmore : '\x7b' ∈ more := (List.dropWhile_suffix isBlank).subset hstrip
        refine absurd (hbehind.subset ?_) h
        simp [hmore]
      · rfl

/-- The words of a value, none where there is no value. -/
def wordsOf (value : Option Text) : List Text := value.elim [] Text.words

/-- An element has the id and the classes of the attributes that answer to `id`, `class` and
`className`. -/
theorem ofAttributes_write (h : attributes.Quoted) (name : Text) (position : Nat) :
    Tag.ofAttributes name attributes.write position =
      ⟨name, attributes.answer "id".toList, wordsOf (attributes.answer "class".toList) ++
        wordsOf (attributes.answer "className".toList), position⟩ := by
  rw [Tag.ofAttributes, attributeValue?_write h (by decide), attributeValue?_write h (by decide),
    attributeValue?_write h (by decide), classExpression?_of_notMem h.no_brace, Option.elim_none,
    List.append_nil]
  rfl

/-! ### The right attribute -/

/-- No two names are the same, letter case ignored. -/
def Distinct (attributes : Attributes) : Prop :=
  (attributes.items.map fun a => Text.lower a.name).Nodup

instance : DecidablePred Distinct := fun attributes =>
  inferInstanceAs (Decidable (attributes.items.map fun a => Text.lower a.name).Nodup)

/-- Of distinct attributes the one of a name answers to it unless it is empty, if no other does. -/
theorem answer_eq (hdistinct : attributes.Distinct)
    (honly : ∀ a ∈ attributes.items, a.Answers name → Text.lower a.name = Text.lower name) :
    attributes.answer name = (attributes.valueOf name).filter (· ≠ []) := by
  obtain ⟨items, trailing⟩ := attributes
  induction items with
  | nil => rfl
  | cons item items ih =>
    obtain ⟨hitem, hitems⟩ := List.nodup_cons.mp hdistinct
    obtain ⟨hanswers, honly⟩ := List.forall_mem_cons.mp honly
    by_cases hname : Text.lower item.name = Text.lower name
    · have hvalue : (⟨item :: items, trailing⟩ : Attributes).valueOf name = some item.value := by
        rw [valueOf, List.find?_cons_of_pos (by simpa using hname), Option.map_some]
      rw [hvalue]
      by_cases hempty : item.value = []
      · -- Another that answers would have the same name.
        have hnone : ∀ a ∈ item :: items, ¬ a.Answers name := by
          rw [List.forall_mem_cons]
          refine ⟨fun hanswers => hanswers.2 hempty, fun a ha hanswers => hitem ?_⟩
          exact List.mem_map.mpr ⟨a, ha, (honly a ha hanswers).trans hname.symm⟩
        have hfind : (item :: items).find? (fun a => a.Answers name) = none :=
          List.find?_eq_none.mpr fun a ha => by simpa using hnone a ha
        rw [answer, hfind, hempty]
        rfl
      · have hself : item.Answers name := ⟨hname ▸ List.suffix_refl _, hempty⟩
        rw [answer, List.find?_cons_of_pos (by simpa using hself), Option.map_some]
        simp [Option.filter, hempty]
    · have hnot : ¬ item.Answers name := fun h => hname (hanswers h)
      have hrest := ih hitems honly
      rw [answer, valueOf] at hrest ⊢
      rw [List.find?_cons_of_neg (by simpa using hnot),
        List.find?_cons_of_neg (by simpa using hname)]
      exact hrest

theorem wordsOf_filter (value : Option Text) : wordsOf (value.filter (· ≠ [])) = wordsOf value := by
  cases value with
  | none => rfl
  | some value =>
    cases value with
    | nil => rfl
    | cons c t => rfl

/-- The names that an id and classes are looked for under. -/
def identifying : List Text := ["id".toList, "class".toList, "className".toList]

/-- From the text of attributes the id and the classes are read of the first attribute that has a
value and whose name ends as the one looked for. That is the attribute of this name, an empty id
being none, if the names are distinct and no other attribute that has a value ends so. -/
theorem identity_of_attributes (h : attributes.Quoted) (name : Text) (position : Nat) :
    Tag.ofAttributes name attributes.write position =
      ⟨name, attributes.answer "id".toList, wordsOf (attributes.answer "class".toList) ++
        wordsOf (attributes.answer "className".toList), position⟩ ∧
    (attributes.Distinct →
      (∀ a ∈ attributes.items, ∀ n ∈ identifying, a.Answers n → Text.lower a.name = Text.lower n) →
      Tag.ofAttributes name attributes.write position =
        ⟨name, (attributes.valueOf "id".toList).filter (· ≠ []),
          wordsOf (attributes.valueOf "class".toList) ++
            wordsOf (attributes.valueOf "className".toList), position⟩) := by
  refine ⟨ofAttributes_write h name position, fun hdistinct honly => ?_⟩
  have hanswer : ∀ n ∈ identifying, attributes.answer n =
      (attributes.valueOf n).filter (· ≠ []) := fun n hn =>
    answer_eq hdistinct fun a ha => honly a ha n hn
  rw [ofAttributes_write h, hanswer _ (by decide), hanswer _ (by decide), hanswer _ (by decide),
    wordsOf_filter, wordsOf_filter]

/-- A card with an id and classes. -/
def card : Attributes :=
  ⟨[⟨" ".toList, "ID".toList, "main".toList⟩, ⟨" ".toList, "className".toList, "wide".toList⟩,
    ⟨"\n".toList, "class".toList, "a  b".toList⟩], []⟩

/-- The same card with an attribute whose name ends in `id` before the id. -/
def numberedCard : Attributes :=
  ⟨⟨" ".toList, "data-id".toList, "7".toList⟩ :: card.items, []⟩

/-- The id of the card is read, that of the numbered one is not: it has its number for an id. -/
theorem identity_of_attributes_card :
    (card.Quoted ∧ card.Distinct ∧
      Tag.ofAttributes "div".toList card.write 0 =
        ⟨"div".toList, some "main".toList, ["a".toList, "b".toList, "wide".toList], 0⟩) ∧
    numberedCard.Quoted ∧ numberedCard.Distinct ∧
      (Tag.ofAttributes "div".toList numberedCard.write 0).id = some "7".toList := by
  have hcard : card.Quoted := by decide
  have hnumbered : numberedCard.Quoted := by decide
  refine ⟨⟨hcard, by decide, ?_⟩, hnumbered, by decide, ?_⟩
  · rw [(identity_of_attributes hcard "div".toList 0).2 (by decide) (by decide)]
    decide
  · rw [(identity_of_attributes hnumbered "div".toList 0).1]
    decide

end Attributes

end Localize.Markup
