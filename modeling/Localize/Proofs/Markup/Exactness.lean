import Localize.Proofs.Markup.Plain
import Localize.Proofs.Markup.Spelling

/-!
# The strings of plain markup

From plain markup exactly the texts between its tags and the values of its visible attributes are
extracted, trimmed and decoded, as far as they are to be translated. The search for attributes looks
at every place of the document, so it has to be seen that a name is read only where the name of an
attribute begins: everywhere else the next equals sign has another name before it.
-/

namespace Localize.Markup

open Text (isBlank isNameChar allBlank readings)

variable {attributes : Attributes} {a : Attribute} {u : Text}

/-! ### Attributes in quotes -/

/-- The characters that neither a value nor what surrounds it holds. -/
def delimiters : List Char := ['"', '\x27', '=', '\x7b', '\x7d']

/-- A name behind blanks, with a value that can be told from what follows. -/
structure Attribute.Quoted (a : Attribute) : Prop where
  gap : a.gap ≠ [] ∧ allBlank a.gap = true
  name : a.name ≠ [] ∧ IsName a.name
  value : ∀ c ∈ a.value, c ∉ delimiters

structure Attributes.Quoted (attributes : Attributes) : Prop where
  items : ∀ a ∈ attributes.items, a.Quoted
  trailing : allBlank attributes.trailing = true

theorem mark_of_mem_delimiters {c : Char} (h : c ∈ delimiters) : c ∈ marks := by
  have hall : (delimiters.all fun d => marks.contains d) = true := by decide
  exact List.contains_iff_mem.mp (List.all_eq_true.mp hall c h)

theorem Attribute.Plain.quoted (h : a.Plain) : a.Quoted :=
  ⟨h.gap, h.name, fun c hc hmem => h.value c hc (mark_of_mem_delimiters hmem)⟩

theorem Attributes.Plain.quoted (h : attributes.Plain) : attributes.Quoted :=
  ⟨fun a ha => (h.items a ha).quoted, h.trailing⟩

theorem calm_gap {gap : Text} (hne : gap ≠ []) (hgap : allBlank gap = true) {name : Text}
    (hname : name ≠ [] ∧ IsName name) (behind : Text) : Calm (gap ++ (name ++ '=' :: behind)) := by
  rcases List.eq_nil_or_concat gap with rfl | ⟨front, c, rfl⟩
  · exact absurd rfl hne
  · rw [List.concat_eq_append] at hgap ⊢
    have hblank : ∀ d ∈ front ++ [c], isBlank d = true := List.all_eq_true.mp hgap
    rw [List.append_assoc]
    refine (calm_name (hblank c (by simp)) hname.1 hname.2 behind).append_left fun hmem => ?_
    exact absurd (hblank '=' (List.mem_append_left _ hmem)) (by decide)

namespace Attribute

theorem write_append (a : Attribute) (u : Text) :
    a.write ++ u = a.gap ++ (a.name ++ '=' :: '"' :: (a.value ++ '"' :: u)) := by
  simp [write]

/-- Every place in the blanks before an attribute is calm. -/
theorem Quoted.calm_behind (h : a.Quoted) {x y : Text} (hxy : a.gap = x ++ y) (hy : y ≠ [])
    (behind : Text) : Calm (y ++ (a.name ++ '=' :: behind)) := by
  refine calm_gap hy (List.all_eq_true.mpr fun c hc => ?_) h.name behind
  exact List.all_eq_true.mp h.gap.2 c (hxy ▸ List.mem_append_right x hc)

theorem Quoted.calm (h : a.Quoted) (u : Text) : Calm (a.write ++ u) := by
  rw [write_append]
  exact h.calm_behind (List.nil_append _).symm h.gap.1 _

theorem Quoted.not_isQuote (h : a.Quoted) : ∀ c ∈ a.value, isQuote c = false := by
  intro c hc
  rw [Bool.eq_false_iff]
  intro hquote
  rw [isQuote, Bool.or_eq_true, decide_eq_true_eq, decide_eq_true_eq] at hquote
  refine h.value c hc ?_
  rcases hquote with rfl | rfl
  · decide
  · decide

/-- No equals sign stands from the first quote on. -/
theorem Quoted.notMem_quoted (h : a.Quoted) : '=' ∉ '"' :: (a.value ++ ['"']) := by
  simp only [List.mem_cons, List.mem_append, List.not_mem_nil, or_false, not_or]
  exact ⟨by decide, fun hmem => h.value '=' hmem (by decide), by decide⟩

end Attribute

namespace Attributes

theorem Quoted.notMem_trailing (h : attributes.Quoted) : '=' ∉ attributes.trailing := fun hmem =>
  absurd (List.all_eq_true.mp h.trailing '=' hmem) (by decide)

theorem Quoted.calm (h : attributes.Quoted) (hu : Calm u) : Calm (attributes.write ++ u) := by
  rw [write, List.append_assoc]
  cases hitems : attributes.items with
  | nil =>
    rw [List.flatMap_nil, List.nil_append]
    exact hu.append_left h.notMem_trailing
  | cons item items =>
    rw [List.flatMap_cons, List.append_assoc]
    exact (h.items item (by simp [hitems])).calm _

end Attributes

/-! ### The values that are read -/

/-- The search for the attributes a user sees when no others are named. -/
def visible? : Text → Option (WrittenAttribute × Nat) :=
  visibleAttribute? (namePatterns defaultVisibleAttributes)

/-- Before a calm place nothing is read without an equals sign. -/
theorem readings_visible?_of_calm {t : Text} (ht : '=' ∉ t) (hu : Calm u) :
    readings visible? (t ++ u) = readings visible? u := by
  refine Text.readings_append_of_none fun x y hxy _ => ?_
  have hy : '=' ∉ y := fun hmem => ht (hxy ▸ List.mem_append_right x hmem)
  exact visibleAttribute?_of_calm (hu.append_left hy)

namespace Attribute

/-- Nothing is read in the blanks before an attribute. -/
theorem readings_gap (h : a.Plain) (u : Text) : readings visible? (a.write ++ u) =
    readings visible? (a.name ++ '=' :: '"' :: (a.value ++ '"' :: u)) := by
  rw [write_append]
  exact Text.readings_append_of_none fun x y hxy hy =>
    visibleAttribute?_of_calm (h.quoted.calm_behind hxy hy _)

theorem readings_seen (h : a.Plain)
    (hseen : Text.lower a.name ∈ defaultVisibleAttributes ∧ a.value ≠ []) (u : Text) :
    readings visible? (a.name ++ '=' :: '"' :: (a.value ++ '"' :: u)) =
      ⟨a.name, a.value⟩ :: readings visible? u := by
  have hread : visible? (a.name ++ '=' :: '"' :: (a.value ++ '"' :: u)) =
      some (⟨a.name, a.value⟩, (a.name ++ '=' :: '"' :: (a.value ++ ['"'])).length) :=
    (visibleAttribute?_name h.name.2 h.quoted.not_isQuote u).trans (if_pos hseen)
  have hsplit : a.name ++ '=' :: '"' :: (a.value ++ '"' :: u) =
      (a.name ++ '=' :: '"' :: (a.value ++ ['"'])) ++ u := by
    simp
  rw [hsplit] at hread ⊢
  rw [Text.readings_append_of_some (by simp) hread]

theorem readings_unseen (h : a.Plain)
    (hunseen : ¬ (Text.lower a.name ∈ defaultVisibleAttributes ∧ a.value ≠ [])) (hu : Calm u) :
    readings visible? (a.name ++ '=' :: '"' :: (a.value ++ '"' :: u)) = readings visible? u := by
  -- No end of the name is one that is looked for, since the whole name would have to be it.
  have hname : readings visible? (a.name ++ '=' :: '"' :: (a.value ++ '"' :: u)) =
      readings visible? ('=' :: '"' :: (a.value ++ '"' :: u)) := by
    refine Text.readings_append_of_none fun x y hxy _ => ?_
    have hy : IsName y := fun c hc => h.name.2 c (hxy ▸ List.mem_append_right x hc)
    refine (visibleAttribute?_name hy h.quoted.not_isQuote u).trans
      (if_neg fun hy' => hunseen ⟨?_, hy'.2⟩)
    have hsuffix : Text.lower y <:+ Text.lower a.name := by
      rw [lower_of_name hy, lower_of_name h.name.2, hxy, List.map_append]
      exact List.suffix_append _ _
    rw [h.whole _ hy'.1 hsuffix]
    exact hy'.1
  have hequals : visible? ('=' :: '"' :: (a.value ++ '"' :: u)) = none :=
    (visibleAttribute?_name (fun _ hc => absurd hc List.not_mem_nil) h.quoted.not_isQuote u).trans
      (if_neg fun hnil => absurd hnil.1 (by decide))
  have hrest : '"' :: (a.value ++ '"' :: u) = '"' :: (a.value ++ ['"']) ++ u := by
    simp
  rw [hname, Text.readings_cons_of_none hequals, hrest,
    readings_visible?_of_calm h.quoted.notMem_quoted hu]

/-- From an attribute its value is read if a user sees it and it is not empty. -/
theorem readings_write (h : a.Plain) (hu : Calm u) :
    (readings visible? (a.write ++ u)).map WrittenAttribute.value =
      (if Text.lower a.name ∈ defaultVisibleAttributes ∧ a.value ≠ [] then [a.value] else []) ++
        (readings visible? u).map WrittenAttribute.value := by
  rw [readings_gap h]
  by_cases hseen : Text.lower a.name ∈ defaultVisibleAttributes ∧ a.value ≠ []
  · rw [readings_seen h hseen, if_pos hseen]
    rfl
  · rw [readings_unseen h hseen hu, if_neg hseen, List.nil_append]

end Attribute

namespace Attributes

theorem readings_write (h : attributes.Plain) (hu : Calm u) :
    (readings visible? (attributes.write ++ u)).map WrittenAttribute.value =
      attributes.visibleValues.filter (· ≠ []) ++
        (readings visible? u).map WrittenAttribute.value := by
  obtain ⟨items, trailing⟩ := attributes
  induction items with
  | nil =>
    rw [write, List.flatMap_nil, List.nil_append,
      readings_visible?_of_calm h.quoted.notMem_trailing hu]
    rfl
  | cons item items ih =>
    have hrest : Plain ⟨items, trailing⟩ :=
      ⟨fun item' hitem => h.items item' (List.mem_cons_of_mem item hitem), h.trailing⟩
    have hwrite : (⟨item :: items, trailing⟩ : Attributes).write ++ u =
        item.write ++ ((⟨items, trailing⟩ : Attributes).write ++ u) := by
      simp [write]
    rw [hwrite, Attribute.readings_write (h.items item List.mem_cons_self) (hrest.quoted.calm hu),
      ih hrest, ← List.append_assoc]
    congr 1
    by_cases hname : Text.lower item.name ∈ defaultVisibleAttributes
    · by_cases hvalue : item.value = []
      · simp [visibleValues, hname, hvalue]
      · simp [visibleValues, hname, hvalue]
    · simp [visibleValues, hname]

end Attributes

namespace Forest

variable {f : Forest Attributes} {name : Text}

theorem notMem_name (hname : IsName name) : '=' ∉ '<' :: name ∧ '=' ∉ closingTag name := by
  have hequals : '=' ∉ name := fun hmem => absurd (hname '=' hmem) (by decide)
  constructor
  · simp [hequals]
  · simp [closingTag, hequals]

/-- A tag is written from its name on with its attributes and an end. -/
theorem readings_tag (hname : IsName name) (h : attributes.Plain) {ending : Text}
    (hending : '=' ∉ ending) (hu : Calm u) :
    Calm ('<' :: name ++ (attributes.write ++ (ending ++ u))) ∧
      (readings visible? ('<' :: name ++ (attributes.write ++ (ending ++ u)))).map
        WrittenAttribute.value =
      attributes.visibleValues.filter (· ≠ []) ++
        (readings visible? u).map WrittenAttribute.value := by
  have hcalm := h.quoted.calm (hu.append_left hending)
  refine ⟨hcalm.append_left (notMem_name hname).1, ?_⟩
  rw [readings_visible?_of_calm (notMem_name hname).1 hcalm,
    Attributes.readings_write h (hu.append_left hending), readings_visible?_of_calm hending hu]

/-- From a document the values of the attributes a user sees are read, as far as they are not
empty. -/
theorem readings_visible? (hf : f.Plain) (hu : Calm u) :
    Calm (f.render Attributes.write ++ u) ∧
      (readings visible? (f.render Attributes.write ++ u)).map WrittenAttribute.value =
        f.visibleValues.filter (· ≠ []) ++ (readings visible? u).map WrittenAttribute.value := by
  induction f generalizing u with
  | nil => exact ⟨hu, rfl⟩
  | text t rest ih =>
    obtain ⟨hcalm, hread⟩ := ih hf.2 hu
    have ht : '=' ∉ t := fun hmem => hf.1.1 '=' hmem (by decide)
    rw [render, List.append_assoc]
    refine ⟨hcalm.append_left ht, ?_⟩
    rw [readings_visible?_of_calm ht hcalm, hread]
    rfl
  | element name attributes inside rest ihInside ihRest =>
    obtain ⟨⟨hname, hattributes⟩, hinside, hrest⟩ := hf
    obtain ⟨hcalmRest, hreadRest⟩ := ihRest hrest hu
    have hclosing := (notMem_name hname).2
    obtain ⟨hcalm, hread⟩ := ihInside hinside (hcalmRest.append_left hclosing)
    have hending : '=' ∉ ['>'] := by decide
    obtain ⟨hcalmTag, hreadTag⟩ := readings_tag hname hattributes hending hcalm
    have hwrite : (element name attributes inside rest).render Attributes.write ++ u =
        '<' :: name ++ (attributes.write ++ (['>'] ++ (inside.render Attributes.write ++
          (closingTag name ++ (rest.render Attributes.write ++ u))))) := by
      simp [render, openingTag]
    rw [hwrite]
    refine ⟨hcalmTag, ?_⟩
    rw [hreadTag, hread, readings_visible?_of_calm hclosing hcalmRest, hreadRest, visibleValues,
      List.filter_append, List.filter_append, List.append_assoc, List.append_assoc]
  | single name attributes rest ih =>
    obtain ⟨⟨hname, hattributes⟩, hrest⟩ := hf
    obtain ⟨hcalm, hread⟩ := ih hrest hu
    have hending : '=' ∉ ['/', '>'] := by decide
    obtain ⟨hcalmTag, hreadTag⟩ := readings_tag hname hattributes hending hcalm
    have hwrite : (single name attributes rest).render Attributes.write ++ u =
        '<' :: name ++ (attributes.write ++ (['/', '>'] ++ (rest.render Attributes.write ++ u))) := by
      simp [render, openingTag]
    rw [hwrite]
    refine ⟨hcalmTag, ?_⟩
    rw [hreadTag, hread, visibleValues, List.filter_append, List.append_assoc]

end Forest

/-! ### The strings -/

/-- Without rules no place is excluded. -/
theorem visibleMatches_ofDocument {α : Type} (matcher : Text → Option (α × Nat))
    (document code : Text) :
    visibleMatches (.ofDocument document (rulesOf [])) matcher code = readings matcher code := by
  have hnone : ∀ p, (Exclusion.ofDocument document (rulesOf [])).excludes p = false := fun _ => rfl
  simp only [visibleMatches, hnone, Bool.not_false, List.filter_true]
  rfl

theorem mem_trimmed {texts : List Text} {t : Text} :
    t ∈ trimmed texts ↔ ∃ x ∈ texts, Text.strip x = t ∧ t ≠ [] := by
  rw [trimmed, List.mem_filter, List.mem_map]
  constructor
  · rintro ⟨⟨x, hx, rfl⟩, hne⟩
    exact ⟨x, hx, rfl, by simpa using hne⟩
  · rintro ⟨x, hx, rfl, hne⟩
    exact ⟨⟨x, hx, rfl⟩, by simpa using hne⟩

/-- A text that is to be translated has something in it before it is decoded, and before it is
trimmed. -/
theorem ne_nil_of_isTranslatable {x : Text}
    (h : isTranslatable (decodeEntities (Text.strip x)) = true) : Text.strip x ≠ [] ∧ x ≠ [] := by
  have hstrip : Text.strip x ≠ [] := by
    intro hnil
    rw [hnil] at h
    exact absurd h (by decide)
  refine ⟨hstrip, ?_⟩
  rintro rfl
  exact hstrip rfl

namespace Forest

variable {f : Forest Attributes}

theorem textRuns_render (hf : f.Plain) (htop : f.Elements) (document : Text) :
    textRuns (.ofDocument document (rulesOf [])) (f.render Attributes.write) =
      trimmed (f.texts.filter (· ≠ [])) := by
  rw [textRuns, visibleMatches_ofDocument, readings_render hf htop]

theorem literalStrings_render (hf : f.Plain) (document : Text) :
    literalStrings (.ofDocument document (rulesOf [])) (f.render Attributes.write) = [] := by
  rw [literalStrings, visibleMatches_ofDocument, readings_expression? (no_brace_in_render hf)]
  rfl

theorem attributeStrings_render (hf : f.Plain) (document : Text) :
    attributeStrings (.ofDocument document (rulesOf [])) defaultVisibleAttributes
      (f.render Attributes.write) = trimmed (f.visibleValues.filter (· ≠ [])) := by
  have hread := (readings_visible? hf calm_nil).2
  rw [List.append_nil, Text.readings_nil rfl, List.map_nil, List.append_nil] at hread
  rw [attributeStrings, if_neg (by decide), visibleMatches_ofDocument]
  exact congrArg trimmed hread

/-- The strings of plain markup are exactly its texts and the values of its visible attributes,
trimmed and decoded, that are to be translated. -/
theorem mem_extract_render (hf : f.Plain) (htop : f.Elements) {t : Text} :
    t ∈ extract (f.render Attributes.write) none [] ↔
      (∃ x, (x ∈ f.texts ∨ x ∈ f.visibleValues) ∧ decodeEntities (Text.strip x) = t) ∧
        isTranslatable t = true := by
  have hcode := stripComments_of_uncommented (uncommented_render hf)
  have hstrings : t ∈ extract (f.render Attributes.write) none [] ↔
      (∃ y ∈ trimmed (f.texts.filter (· ≠ [])) ++ trimmed (f.visibleValues.filter (· ≠ [])),
        decodeEntities y = t) ∧ isTranslatable t = true := by
    rw [extract, hcode, Option.getD_none, textRuns_render hf htop, literalStrings_render hf,
      attributeStrings_render hf, List.append_nil, Text.mem_sortedSet, List.mem_filter,
      List.mem_map]
  rw [hstrings]
  constructor
  · rintro ⟨⟨y, hy, rfl⟩, htranslatable⟩
    refine ⟨?_, htranslatable⟩
    rcases List.mem_append.mp hy with hy | hy
    · obtain ⟨x, hx, rfl, -⟩ := mem_trimmed.mp hy
      exact ⟨x, .inl (List.mem_filter.mp hx).1, rfl⟩
    · obtain ⟨x, hx, rfl, -⟩ := mem_trimmed.mp hy
      exact ⟨x, .inr (List.mem_filter.mp hx).1, rfl⟩
  · rintro ⟨⟨x, hx, rfl⟩, htranslatable⟩
    obtain ⟨hstrip, hne⟩ := ne_nil_of_isTranslatable htranslatable
    refine ⟨⟨Text.strip x, ?_, rfl⟩, htranslatable⟩
    rcases hx with hx | hx
    · exact List.mem_append_left _
        (mem_trimmed.mpr ⟨x, List.mem_filter.mpr ⟨hx, by simpa using hne⟩, rfl, hstrip⟩)
    · exact List.mem_append_right _
        (mem_trimmed.mpr ⟨x, List.mem_filter.mpr ⟨hx, by simpa using hne⟩, rfl, hstrip⟩)

end Forest

/-- A link with a picture between two texts. -/
def linkPage : Forest Attributes :=
  .element "a".toList ⟨[⟨" ".toList, "TITLE".toList, "Home ".toList⟩,
      ⟨"\n".toList, "data-x".toList, "1".toList⟩], []⟩
    (.text " Back &lt;&nbsp;".toList
      (.single "img".toList ⟨[⟨" ".toList, "alt".toList, "Logo".toList⟩], " ".toList⟩
        (.element "b".toList ⟨[], []⟩ (.text "now".toList .nil) (.text ";".toList .nil)))) .nil

/-- A text is decoded after it is trimmed, the semicolon is no string, and the value of an attribute
that no user sees is left out. -/
theorem mem_extract_render_linkPage :
    "Back < ".toList ∈ extract (linkPage.render Attributes.write) none [] ∧
      "Home".toList ∈ extract (linkPage.render Attributes.write) none [] ∧
      ";".toList ∉ extract (linkPage.render Attributes.write) none [] ∧
      "1".toList ∉ extract (linkPage.render Attributes.write) none [] := by
  have hlink : Attributes.Plain ⟨[⟨" ".toList, "TITLE".toList, "Home ".toList⟩,
      ⟨"\n".toList, "data-x".toList, "1".toList⟩], []⟩ := by
    refine ⟨fun item hitem => ?_, rfl⟩
    rcases List.mem_cons.mp hitem with rfl | hitem
    · exact ⟨by decide, by decide, by decide, by decide⟩
    · rw [List.mem_singleton.mp hitem]
      exact ⟨by decide, by decide, by decide, by decide⟩
  have hpicture : Attributes.Plain ⟨[⟨" ".toList, "alt".toList, "Logo".toList⟩], " ".toList⟩ := by
    refine ⟨fun item hitem => ?_, rfl⟩
    rw [List.mem_singleton.mp hitem]
    exact ⟨by decide, by decide, by decide, by decide⟩
  have hf : linkPage.Plain :=
    ⟨⟨by decide, hlink⟩, ⟨⟨by decide, not_false⟩, ⟨by decide, hpicture⟩,
      ⟨by decide, nofun, rfl⟩, ⟨⟨by decide, not_false⟩, trivial⟩, ⟨by decide, not_false⟩, trivial⟩,
      trivial⟩
  have hmem : ∀ t, t ∈ extract (linkPage.render Attributes.write) none [] ↔
      (∃ x, (x ∈ linkPage.texts ∨ x ∈ linkPage.visibleValues) ∧
        decodeEntities (Text.strip x) = t) ∧ isTranslatable t = true := fun _ =>
    Forest.mem_extract_render hf trivial
  have hvalues : ∀ x, x ∈ linkPage.texts ∨ x ∈ linkPage.visibleValues →
      decodeEntities (Text.strip x) ≠ "1".toList := by
    have hall : ∀ x ∈ linkPage.texts ++ linkPage.visibleValues,
        decodeEntities (Text.strip x) ≠ "1".toList := by
      decide +kernel
    exact fun x hx => hall x (List.mem_append.mpr hx)
  refine ⟨(hmem _).mpr ⟨⟨" Back &lt;&nbsp;".toList, .inl ?_, ?_⟩, ?_⟩,
    (hmem _).mpr ⟨⟨"Home ".toList, .inr ?_, ?_⟩, ?_⟩, fun h => ?_, fun h => ?_⟩
  · decide
  · decide +kernel
  · decide
  · decide +kernel
  · decide +kernel
  · decide
  · exact absurd ((hmem _).mp h).2 (by decide)
  · obtain ⟨⟨x, hx, hone⟩, -⟩ := (hmem _).mp h
    exact hvalues x hx hone

end Localize.Markup
