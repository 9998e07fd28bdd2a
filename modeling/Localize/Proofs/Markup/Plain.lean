import Localize.Markup.Extraction
import Localize.Proofs.Markup.Forest
import Localize.Proofs.Text.Erasing

/-!
# Plain markup

Plain markup is the document of a forest whose texts and values hold none of the characters that
mark something up, with attributes in double quotes. No comment and no expression begins in it, and
the texts between its tags are the texts of the forest: a match takes the beginning of the next tag
with it, and what follows is found all the same, since no tag ends where a text does.
-/

namespace Localize.Markup

open Text (isBlank isNameChar allBlank readings)

/-- An attribute with the blanks before it. -/
structure Attribute where
  gap : Text
  name : Text
  value : Text

/-- The attributes of a tag and the blanks behind them. -/
structure Attributes where
  items : List Attribute
  trailing : Text

def Attribute.write (a : Attribute) : Text := a.gap ++ (a.name ++ '=' :: '"' :: (a.value ++ ['"']))

def Attributes.write (a : Attributes) : Text := a.items.flatMap Attribute.write ++ a.trailing

/-- The characters that mark something up. -/
def marks : List Char := ['<', '>', '\x7b', '\x7d', '/', '"', '\x27', '=']

def IsPlain (t : Text) : Prop := ∀ c ∈ t, c ∉ marks

def IsName (t : Text) : Prop := ∀ c ∈ t, isNameChar c = true

instance : DecidablePred IsPlain := fun t =>
  decidable_of_iff (t.all (fun c => !marks.contains c) = true) (by simp [IsPlain])

instance : DecidablePred IsName := fun t =>
  decidable_of_iff (t.all isNameChar = true) (by simp [IsName])

/-- A name with a plain value behind a blank. A name that ends as a visible one is that one. -/
structure Attribute.Plain (a : Attribute) : Prop where
  gap : a.gap ≠ [] ∧ allBlank a.gap = true
  name : a.name ≠ [] ∧ IsName a.name
  value : IsPlain a.value
  whole : ∀ visible ∈ defaultVisibleAttributes,
    visible <:+ Text.lower a.name → Text.lower a.name = visible

structure Attributes.Plain (a : Attributes) : Prop where
  items : ∀ item ∈ a.items, item.Plain
  trailing : allBlank a.trailing = true

/-- The values of the attributes a user sees. -/
def Attributes.visibleValues (a : Attributes) : List Text :=
  (a.items.filter fun item => Text.lower item.name ∈ defaultVisibleAttributes).map Attribute.value

namespace Forest

def StartsWithText {α : Type} : Forest α → Prop
  | text _ _ => True
  | _ => False

/-- Names, plain texts and values, and no two texts side by side. -/
def Plain : Forest Attributes → Prop
  | nil => True
  | text t rest => (IsPlain t ∧ ¬ rest.StartsWithText) ∧ Plain rest
  | element name attributes inside rest =>
    (IsName name ∧ attributes.Plain) ∧ Plain inside ∧ Plain rest
  | single name attributes rest => (IsName name ∧ attributes.Plain) ∧ Plain rest

/-- No text stands outside of all elements. -/
def Elements {α : Type} : Forest α → Prop
  | nil => True
  | text _ _ => False
  | element _ _ _ rest => Elements rest
  | single _ _ rest => Elements rest

/-- All texts, at any depth. -/
def texts {α : Type} : Forest α → List Text
  | nil => []
  | text t rest => t :: texts rest
  | element _ _ inside rest => texts inside ++ texts rest
  | single _ _ rest => texts rest

/-- The values of all attributes a user sees, at any depth. -/
def visibleValues : Forest Attributes → List Text
  | nil => []
  | text _ rest => visibleValues rest
  | element _ attributes inside rest =>
    attributes.visibleValues ++ (visibleValues inside ++ visibleValues rest)
  | single _ attributes rest => attributes.visibleValues ++ visibleValues rest

end Forest

/-! ### The characters of plain markup -/

variable {name : Text} {attributes : Attributes}

theorem not_mark_of_isNameChar {c : Char} (h : isNameChar c = true) : c ∉ marks := by
  have hnone : (marks.all fun d => !isNameChar d) = true := by decide
  intro hmem
  have hnot := List.all_eq_true.mp hnone c hmem
  rw [h] at hnot
  cases hnot

theorem not_mark_of_isBlank {c : Char} (h : isBlank c = true) : c ∉ marks := by
  have hnone : (marks.all fun d => !isBlank d) = true := by decide
  intro hmem
  have hnot := List.all_eq_true.mp hnone c hmem
  rw [h] at hnot
  cases hnot

theorem Attribute.Plain.mark_of_mem {a : Attribute} (h : a.Plain) {c : Char} (hc : c ∈ a.write)
    (hmark : c ∈ marks) : c = '=' ∨ c = '"' := by
  simp only [Attribute.write, List.mem_append, List.mem_cons, List.not_mem_nil, or_false] at hc
  rcases hc with hgap | hname | hequals | hquote | hvalue | hquote
  · exact absurd hmark (not_mark_of_isBlank (List.all_eq_true.mp h.gap.2 c hgap))
  · exact absurd hmark (not_mark_of_isNameChar (h.name.2 c hname))
  · exact .inl hequals
  · exact .inr hquote
  · exact absurd hmark (h.value c hvalue)
  · exact .inr hquote

theorem Attributes.Plain.mark_of_mem (h : attributes.Plain) {c : Char}
    (hc : c ∈ attributes.write) (hmark : c ∈ marks) : c = '=' ∨ c = '"' := by
  rcases List.mem_append.mp hc with hitems | htrailing
  · obtain ⟨item, hitem, hc⟩ := List.mem_flatMap.mp hitems
    exact (h.items item hitem).mark_of_mem hc hmark
  · exact absurd hmark (not_mark_of_isBlank (List.all_eq_true.mp h.trailing c htrailing))

/-- Within a tag there is neither a slash nor a bracket. -/
theorem Attributes.Plain.notMem (h : attributes.Plain) (hname : IsName name) {c : Char}
    (hmark : c ∈ marks) (hequals : c ≠ '=') (hquote : c ≠ '"') : c ∉ name ++ attributes.write := by
  rw [List.mem_append, not_or]
  refine ⟨fun hc => not_mark_of_isNameChar (hname c hc) hmark, fun hc => ?_⟩
  rcases h.mark_of_mem hc hmark with rfl | rfl
  · exact hequals rfl
  · exact hquote rfl

/-! ### Comments and expressions -/

/-- No slash is followed by what would make it a comment, and none is the last character. -/
def Uncommented (t : Text) : Prop :=
  ∀ front behind, t = front ++ '/' :: behind → ∃ c rest, behind = c :: rest ∧ c ≠ '/' ∧ c ≠ '*'

theorem uncommented_of_notMem {t : Text} (h : '/' ∉ t) : Uncommented t := by
  rintro front behind rfl
  exact absurd (List.mem_append_right front List.mem_cons_self) h

theorem Uncommented.append {s t : Text} (hs : Uncommented s) (ht : Uncommented t) :
    Uncommented (s ++ t) := by
  intro front behind heq
  rcases List.append_eq_append_iff.mp heq with ⟨r, rfl, hr⟩ | ⟨r, rfl, hr⟩
  · exact ht r behind hr
  · cases r with
    | nil => exact ht [] behind hr.symm
    | cons d r =>
      obtain ⟨rfl, rfl⟩ := List.cons.inj hr
      obtain ⟨c, rest, rfl, hc⟩ := hs front r rfl
      exact ⟨c, rest ++ t, rfl, hc⟩

theorem Uncommented.cons_slash {c : Char} {t : Text} (h : Uncommented (c :: t)) (hc : c ≠ '/')
    (hstar : c ≠ '*') : Uncommented ('/' :: c :: t) := by
  intro front behind heq
  cases front with
  | nil =>
    obtain ⟨-, rfl⟩ := List.cons.inj heq
    exact ⟨c, t, rfl, hc, hstar⟩
  | cons d front => exact h front behind (List.cons.inj heq).2

/-- Behind a slash of uncommented text stands neither another nor a star. -/
theorem Uncommented.exists_behind {t x y v rest : Text} (h : Uncommented t) (hxy : t = x ++ y)
    (hy : y ≠ []) (heq : y ++ v = '/' :: rest) : ∃ d more, rest = d :: more ∧ d ≠ '/' ∧ d ≠ '*' := by
  obtain ⟨c, y, rfl⟩ := List.exists_cons_of_ne_nil hy
  obtain ⟨rfl, rfl⟩ := List.cons.inj heq
  obtain ⟨d, more, rfl, hd⟩ := h x y hxy
  exact ⟨d, more ++ v, rfl, hd⟩

theorem Uncommented.blockCommentLength_eq {t : Text} (h : Uncommented t) (v : Text) :
    ∀ x y, t = x ++ y → y ≠ [] → blockCommentLength (y ++ v) = 0 := by
  intro x y hxy hy
  unfold blockCommentLength
  split
  · next rest heq =>
    obtain ⟨d, more, hrest, -, hstar⟩ := h.exists_behind hxy hy heq
    exact absurd (List.cons.inj hrest).1.symm hstar
  · rfl

theorem Uncommented.lineCommentLength_eq {t : Text} (h : Uncommented t) (v : Text) :
    ∀ x y, t = x ++ y → y ≠ [] → lineCommentLength (y ++ v) = 0 := by
  intro x y hxy hy
  unfold lineCommentLength
  split
  · next rest heq =>
    obtain ⟨d, more, hrest, hslash, -⟩ := h.exists_behind hxy hy heq
    exact absurd (List.cons.inj hrest).1.symm hslash
  · rfl

/-- Uncommented text stays, whatever stands behind it. -/
theorem stripComments_append {t : Text} (h : Uncommented t) (u : Text) :
    stripComments (t ++ u) = t ++ stripComments u := by
  rw [stripComments, Text.eraseFrom_append_of_zero (h.blockCommentLength_eq u),
    Text.eraseFrom_append_of_zero (h.lineCommentLength_eq _), stripComments]

theorem stripComments_of_uncommented {t : Text} (h : Uncommented t) : stripComments t = t := by
  have hstrip := stripComments_append h []
  rw [List.append_nil] at hstrip
  exact hstrip.trans (List.append_nil t)

theorem uncommented_opening (hname : IsName name) (h : attributes.Plain) :
    Uncommented ('<' :: (name ++ attributes.write)) := by
  apply uncommented_of_notMem
  rw [List.mem_cons, not_or]
  exact ⟨by decide, h.notMem hname (by decide) (by decide) (by decide)⟩

theorem uncommented_closingTag (hname : IsName name) : Uncommented (closingTag name) := by
  have hslash : ∀ c ∈ name ++ ['>'], c ≠ '/' ∧ c ≠ '*' := by
    intro c hc
    rcases List.mem_append.mp hc with hc | hc
    · constructor
      · rintro rfl
        exact absurd (hname '/' hc) (by decide)
      · rintro rfl
        exact absurd (hname '*' hc) (by decide)
    · rw [List.mem_singleton.mp hc]
      decide
  have hrest : Uncommented (name ++ ['>']) :=
    uncommented_of_notMem fun hmem => (hslash '/' hmem).1 rfl
  have hstart : Uncommented ['<'] := uncommented_of_notMem (by decide)
  rw [closingTag]
  cases hrendered : name ++ ['>'] with
  | nil => exact absurd hrendered (by simp)
  | cons c t =>
    have hc := hslash c (by simp [hrendered])
    rw [hrendered] at hrest
    exact hstart.append (hrest.cons_slash hc.1 hc.2)

namespace Forest

theorem uncommented_render {f : Forest Attributes} (hf : f.Plain) :
    Uncommented (f.render Attributes.write) := by
  induction f with
  | nil => exact uncommented_of_notMem List.not_mem_nil
  | text t rest ih =>
    exact (uncommented_of_notMem fun hmem => hf.1.1 '/' hmem (by decide)).append (ih hf.2)
  | element name attributes inside rest ihInside ihRest =>
    obtain ⟨⟨hname, hattributes⟩, hinside, hrest⟩ := hf
    have hend : Uncommented ['>'] := uncommented_of_notMem (by decide)
    have hopening : Uncommented (openingTag name attributes.write) := by
      have happend := (uncommented_opening hname hattributes).append hend
      simpa [openingTag] using happend
    exact hopening.append
      ((ihInside hinside).append ((uncommented_closingTag hname).append (ihRest hrest)))
  | single name attributes rest ih =>
    obtain ⟨⟨hname, hattributes⟩, hrest⟩ := hf
    have hend : Uncommented ['/', '>'] :=
      (uncommented_of_notMem (by decide)).cons_slash (by decide) (by decide)
    have hopening : Uncommented (openingTag name (attributes.write ++ ['/'])) := by
      have happend := (uncommented_opening hname hattributes).append hend
      simpa [openingTag] using happend
    exact hopening.append (ih hrest)

/-- No expression begins in plain markup. -/
theorem no_brace_in_render {f : Forest Attributes} (hf : f.Plain) :
    '\x7b' ∉ f.render Attributes.write := by
  induction f with
  | nil => exact List.not_mem_nil
  | text t rest ih =>
    rw [render, List.mem_append, not_or]
    exact ⟨fun hmem => hf.1.1 '\x7b' hmem (by decide), ih hf.2⟩
  | element name attributes inside rest ihInside ihRest =>
    obtain ⟨⟨hname, hattributes⟩, hinside, hrest⟩ := hf
    have hopening := hattributes.notMem hname (c := '\x7b') (by decide) (by decide) (by decide)
    simp only [List.mem_append, not_or] at hopening
    simp [render, openingTag, closingTag, hopening, ihInside hinside, ihRest hrest]
  | single name attributes rest ih =>
    obtain ⟨⟨hname, hattributes⟩, hrest⟩ := hf
    have hopening := hattributes.notMem hname (c := '\x7b') (by decide) (by decide) (by decide)
    simp only [List.mem_append, not_or] at hopening
    simp [render, openingTag, hopening, ih hrest]

end Forest

theorem expression?_of_ne {c : Char} (h : c ≠ '\x7b') (rest : Text) :
    expression? (c :: rest) = none := by
  rw [expression?]
  intro rest' heq
  exact h (List.cons.inj heq).1

theorem readings_expression? {t : Text} (h : '\x7b' ∉ t) : readings expression? t = [] :=
  Text.readings_of_forall rfl fun _ hc rest => expression?_of_ne (ne_of_mem_of_not_mem hc h) rest

/-! ### Texts between tags -/

theorem textRun?_of_ne {c : Char} (h : c ≠ '>') (rest : Text) : textRun? (c :: rest) = none := by
  rw [textRun?]
  intro rest' heq
  exact h (List.cons.inj heq).1

/-- Nothing is read before the end of a tag. -/
theorem readings_textRun?_of_notMem {t : Text} (h : '>' ∉ t) (u : Text) :
    readings textRun? (t ++ u) = readings textRun? u :=
  Text.readings_append_of_forall fun _ hc rest => textRun?_of_ne (ne_of_mem_of_not_mem hc h) rest

/-- A text between the end of a tag and the beginning of another is read with both. -/
theorem textRun?_text {t : Text} (ht : IsPlain t) (u : Text) :
    textRun? ('>' :: (t ++ '<' :: u)) = if t = [] then none else some (t, t.length + 2) := by
  have htake : (t ++ '<' :: u).takeWhile (fun c => !isRunEnd c) = t := by
    have hstart : ∀ c ∈ ('<' :: u).head?, (!isRunEnd c) = false := by
      rintro _ ⟨⟩
      decide
    refine takeWhile_append_of_head (fun c hc => ?_) hstart
    have hmarks : ∀ d, isRunEnd d = true → d ∈ marks := by
      intro d hd
      simp only [isRunEnd, Bool.or_eq_true, decide_eq_true_eq] at hd
      rcases hd with ((rfl | rfl) | rfl) | rfl
      · decide
      · decide
      · decide
      · decide
    rw [Bool.not_eq_true', Bool.eq_false_iff]
    exact fun hend => ht c hc (hmarks c hend)
  simp only [textRun?, htake, List.drop_left, List.isEmpty_iff]

theorem textRun?_tag {t : Text} (h : ∀ c ∈ t.head?, c = '<') : textRun? ('>' :: t) = none := by
  cases t with
  | nil => rfl
  | cons c t =>
    obtain rfl := h c rfl
    exact textRun?_text (t := []) nofun t

namespace Forest

variable {f : Forest Attributes}

/-- A document that does not begin with a text begins with a tag or is empty. -/
theorem head?_render (hf : ¬ f.StartsWithText) {u : Text} (hu : ∀ c ∈ u.head?, c = '<') :
    ∀ c ∈ (f.render Attributes.write ++ u).head?, c = '<' := by
  cases f with
  | nil => exact hu
  | text t rest => exact absurd trivial hf
  | element name attributes inside rest =>
    rintro _ ⟨⟩
    rfl
  | single name attributes rest =>
    rintro _ ⟨⟩
    rfl

/-- What is read from a tag on is what is read from its end on. -/
theorem readings_openingTag {name t : Text} (h : '>' ∉ name ++ t) (u : Text) :
    readings textRun? (openingTag name t ++ u) = readings textRun? ('>' :: u) := by
  have hopening : openingTag name t ++ u = ('<' :: (name ++ t)) ++ '>' :: u := by
    simp [openingTag]
  rw [hopening, readings_textRun?_of_notMem]
  rw [List.mem_cons, not_or]
  exact ⟨by decide, h⟩

theorem readings_closingTag {name : Text} (hname : IsName name) (u : Text) :
    readings textRun? (closingTag name ++ u) = readings textRun? ('>' :: u) := by
  have hclosing : closingTag name ++ u = ('<' :: '/' :: name) ++ '>' :: u := by
    simp [closingTag]
  rw [hclosing, readings_textRun?_of_notMem]
  simp only [List.mem_cons, not_or]
  exact ⟨by decide, by decide, fun hmem => absurd (hname '>' hmem) (by decide)⟩

theorem notMem_opening {name : Text} {attributes : Attributes} (hname : IsName name)
    (h : attributes.Plain) : '>' ∉ name ++ attributes.write ∧
      '>' ∉ name ++ (attributes.write ++ ['/']) := by
  have hopening := h.notMem hname (c := '>') (by decide) (by decide) (by decide)
  refine ⟨hopening, ?_⟩
  rw [← List.append_assoc, List.mem_append, not_or]
  exact ⟨hopening, by decide⟩

theorem readings_start (u : Text) : readings textRun? ('<' :: u) = readings textRun? u :=
  Text.readings_cons_of_none (textRun?_of_ne (by decide) u)

/-- What is inside an element is read up to its closing tag, and what follows from the end of that
tag on. -/
theorem readings_element {name : Text} {attributes : Attributes} (hname : IsName name)
    (hattributes : attributes.Plain) {inside : Forest Attributes} {found : List Text}
    (hinside : ∀ u, readings textRun? ('>' :: (inside.render Attributes.write ++ '<' :: u)) =
      found ++ readings textRun? u) (u : Text) :
    readings textRun? (openingTag name attributes.write ++
        (inside.render Attributes.write ++ (closingTag name ++ u))) =
      found ++ readings textRun? ('>' :: u) := by
  have hclosing : closingTag name ++ u = '<' :: ('/' :: (name ++ ['>']) ++ u) := rfl
  rw [readings_openingTag (notMem_opening hname hattributes).1, hclosing, hinside, ← readings_start,
    ← hclosing, readings_closingTag hname]

/-- Inside an element the texts that are not empty are read one after another, from the end of the
tag before on, or from the beginning where no text comes first. -/
theorem readings_inside (hf : f.Plain) (u : Text) :
    readings textRun? ('>' :: (f.render Attributes.write ++ '<' :: u)) =
        f.texts.filter (· ≠ []) ++ readings textRun? u ∧
      (¬ f.StartsWithText → readings textRun? (f.render Attributes.write ++ '<' :: u) =
        f.texts.filter (· ≠ []) ++ readings textRun? u) := by
  have hhead : ∀ u : Text, ∀ c ∈ ('<' :: u).head?, c = '<' := by
    rintro u _ ⟨⟩
    rfl
  -- Where no text comes first, nothing is read at the end of the tag before.
  have hpass : ∀ (f : Forest Attributes) (u : Text) (read : List Text), ¬ f.StartsWithText →
      readings textRun? (f.render Attributes.write ++ '<' :: u) = read →
      readings textRun? ('>' :: (f.render Attributes.write ++ '<' :: u)) = read :=
    fun f u read hf hread =>
      (Text.readings_cons_of_none (textRun?_tag (head?_render hf (hhead u)))).trans hread
  induction f generalizing u with
  | nil => exact ⟨hpass nil u _ not_false (readings_start u), fun _ => readings_start u⟩
  | text t rest ih =>
    obtain ⟨⟨ht, hnot⟩, hrest⟩ := hf
    obtain ⟨hfirst, hlater⟩ := ih hrest u
    refine ⟨?_, fun h => absurd trivial h⟩
    rw [render, List.append_assoc, texts]
    cases hnext : rest.render Attributes.write ++ '<' :: u with
    | nil => exact absurd hnext (by simp)
    | cons c more =>
      obtain rfl : c = '<' := head?_render hnot (hhead u) c (by rw [hnext]; rfl)
      rw [hnext] at hfirst hlater
      by_cases hempty : t = []
      · rw [hempty, List.nil_append, hfirst, List.filter_cons_of_neg (by simp)]
      · have hread := textRun?_text ht more
        rw [if_neg hempty] at hread
        have hrun : '>' :: (t ++ '<' :: more) = '>' :: (t ++ ['<']) ++ more := by simp
        have hlength : t.length + 2 = ('>' :: (t ++ ['<'])).length := by simp
        rw [hrun, hlength] at hread
        rw [hrun, Text.readings_append_of_some (List.cons_ne_nil _ _) hread, ← readings_start,
          hlater hnot, List.filter_cons_of_pos (by simpa using hempty), List.cons_append]
  | element name attributes inside rest ihInside ihRest =>
    obtain ⟨⟨hname, hattributes⟩, hinside, hrest⟩ := hf
    have hread : readings textRun?
        ((element name attributes inside rest).render Attributes.write ++ '<' :: u) =
        (element name attributes inside rest).texts.filter (· ≠ []) ++ readings textRun? u := by
      have helement := readings_element hname hattributes (fun u => (ihInside hinside u).1)
        (rest.render Attributes.write ++ '<' :: u)
      rw [(ihRest hrest u).1] at helement
      simpa only [render, texts, List.append_assoc, List.filter_append] using helement
    exact ⟨hpass _ u _ not_false hread, fun _ => hread⟩
  | single name attributes rest ih =>
    obtain ⟨⟨hname, hattributes⟩, hrest⟩ := hf
    have hread : readings textRun?
        ((single name attributes rest).render Attributes.write ++ '<' :: u) =
        (single name attributes rest).texts.filter (· ≠ []) ++ readings textRun? u := by
      rw [render, List.append_assoc, readings_openingTag (notMem_opening hname hattributes).2,
        (ih hrest u).1, texts]
    exact ⟨hpass _ u _ not_false hread, fun _ => hread⟩

/-- The texts between tags in a document without texts outside of all elements. -/
theorem readings_render (hf : f.Plain) (htop : f.Elements) :
    readings textRun? (f.render Attributes.write) = f.texts.filter (· ≠ []) := by
  have hpass : ∀ {f : Forest Attributes}, f.Elements →
      readings textRun? ('>' :: f.render Attributes.write) =
        readings textRun? (f.render Attributes.write) := by
    intro f hf
    apply Text.readings_cons_of_none
    apply textRun?_tag
    cases f with
    | nil => nofun
    | text t rest => exact hf.elim
    | element name attributes inside rest =>
      rintro _ ⟨⟩
      rfl
    | single name attributes rest =>
      rintro _ ⟨⟩
      rfl
  induction f with
  | nil => exact Text.readings_nil rfl
  | text t rest ih => exact htop.elim
  | element name attributes inside rest ihInside ihRest =>
    obtain ⟨⟨hname, hattributes⟩, hinside, hrest⟩ := hf
    rw [render, readings_element hname hattributes (fun u => (readings_inside hinside u).1),
      hpass (f := rest) htop, ihRest hrest htop, texts, List.filter_append]
  | single name attributes rest ih =>
    obtain ⟨⟨hname, hattributes⟩, hrest⟩ := hf
    rw [render, readings_openingTag (notMem_opening hname hattributes).2, hpass (f := rest) htop,
      ih hrest htop, texts]

end Forest

end Localize.Markup
