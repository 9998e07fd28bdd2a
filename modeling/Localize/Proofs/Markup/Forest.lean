import Localize.Markup.Tag
import Localize.Proofs.Text.Basic
import Localize.Proofs.Text.Blank
import Localize.Proofs.Text.Search

/-!
# Documents written from forests

A forest of texts and elements is written as a document: an element as an opening tag, what is
inside, and a closing tag, or as one tag that closes itself. Where names are names, attributes reach
no further than their tag and texts hold no `<`, the document is cut back into exactly the tags that
were written, each where it was written.
-/

namespace Localize.Markup

/-- Texts and elements in order; how attributes are given is left open. -/
inductive Forest (α : Type) where
  | nil
  | text (t : Text) (rest : Forest α)
  | element (name : Text) (attributes : α) (inside rest : Forest α)
  | single (name : Text) (attributes : α) (rest : Forest α)

def openingTag (name attributes : Text) : Text := '<' :: (name ++ (attributes ++ ['>']))

def closingTag (name : Text) : Text := '<' :: '/' :: (name ++ ['>'])

/-- A name of letters, digits and hyphens. -/
def IsTagName (name : Text) : Prop := name ≠ [] ∧ ∀ c ∈ name, Text.isNameChar c = true

/-- The text of attributes: nothing, or a blank and then anything but an angle bracket. -/
structure IsAttributeText (t : Text) : Prop where
  blank : ∀ c ∈ t.head?, Text.isBlank c = true
  noStart : '<' ∉ t
  noEnd : '>' ∉ t

instance : DecidablePred IsTagName := fun name =>
  decidable_of_iff (name ≠ [] ∧ name.all Text.isNameChar = true) (by simp [IsTagName])

instance : DecidablePred IsAttributeText := fun t =>
  decidable_of_iff (t.head?.all Text.isBlank = true ∧ '<' ∉ t ∧ '>' ∉ t)
    ⟨fun h => ⟨by simpa [Option.all_eq_true] using h.1, h.2.1, h.2.2⟩,
      fun h => ⟨by simpa [Option.all_eq_true] using h.blank, h.noStart, h.noEnd⟩⟩

/-- A slash with nothing but blanks behind it. -/
def EndsInSlash (t : Text) : Prop :=
  ∃ front blanks, t = front ++ '/' :: blanks ∧ Text.allBlank blanks = true

namespace Forest

variable {α : Type}

/-- The document of a forest. -/
def render (write : α → Text) : Forest α → Text
  | nil => []
  | text t rest => t ++ render write rest
  | element name attributes inside rest =>
    openingTag name (write attributes) ++
      (render write inside ++ (closingTag name ++ render write rest))
  | single name attributes rest =>
    openingTag name (write attributes ++ ['/']) ++ render write rest

/-- Nothing in a forest can be taken for a tag but its tags. -/
def WellFormed (write : α → Text) : Forest α → Prop
  | nil => True
  | text t rest => '<' ∉ t ∧ WellFormed write rest
  | element name attributes inside rest =>
    (IsTagName name ∧ IsAttributeText (write attributes) ∧ ¬ EndsInSlash (write attributes)) ∧
      WellFormed write inside ∧ WellFormed write rest
  | single name attributes rest =>
    (IsTagName name ∧ IsAttributeText (write attributes)) ∧ WellFormed write rest

/-- The tags of a forest whose document begins at a position. -/
def events (write : α → Text) : Nat → Forest α → List TagEvent
  | _, nil => []
  | start, text t rest => events write (start + t.length) rest
  | start, element name attributes inside rest =>
    ⟨.opening, .ofAttributes (Text.lower name) (write attributes) start⟩ ::
      (events write (start + (openingTag name (write attributes)).length) inside ++
        ⟨.closing, ⟨Text.lower name, none, [], start +
          (openingTag name (write attributes) ++ inside.render write).length⟩⟩ ::
        events write (start + (openingTag name (write attributes) ++ inside.render write ++
          closingTag name).length) rest)
  | start, single name attributes rest =>
    ⟨.selfClosing, ⟨Text.lower name, none, [], start⟩⟩ ::
      events write (start + (openingTag name (write attributes ++ ['/'])).length) rest

end Forest

/-! ### Single tags -/

theorem endsWithSlash_iff {t : Text} : endsWithSlash t = true ↔ EndsInSlash t := by
  rw [endsWithSlash, decide_eq_true_eq, List.getLast?_eq_some_iff]
  constructor
  · rintro ⟨front, hfront⟩
    obtain ⟨blanks, hblanks, ht⟩ := Text.exists_blank_behind t
    refine ⟨front, blanks, ?_, hblanks⟩
    rw [ht, hfront, List.append_assoc, List.singleton_append]
  · rintro ⟨front, blanks, rfl, hblanks⟩
    refine ⟨front, ?_⟩
    rw [← List.singleton_append, ← List.append_assoc, Text.stripRight_append _ hblanks]
    exact Text.stripRight_concat front (by decide)

theorem endsWithSlash_concat (t : Text) : endsWithSlash (t ++ ['/']) = true :=
  endsWithSlash_iff.mpr ⟨t, [], rfl, rfl⟩

/-- With a slash behind them attributes are still told apart from the name. -/
theorem head_concat_slash {t : Text} (h : ∀ c ∈ t.head?, Text.isNameChar c = false) :
    ∀ c ∈ (t ++ ['/']).head?, Text.isNameChar c = false := by
  cases t with
  | nil =>
    intro c hc
    cases hc
    decide
  | cons d t => exact h

/-- A name with the text of attributes behind it is read up to the next `>`. -/
theorem takeWhile_tag {name attributes : Text} (hname : ∀ c ∈ name, Text.isNameChar c = true)
    (hhead : ∀ c ∈ attributes.head?, Text.isNameChar c = false) (hend : '>' ∉ attributes)
    (u : Text) :
    (name ++ (attributes ++ '>' :: u)).takeWhile Text.isNameChar = name ∧
      (attributes ++ '>' :: u).takeWhile (fun c => decide (c ≠ '>')) = attributes := by
  constructor
  · refine takeWhile_append_of_head hname ?_
    cases attributes with
    | nil =>
      intro c hc
      cases hc
      decide
    | cons d attributes => simpa using hhead
  · refine takeWhile_append_of_head (fun c hc => ?_) (by simp)
    rw [decide_eq_true_eq]
    exact ne_of_mem_of_not_mem hc hend

/-- The text of a tag. -/
def WrittenTag.write (w : WrittenTag) : Text :=
  '<' :: ((if w.closing then ['/'] else []) ++ (w.name ++ (w.attributes ++ ['>'])))

/-- A tag with a name that ends before its attributes, which hold no end of a tag. -/
structure WrittenTag.WellFormed (w : WrittenTag) : Prop where
  name : IsTagName w.name
  head : ∀ c ∈ w.attributes.head?, Text.isNameChar c = false
  noEnd : '>' ∉ w.attributes

/-- What is written as a tag is read as that tag. -/
theorem writtenTag?_write {w : WrittenTag} (h : w.WellFormed) (u : Text) :
    writtenTag? (w.write ++ u) = some (w, w.write.length) := by
  obtain ⟨closing, name, attributes⟩ := w
  obtain ⟨hname, hhead, hend⟩ := h
  obtain ⟨htake, hattributes⟩ := takeWhile_tag hname.2 hhead hend u
  cases closing with
  | true =>
    have hclose : WrittenTag.write ⟨true, name, attributes⟩ ++ u =
        '<' :: '/' :: (name ++ (attributes ++ '>' :: u)) := by
      simp [WrittenTag.write]
    rw [hclose, writtenTag?]
    simp only [htake, List.drop_left, hattributes]
    simp [WrittenTag.write, hname.1]
    omega
  | false =>
    have hslash : ∀ behind, name ++ (attributes ++ '>' :: u) ≠ '/' :: behind := by
      intro behind hbehind
      obtain ⟨c, rest, rfl⟩ := List.exists_cons_of_ne_nil hname.1
      obtain rfl : c = '/' := (List.cons.inj hbehind).1
      exact absurd (hname.2 '/' List.mem_cons_self) (by decide)
    have hopen : WrittenTag.write ⟨false, name, attributes⟩ ++ u =
        '<' :: (name ++ (attributes ++ '>' :: u)) := by
      simp [WrittenTag.write]
    rw [hopen, writtenTag?]
    · simp only [htake, List.drop_left, hattributes]
      simp [WrittenTag.write, hname.1]
      omega
    · exact hslash

/-- Where a `>` comes behind a name, the tag reaches to the first one. -/
theorem exists_of_takeWhile_tag {body : Text}
    (h : ((body.dropWhile Text.isNameChar).takeWhile fun c => decide (c ≠ '>')).length ≠
      (body.dropWhile Text.isNameChar).length) :
    ∃ attributes u, (body.dropWhile Text.isNameChar).takeWhile (fun c => decide (c ≠ '>')) =
      attributes ∧ body = body.takeWhile Text.isNameChar ++ (attributes ++ '>' :: u) ∧
        (∀ c ∈ attributes.head?, Text.isNameChar c = false) ∧ '>' ∉ attributes := by
  obtain ⟨c, u, hsplit, hc⟩ := exists_of_takeWhile_ne h
  obtain rfl : c = '>' := by simpa using hc
  refine ⟨_, u, rfl, ?_, fun c hc => ?_, fun hend => ?_⟩
  · rw [← hsplit, List.takeWhile_append_dropWhile]
  · have hfirst := List.head?_dropWhile_not Text.isNameChar body
    rw [hsplit, List.head?_append, Option.mem_def.mp hc] at hfirst
    simpa using hfirst
  · simpa using List.mem_takeWhile_imp hend

/-- What is read as a tag is that tag as it is written. -/
theorem exists_of_writtenTag? {t : Text} {w : WrittenTag} {n : Nat}
    (h : writtenTag? t = some (w, n)) :
    w.WellFormed ∧ n = w.write.length ∧ ∃ u, t = w.write ++ u := by
  unfold writtenTag? at h
  split at h
  · next rest =>
    split at h
    next closing body hslash =>
    have hrest : rest = (if closing then ['/'] else []) ++ body := by
      split at hslash
      · obtain ⟨rfl, rfl⟩ := Prod.mk.inj hslash
        rfl
      · obtain ⟨rfl, rfl⟩ := Prod.mk.inj hslash
        rfl
    simp only [drop_length_takeWhile, Option.ite_none_left_eq_some, Bool.or_eq_true,
      List.isEmpty_iff, decide_eq_true_eq, not_or] at h
    obtain ⟨⟨hname, hbehind⟩, hread⟩ := h
    obtain ⟨attributes, u, hattributes, hbody, hhead, hend⟩ := exists_of_takeWhile_tag hbehind
    rw [hattributes, Option.some.injEq, Prod.mk.injEq] at hread
    obtain ⟨rfl, rfl⟩ := hread
    refine ⟨⟨⟨hname, fun c => List.mem_takeWhile_imp⟩, hhead, hend⟩, ?_, u, ?_⟩
    · cases closing <;> simp [WrittenTag.write] <;> omega
    · rw [hrest, WrittenTag.write]
      conv_lhs => rw [hbody]
      simp only [List.append_assoc, List.cons_append, List.nil_append]
  · cases h

theorem writtenTag?_openingTag {name attributes : Text} (hname : IsTagName name)
    (hhead : ∀ c ∈ attributes.head?, Text.isNameChar c = false) (hend : '>' ∉ attributes)
    (u : Text) : writtenTag? (openingTag name attributes ++ u) =
      some (⟨false, name, attributes⟩, (openingTag name attributes).length) :=
  writtenTag?_write (w := ⟨false, name, attributes⟩) ⟨hname, hhead, hend⟩ u

theorem writtenTag?_closingTag {name : Text} (hname : IsTagName name) (u : Text) :
    writtenTag? (closingTag name ++ u) = some (⟨true, name, []⟩, (closingTag name).length) :=
  writtenTag?_write (w := ⟨true, name, []⟩) ⟨hname, nofun, List.not_mem_nil⟩ u

theorem writtenTag?_of_ne {c : Char} (h : c ≠ '<') (rest : Text) : writtenTag? (c :: rest) = none := by
  rw [writtenTag?]
  intro rest' heq
  exact h (List.cons.inj heq).1

/-! ### All tags -/

namespace Forest

variable {α : Type} {write : α → Text}

/-- The document of a forest is cut into the tags of the forest. -/
theorem matchesFrom_render {f : Forest α} (hf : f.WellFormed write) (start : Nat) (u : Text) :
    (Text.matchesFrom writtenTag? start (f.render write ++ u)).map
        (fun found => TagEvent.ofWritten found.value found.start) =
      f.events write start ++
        (Text.matchesFrom writtenTag? (start + (f.render write).length) u).map
          fun found => TagEvent.ofWritten found.value found.start := by
  induction f generalizing start u with
  | nil => rfl
  | text t rest ih =>
    obtain ⟨ht, hrest⟩ := hf
    have hpass : ∀ c ∈ t, ∀ behind, writtenTag? (c :: behind) = none := fun c hc behind =>
      writtenTag?_of_ne (ne_of_mem_of_not_mem hc ht) behind
    rw [render, List.append_assoc, Text.matchesFrom_append_of_forall hpass, ih hrest, events,
      List.length_append, Nat.add_assoc]
  | element name attributes inside rest ihInside ihRest =>
    obtain ⟨⟨hname, hattributes, hslash⟩, hinside, hrest⟩ := hf
    have hhead : ∀ c ∈ (write attributes).head?, Text.isNameChar c = false := fun c hc =>
      Text.not_isNameChar_of_isBlank (hattributes.blank c hc)
    have hopen : TagEvent.ofWritten ⟨false, name, write attributes⟩ start =
        ⟨.opening, .ofAttributes (Text.lower name) (write attributes) start⟩ := by
      have hnot : endsWithSlash (write attributes) = false :=
        Bool.eq_false_iff.mpr fun h => hslash (endsWithSlash_iff.mp h)
      simp [TagEvent.ofWritten, hnot]
    have hopening : openingTag name (write attributes) ≠ [] := List.cons_ne_nil _ _
    have hclosing : closingTag name ≠ [] := List.cons_ne_nil _ _
    rw [render, events]
    simp only [List.append_assoc]
    rw [Text.matchesFrom_append_of_some hopening
        (writtenTag?_openingTag hname hhead hattributes.noEnd _), List.map_cons, hopen,
      ihInside hinside, Text.matchesFrom_append_of_some hclosing (writtenTag?_closingTag hname _),
      List.map_cons, ihRest hrest]
    simp only [List.length_append, List.cons_append, List.append_assoc, Nat.add_assoc]
    rfl
  | single name attributes rest ih =>
    obtain ⟨⟨hname, hattributes⟩, hrest⟩ := hf
    have hhead : ∀ c ∈ (write attributes ++ ['/']).head?, Text.isNameChar c = false :=
      head_concat_slash fun c hc => Text.not_isNameChar_of_isBlank (hattributes.blank c hc)
    have hend : '>' ∉ write attributes ++ ['/'] := by
      simpa using hattributes.noEnd
    have hsingle : TagEvent.ofWritten ⟨false, name, write attributes ++ ['/']⟩ start =
        ⟨.selfClosing, ⟨Text.lower name, none, [], start⟩⟩ := by
      simp [TagEvent.ofWritten, endsWithSlash_concat]
    have hopening : openingTag name (write attributes ++ ['/']) ≠ [] := List.cons_ne_nil _ _
    rw [render, events, List.append_assoc, Text.matchesFrom_append_of_some hopening
        (writtenTag?_openingTag hname hhead hend _), List.map_cons, hsingle, ih hrest,
      List.length_append, Nat.add_assoc]
    rfl

/-- The tags of a document are those of its forest. -/
theorem tagEvents_render {f : Forest α} (hf : f.WellFormed write) :
    tagEvents (f.render write) = f.events write 0 := by
  have hall := matchesFrom_render hf 0 []
  rw [List.append_nil] at hall
  refine hall.trans ?_
  rw [Text.matchesFrom]
  simp [Text.scanFrom, writtenTag?]

end Forest

end Localize.Markup
