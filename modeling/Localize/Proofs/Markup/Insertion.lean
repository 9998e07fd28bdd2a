import Localize.Proofs.Markup.Comment
import Localize.Proofs.Markup.Expression
import Localize.Proofs.Markup.NameEnds
import Localize.Proofs.Markup.OwnAttributes

/-!
# Attributes that are not visible

An attribute is put into a tag behind its name. Where its name ends neither as a visible attribute nor
as `id`, `class` or `className`, and its value holds nothing that marks something up, nothing is
read in it and no reading reaches over it, so the document is read as without it and all behind it is
found further on. This rests on where the tag stands: in a comment, in braces or behind an open value
the attribute is not read as one, and a value that begins or ends a comment takes away or brings back
what is written behind it.
-/

namespace Localize.Markup

open Text (isBlank isNameChar allBlank)

variable {α : Type} {names : List NamePattern} {a : Attribute} {front tag back t u x y : Text}

/-! ### Readings around a place -/

/-- Where a matcher reads the front alike, nothing in the text put in, and the same places are
excluded, the same is read. -/
theorem visibleMatches_insert {z z' : Exclusion} {matcher : Text → Option (α × Nat)}
    {front inserted back : Text} (hnil : matcher [] = none)
    (hwithin : ∀ y value n, matcher y = some (value, n) → n ≤ y.length)
    (hold : ∀ x y, front = x ++ y → y ≠ [] → matcher (y ++ back) = matcher y)
    (hnew : ∀ x y, front = x ++ y → y ≠ [] → matcher (y ++ (inserted ++ back)) = matcher y)
    (hinserted : ∀ x y, inserted = x ++ y → y ≠ [] → matcher (y ++ back) = none)
    (hfront : ∀ p < front.length, z'.excludes p = z.excludes p)
    (hback : ∀ n, z'.excludes (front.length + inserted.length + n) =
      z.excludes (front.length + n)) :
    visibleMatches z' matcher (front ++ (inserted ++ back)) =
      visibleMatches z matcher (front ++ back) := by
  have hscan : Text.scan (fun _ t => matcher t) (front ++ back) =
      Text.matchesFrom matcher 0 front ++
        (Text.matchesFrom matcher 0 back).map (.shift front.length) := by
    rw [← Text.matchesFrom_eq_map, ← Nat.zero_add front.length]
    exact Text.matchesFrom_append_of_settled hnil hwithin hold
  have hscan' : Text.scan (fun _ t => matcher t) (front ++ (inserted ++ back)) =
      Text.matchesFrom matcher 0 front ++
        (Text.matchesFrom matcher 0 back).map (.shift (front.length + inserted.length)) := by
    rw [← Text.matchesFrom_eq_map, ← Text.matchesFrom_append_of_none hinserted]
    exact (Text.matchesFrom_append_of_settled hnil hwithin hnew).trans (by rw [Nat.zero_add])
  have hfirst : (Text.matchesFrom matcher 0 front).filter (fun f => !z'.excludes f.start) =
      (Text.matchesFrom matcher 0 front).filter (fun f => !z.excludes f.start) := by
    refine List.filter_congr fun f hf => ?_
    obtain ⟨hle, hread⟩ := Text.matcher_of_mem_scan hf
    rcases Nat.lt_or_eq_of_le hle with hlt | heq
    · rw [hfront f.start hlt]
    · rw [heq, List.drop_length, hnil] at hread
      cases hread
  simp only [visibleMatches, hscan, hscan', List.filter_append, hfirst,
    Text.filter_map_shift (fun p => !z'.excludes p), Text.filter_map_shift (fun p => !z.excludes p),
    hback, List.map_append, List.map_map]
  rfl

/-- A character that the beginning of a tag does not hold stands in front of the tag. -/
theorem exists_in_front {c : Char} (hc : c ∉ '<' :: tag) (h : front ++ '<' :: tag = x ++ c :: y) :
    ∃ z, front = x ++ c :: z ∧ y = z ++ '<' :: tag := by
  rcases List.append_eq_append_iff.mp h with ⟨d, rfl, hd⟩ | ⟨d, hd, hrest⟩
  · exact absurd (hd ▸ by simp) hc
  · cases d with
    | nil =>
      rw [List.nil_append] at hrest
      exact absurd (hrest ▸ List.mem_cons_self) hc
    | cons e z =>
      obtain ⟨rfl, rfl⟩ := List.cons.inj hrest
      exact ⟨z, hd, rfl⟩

/-- A text between tags ends at the next `<` at the latest. -/
theorem textRun?_start (z t u : Text) :
    textRun? ('>' :: (z ++ '<' :: t)) = textRun? ('>' :: (z ++ '<' :: u)) := by
  have htake : ∀ v : Text, (z ++ '<' :: v).takeWhile (!isRunEnd ·) = z.takeWhile (!isRunEnd ·) :=
    fun v => takeWhile_append_left (by rintro c ⟨⟩; decide)
  have hdrop : ∀ v : Text, (z ++ '<' :: v).drop (z.takeWhile (!isRunEnd ·)).length =
      z.dropWhile (!isRunEnd ·) ++ '<' :: v := fun v => by
    rw [List.drop_append_of_le_length (List.takeWhile_prefix _).length_le, drop_length_takeWhile]
  simp only [textRun?, htake, hdrop]
  cases z.dropWhile (!isRunEnd ·) with
  | nil => rfl
  | cons d z =>
    by_cases hd : d = '<'
    · subst hd
      rfl
    · simp [hd]

/-- Texts that begin in front of a tag end there. -/
theorem textRun?_append (htag : '>' ∉ '<' :: tag) (h : front ++ '<' :: tag = x ++ y) (hy : y ≠ [])
    (u : Text) : textRun? (y ++ u) = textRun? y := by
  obtain ⟨c, y, rfl⟩ := List.exists_cons_of_ne_nil hy
  by_cases hc : c = '>'
  · subst hc
    obtain ⟨z, -, rfl⟩ := exists_in_front htag h
    rw [List.cons_append, List.append_assoc, List.cons_append]
    exact textRun?_start z (tag ++ u) tag
  · rw [List.cons_append, textRun?_of_ne hc, textRun?_of_ne hc]

/-- An expression that begins in front of a place ends there if no brace behind the place ends it. -/
theorem expression?_append (htag : ∀ c ∈ ['\x7b', '\x7d'], c ∉ '<' :: tag)
    (hbraces : ∀ x z, front = x ++ '\x7b' :: z → '\x7d' ∉ z → '\x7d' ∉ u)
    (h : front ++ '<' :: tag = x ++ y) (hy : y ≠ []) : expression? (y ++ u) = expression? y := by
  obtain ⟨c, y, rfl⟩ := List.exists_cons_of_ne_nil hy
  by_cases hc : c = '\x7b'
  · subst hc
    obtain ⟨z, hfront, rfl⟩ := exists_in_front (htag _ (by decide)) h
    by_cases hclosed : '\x7d' ∈ z
    · exact expression?_append_of_mem (List.mem_append_left _ hclosed) u
    · have hstem : '\x7d' ∉ z ++ '<' :: tag := by
        rw [List.mem_append, not_or]
        exact ⟨hclosed, htag _ (by decide)⟩
      have hbehind : '\x7d' ∉ z ++ '<' :: tag ++ u := by
        rw [List.mem_append, not_or]
        exact ⟨hstem, hbraces x z hfront hclosed⟩
      rw [List.cons_append, expression?_open hstem, expression?_open hbehind]
  · rw [List.cons_append, expression?_of_ne hc, expression?_of_ne hc]

/-- What is read as a text between tags or as a visible attribute is there. -/
theorem length_le_of_textRun? {value : Text} {n : Nat} (h : textRun? y = some (value, n)) :
    n ≤ y.length := by
  unfold textRun? at h
  split at h
  · rename_i rest
    simp only at h
    split at h
    · rename_i behind hbehind
      have hlength := congrArg List.length hbehind
      rw [List.length_drop, List.length_cons] at hlength
      simp only [Option.ite_none_left_eq_some, Option.some.injEq, Prod.mk.injEq] at h
      obtain ⟨-, -, rfl⟩ := h
      rw [List.length_cons]
      omega
    · cases h
  · cases h

theorem length_le_of_visibleAttribute? {value : WrittenAttribute} {n : Nat}
    (h : visibleAttribute? names y = some (value, n)) : n ≤ y.length := by
  obtain ⟨s, -, ⟨u, rfl⟩, hread⟩ := Spelling.exists_of_visibleAttribute? h
  obtain ⟨-, rfl⟩ := Prod.mk.inj hread
  rw [List.length_append]
  exact Nat.le_add_right _ _

theorem visibleAttribute?_nil (names : List NamePattern) : visibleAttribute? names [] = none := by
  rw [Option.eq_none_iff_forall_ne_some]
  intro read hread
  obtain ⟨s, -, ⟨u, hu⟩, -⟩ := Spelling.exists_of_visibleAttribute? hread
  rw [s.write_append] at hu
  simp at hu

/-- A listed name reaches over the place between two texts, and an equals sign stands behind it. -/
def Crossed (names : List NamePattern) (front back : Text) : Prop :=
  ∃ x y z blanks more, front = x ++ y ∧ y ≠ [] ∧ back = z ++ (blanks ++ '=' :: more) ∧
    allBlank blanks = true ∧ Listed names (y ++ z)

/-- An attribute that is read in front of a place ends there, if no value is open before the tag and
no name reaches over the place. -/
theorem visibleAttribute?_front (hnames : Unbroken names) (htag : IsTagName tag)
    (hopen : ¬ OpenValue names front) (hcrossed : ¬ Crossed names (front ++ '<' :: tag) u)
    (h : front ++ '<' :: tag = x ++ y) (hy : y ≠ []) :
    visibleAttribute? names (y ++ u) = visibleAttribute? names y := by
  have hstem : ∀ c ∈ '<' :: tag, isBarrier c = false :=
    List.forall_mem_cons.mpr ⟨by decide, fun c hc => isBarrier_of_isNameChar (htag.2 c hc)⟩
  refine Spelling.visibleAttribute?_append hnames fun s hs r hr => ?_
  rcases Spelling.cases_of_write_append hs hr with hshort | ⟨c, z, hhead, more, rfl⟩ | ⟨v, rfl, hv⟩
  · exact hshort
  · -- The name of the tag goes on as the listed one does, so the equals sign stands behind the place.
    refine absurd ?_ hcrossed
    obtain ⟨y, e, rfl⟩ := (List.eq_nil_or_concat y).resolve_left hy
    rw [List.concat_eq_append] at h hhead
    have he : isBarrier e = false := by
      have hlast := congrArg List.getLast? h
      rw [List.getLast?_append_of_ne_nil _ (List.cons_ne_nil '<' tag), ← List.append_assoc,
        List.getLast?_concat] at hlast
      exact hstem e (List.mem_of_getLast? hlast)
    rw [List.append_assoc, List.singleton_append] at hhead
    obtain ⟨z', hname⟩ := Head.exists_of_write_eq hs.head hhead he
    have hsigns : z' ++ s.head.signs = c :: z := by
      rw [Head.write, hname] at hhead
      simpa using hhead
    refine ⟨x, y ++ [e], z', s.head.before, s.head.behind ++ s.head.quote :: more, h, by simp, ?_,
      hs.head.before, ?_⟩
    · rw [← List.cons_append, ← hsigns, Head.signs]
      simp
    · rw [List.append_assoc, List.singleton_append, ← hname]
      exact hs.head.name
  · refine absurd (OpenValue.of_append (u := '<' :: tag) ?_ fun c hc => ?_) hopen
    · exact ⟨x, s.head, v, h, hs.head, hv⟩
    · exact (isBarrier_eq_false.mp (hstem c hc)).2.2

/-- Whether a text ends with a slash is told from what stands behind a character that is neither a slash
nor blank. -/
theorem endsWithSlash_append {c : Char} (hblank : isBlank c = false) (hslash : c ≠ '/') (u : Text) :
    endsWithSlash (t ++ c :: u) = endsWithSlash u := by
  rw [Bool.eq_iff_iff, endsWithSlash_iff, endsWithSlash_iff]
  constructor
  · rintro ⟨front, blanks, heq, hblanks⟩
    have hcut : (t ++ [c]) ++ u = front ++ '/' :: blanks := by simpa using heq
    rcases List.append_eq_append_iff.mp hcut with ⟨d, rfl, hu⟩ | ⟨e, he, hrest⟩
    · exact ⟨d, blanks, hu, hblanks⟩
    · cases e with
      | nil => exact ⟨[], blanks, hrest.symm, hblanks⟩
      | cons d e =>
        obtain ⟨rfl, rfl⟩ := List.cons.inj hrest
        exfalso
        have hlast := congrArg List.getLast? he
        rcases List.eq_nil_or_concat e with rfl | ⟨e, d, rfl⟩
        · exact hslash (by simpa using hlast)
        · obtain rfl : c = d := by simpa [List.getLast?_cons] using hlast
          have hc := List.all_eq_true.mp hblanks c (by simp)
          rw [hblank] at hc
          cases hc
  · rintro ⟨front, blanks, rfl, hblanks⟩
    exact ⟨t ++ c :: front, blanks, by simp, hblanks⟩

namespace Attribute

/-- An attribute of which nothing is read: its name ends as none that is listed, and it holds neither
brackets nor what begins or ends a comment. -/
structure Silent (names : List NamePattern) (a : Attribute) : Prop where
  legible : a.Legible
  brackets : ∀ c ∈ ['<', '>', '\x7b', '\x7d'], c ∉ a.write
  unlisted : ∀ y, y <:+ a.name → ¬ Listed names y
  comments : Uncommented a.write ∧ ¬ ['*', '/'] <:+: a.write

theorem Silent.insertable (h : a.Silent names) (htag : IsTagName tag) :
    Insertable ('<' :: tag) a.write := by
  refine ⟨⟨List.cons_ne_nil _ _, List.forall_mem_cons.mpr ⟨by decide, fun c hc hmem => ?_⟩⟩,
    h.comments.1, h.comments.2, ?_⟩
  · have hname := htag.2 c hc
    simp only [List.mem_cons, List.not_mem_nil, or_false] at hmem
    rcases hmem with rfl | rfl | rfl
    · exact absurd hname (by decide)
    · exact absurd hname (by decide)
    · exact absurd hname (by decide)
  · simp [write, List.getLast?_append, List.getLast?_cons]

/-- Nothing is announced in it. -/
theorem Silent.not_announced (h : a.Silent names) (hnames : Unbroken names)
    (hsplit : a.write = x ++ y) (hy : y ≠ []) (back : Text) : ¬ Announced names (y ++ back) := by
  intro hannounced
  have hlength : x.length < a.write.length := by
    rw [hsplit, List.length_append]
    exact Nat.lt_add_of_pos_right (List.length_pos_iff.mpr hy)
  obtain ⟨w, y', hname, -, hcut⟩ := h.legible.exists_of_announced hnames
    (by rw [hsplit, List.append_assoc]) hlength hannounced
  have hchars : ∀ c ∈ y', isBarrier c = false := fun c hc =>
    h.legible.name.2 c (hname ▸ List.mem_append_right w hc)
  rw [hcut] at hannounced
  obtain ⟨v, blanks, rfl, hlisted, hblanks⟩ := exists_of_announced hnames
    (fun hmem => absurd (hchars '=' hmem) (by decide)) hannounced
  cases blanks with
  | nil => exact h.unlisted v ⟨w, by rw [hname, List.append_nil]⟩ hlisted
  | cons b blanks =>
    have hb := (isBarrier_eq_false.mp (hchars b (by simp))).1
    rw [(Text.allBlank_cons.mp hblanks).1] at hb
    cases hb

/-- No name reaches over the place where it is put in. -/
theorem Legible.not_crossed (h : a.Legible) (hnames : Unbroken names) (front back : Text) :
    ¬ Crossed names front (a.write ++ back) := by
  rintro ⟨x, y, z, blanks, more, -, -, hback, hblanks, hlisted⟩
  obtain ⟨b, gap, hgap⟩ := List.exists_cons_of_ne_nil h.gap.1
  obtain ⟨c, name, hname⟩ := List.exists_cons_of_ne_nil h.name.1
  have hb : isBlank b = true := List.all_eq_true.mp h.gap.2 b (by simp [hgap])
  have hc := isBarrier_eq_false.mp (h.name.2 c (by simp [hname]))
  have hbarrier : ∀ d ∈ (blanks ++ '=' :: more).head?, (!isBarrier d) = false := by
    intro d hd
    cases blanks with
    | nil =>
      cases hd
      decide
    | cons e blanks =>
      cases hd
      simp [isBarrier_of_isBlank (Text.allBlank_cons.mp hblanks).1]
  rw [write_append] at hback
  obtain ⟨rfl, hrest⟩ := append_inj_of_head (!isBarrier ·) (List.forall_mem_nil _)
    (by rw [hgap]; rintro d ⟨⟩; simp [isBarrier_of_isBlank hb])
    (fun d hd => by simp [hnames _ hlisted d (List.mem_append_right y hd)]) hbarrier hback
  obtain ⟨-, hequals⟩ := append_inj_of_head isBlank (List.all_eq_true.mp h.gap.2)
    (by rw [hname]; rintro d ⟨⟩; exact hc.1) (List.all_eq_true.mp hblanks)
    (by rintro d ⟨⟩; decide) hrest
  rw [hname] at hequals
  exact hc.2.1 (List.cons.inj hequals).1

/-! ### The element of the tag -/

/-- What is read only where a listed name is announced is not read in it. -/
theorem Silent.firstMatch?_append (h : a.Silent names) (hnames : Unbroken names)
    {matcher : Text → Option Text} (hmatcher : ∀ y value, matcher y = some value → Announced names y)
    (t : Text) : Text.firstMatch? matcher (a.write ++ t) = Text.firstMatch? matcher t := by
  refine Text.firstMatch?_append_of_none fun x y hsplit hy => ?_
  rw [Option.eq_none_iff_forall_ne_some]
  intro value hvalue
  exact h.not_announced hnames hsplit hy t (hmatcher _ value hvalue)

theorem Silent.attributeValue?_append (h : a.Silent names) (hnames : Unbroken names) {name : Text}
    (hname : .ofText name ∈ names) (hstar : '*' ∉ name) (t : Text) :
    attributeValue? name (a.write ++ t) = attributeValue? name t := by
  rw [attributeValue?_eq, attributeValue?_eq]
  refine h.firstMatch?_append hnames (fun y value hvalue => ?_) t
  obtain ⟨w, blanks, more, rest, hcut, hsame, hblanks, -⟩ := exists_of_givenTo? hvalue
  exact ⟨w, blanks, more, hcut, ⟨_, hname, (matches_ofText hstar).mpr hsame⟩, hblanks⟩

theorem Silent.classExpression?_append (h : a.Silent names) (hnames : Unbroken names)
    (hname : .ofText "className".toList ∈ names) (t : Text) :
    classExpression? (a.write ++ t) = classExpression? t := by
  refine h.firstMatch?_append hnames (fun y value hvalue => ?_) t
  obtain ⟨behind, hbehind, hvalue⟩ := Option.bind_eq_some_iff.mp hvalue
  obtain ⟨after, hafter, -⟩ := Option.bind_eq_some_iff.mp hvalue
  obtain ⟨w, hcut, hsame⟩ := afterName?_eq_some_iff.mp hbehind
  obtain ⟨blanks, more, rfl, hblanks, -⟩ := exists_of_afterEquals? hafter
  exact ⟨w, blanks, more, hcut, ⟨_, hname, (matches_ofText (by decide)).mpr hsame⟩, hblanks⟩

/-- The element is the same with it and without it. -/
theorem Silent.ofAttributes_append (h : a.Silent names) (hnames : Unbroken names)
    (hidentifying : ∀ name ∈ Attributes.identifying, .ofText name ∈ names) (name t : Text)
    (position : Nat) : Tag.ofAttributes name (a.write ++ t) position =
      Tag.ofAttributes name t position := by
  have hvalue : ∀ n ∈ Attributes.identifying,
      attributeValue? n (a.write ++ t) = attributeValue? n t := fun n hn =>
    h.attributeValue?_append hnames (hidentifying n hn) (by revert n; decide) t
  rw [Tag.ofAttributes, Tag.ofAttributes, hvalue _ (by decide), hvalue _ (by decide),
    hvalue _ (by decide), h.classExpression?_append hnames (hidentifying _ (by decide))]

/-- And the tag closes itself with it if it does without it. -/
theorem endsWithSlash_write_append (a : Attribute) (t : Text) :
    endsWithSlash (a.write ++ t) = endsWithSlash t := by
  have hshape : a.write ++ t = (a.gap ++ (a.name ++ '=' :: '"' :: a.value)) ++ '"' :: t := by
    simp [write]
  rw [hshape]
  exact endsWithSlash_append (by decide) (by decide) t

/-- So the tag says the same with it and without it. -/
theorem Silent.unplaced_ofWritten (h : a.Silent names) (hnames : Unbroken names)
    (hidentifying : ∀ name ∈ Attributes.identifying, .ofText name ∈ names) (name t : Text) (p p' : Nat) :
    (TagEvent.ofWritten ⟨false, name, a.write ++ t⟩ p).unplaced =
      (TagEvent.ofWritten ⟨false, name, t⟩ p').unplaced := by
  rw [TagEvent.unplaced_ofWritten ⟨false, name, t⟩ p' p]
  simp only [TagEvent.ofWritten, endsWithSlash_write_append,
    h.ofAttributes_append hnames hidentifying]

end Attribute

/-! ### Places around the attribute -/

variable {code code' : Text} {w : WrittenTag} {m m' : Nat} {rules : List Rule}

/-- Behind its beginning a text that begins with a tag has this tag and those behind it. -/
theorem unplaced_tagsBefore_write (hw : w.WellFormed) (hm : 0 < m) (u : Text) :
    (tagsBefore (w.write ++ u) m).map TagEvent.unplaced =
      (TagEvent.ofWritten w 0).unplaced ::
        ((writtenTags u).filter fun tag => w.write.length + tag.start < m).map
          fun tag => (eventOf tag).unplaced := by
  have htags : writtenTags (w.write ++ u) =
      ⟨0, w.write.length, w⟩ :: (writtenTags u).map (.shift w.write.length) := by
    have hall : Text.matchesFrom writtenTag? 0 (w.write ++ u) =
        ⟨0, w.write.length, w⟩ :: Text.matchesFrom writtenTag? (0 + w.write.length) u :=
      Text.matchesFrom_append_of_some (List.cons_ne_nil _ _) (writtenTag?_write hw u)
    rw [Nat.zero_add, Text.matchesFrom_eq_map writtenTag? w.write.length] at hall
    exact hall
  have hshift : ∀ tag : Text.Found WrittenTag,
      (eventOf (tag.shift w.write.length)).unplaced = (eventOf tag).unplaced := fun tag =>
    TagEvent.unplaced_ofWritten tag.value _ _
  rw [tagsBefore_eq_map, htags, List.filter_cons_of_pos (by simpa using hm),
    Text.filter_map_shift (fun start => start < m), List.map_cons, List.map_cons, List.map_map,
    List.map_map]
  simp only [Function.comp_def, hshift]
  rfl

/-- Two documents with the same tags in front of a place exclude alike behind it, if what stands there
has the same tags by itself. -/
theorem excludes_of_cut (h : writtenTags code =
      writtenTags front ++ Text.matchesFrom writtenTag? front.length t)
    (h' : writtenTags code' = writtenTags front ++ Text.matchesFrom writtenTag? front.length u)
    (hm : (tagsBefore u m').map TagEvent.unplaced = (tagsBefore t m).map TagEvent.unplaced) :
    (Exclusion.ofDocument code' rules).excludes (front.length + m') =
      (Exclusion.ofDocument code rules).excludes (front.length + m) := by
  refine excludes_eq_of_unplacedAt ?_
  rw [unplacedAt_add h (fun _ => start_lt_of_mem_writtenTags),
    unplacedAt_add h' (fun _ => start_lt_of_mem_writtenTags), hm]

/-- A place behind the name of a tag that is not a closing one. No value is open before the tag, no
listed name reaches over the place, and the tag stands in no braces. -/
structure Clear (names : List NamePattern) (front tag back : Text) : Prop where
  apart : ∃ found ∈ writtenTags (front ++ '<' :: (tag ++ back)), found.start = front.length ∧
    found.value.closing = false ∧ found.value.name = tag
  closed : ¬ OpenValue names front
  uncrossed : ¬ Crossed names (front ++ '<' :: tag) back
  unbraced : ∀ x y, front = x ++ '\x7b' :: y → '\x7d' ∉ y → '\x7d' ∉ back

namespace Clear

variable {visible : List NamePattern} {m m' : Nat}

/-- Behind the place stand the attributes of the tag and its end. -/
theorem exists_attributes (h : Clear visible front tag back) :
    ∃ attributes behind, back = attributes ++ '>' :: behind ∧
      WrittenTag.WellFormed ⟨false, tag, attributes⟩ := by
  obtain ⟨found, hfound, hstart, hclosing, rfl⟩ := h.apart
  obtain ⟨before, behind, hcut, hbefore, -⟩ := exists_of_mem_writtenTags hfound
  obtain ⟨-, hread⟩ := Text.matcher_of_mem_scan hfound
  obtain ⟨hw, -⟩ := exists_of_writtenTag? hread
  have hvalue : found.value = ⟨false, found.value.name, found.value.attributes⟩ := by
    rw [← hclosing]
  refine ⟨found.value.attributes, behind, ?_, hvalue ▸ hw⟩
  have hrest := (List.append_inj hcut (by omega)).2
  rw [WrittenTag.write, hclosing] at hrest
  simpa using hrest

/-- In front of the tag the tags are the same with the attribute and without it. -/
theorem writtenTags_eq (h : Clear visible front tag back) (t : Text) :
    writtenTags (front ++ '<' :: t) =
      writtenTags front ++ Text.matchesFrom writtenTag? front.length ('<' :: t) := by
  obtain ⟨found, hfound, hstart, -⟩ := h.apart
  obtain ⟨attributes, behind, rfl, -⟩ := h.exists_attributes
  exact writtenTags_append_start (by simp) hfound hstart t

variable (h : Clear visible front tag back) (ha : a.Silent names) (hnames : Unbroken names)
  (hidentifying : ∀ name ∈ Attributes.identifying, .ofText name ∈ names)
include h ha hnames hidentifying

/-- Within the beginning of the tag the same places are excluded, and behind it those that are as much
further on. -/
theorem excludes_eq (hm : 0 < m) (hplace : (m ≤ tag.length + 1 ∧ m' = m) ∨ m' = m + a.write.length) :
    (Exclusion.ofDocument (front ++ '<' :: (tag ++ (a.write ++ back))) rules).excludes
        (front.length + m') =
      (Exclusion.ofDocument (front ++ '<' :: (tag ++ back)) rules).excludes (front.length + m) := by
  refine excludes_of_cut (h.writtenTags_eq _) (h.writtenTags_eq _) ?_
  obtain ⟨attributes, behind, rfl, hw⟩ := h.exists_attributes
  have hw' : WrittenTag.WellFormed ⟨false, tag, a.write ++ attributes⟩ := by
    refine ⟨hw.name, fun c hc => ?_, ?_⟩
    · obtain ⟨b, gap, hgap⟩ := List.exists_cons_of_ne_nil ha.legible.gap.1
      have hb : isBlank b = true := List.all_eq_true.mp ha.legible.gap.2 b (by simp [hgap])
      obtain rfl : b = c := by simpa [Attribute.write, hgap] using hc
      exact Text.not_isNameChar_of_isBlank hb
    · rw [List.mem_append, not_or]
      exact ⟨ha.brackets '>' (by decide), hw.noEnd⟩
  have htext : '<' :: (tag ++ (attributes ++ '>' :: behind)) =
      WrittenTag.write ⟨false, tag, attributes⟩ ++ behind := by
    simp [WrittenTag.write]
  have htext' : '<' :: (tag ++ (a.write ++ (attributes ++ '>' :: behind))) =
      WrittenTag.write ⟨false, tag, a.write ++ attributes⟩ ++ behind := by
    simp [WrittenTag.write]
  have hlength : (WrittenTag.write ⟨false, tag, a.write ++ attributes⟩).length =
      (WrittenTag.write ⟨false, tag, attributes⟩).length + a.write.length := by
    simp only [WrittenTag.write, List.length_cons, List.length_append]
    omega
  have hbegin : tag.length + 1 < (WrittenTag.write ⟨false, tag, attributes⟩).length := by
    simp only [WrittenTag.write, List.length_cons, List.length_append, List.length_nil]
    omega
  have hm' : 0 < m' := by omega
  rw [htext, htext', unplaced_tagsBefore_write hw hm, unplaced_tagsBefore_write hw' hm',
    ha.unplaced_ofWritten hnames hidentifying tag attributes 0 0]
  congr 2
  refine List.filter_congr fun found _ => ?_
  rw [decide_eq_decide]
  omega

theorem excludes_front {p : Nat} (hp : p < (front ++ '<' :: tag).length) :
    (Exclusion.ofDocument (front ++ '<' :: (tag ++ (a.write ++ back))) rules).excludes p =
      (Exclusion.ofDocument (front ++ '<' :: (tag ++ back)) rules).excludes p := by
  rcases Nat.lt_or_ge front.length p with hlt | hle
  · obtain ⟨m, rfl⟩ := Nat.exists_eq_add_of_lt hlt
    rw [Nat.add_assoc]
    refine h.excludes_eq ha hnames hidentifying (Nat.succ_pos m) (.inl ⟨?_, rfl⟩)
    simp only [List.length_append, List.length_cons] at hp
    omega
  · refine excludes_eq_of_unplacedAt ?_
    rw [unplacedAt, unplacedAt, tagsBefore_of_cut (h.writtenTags_eq _) hle,
      tagsBefore_of_cut (h.writtenTags_eq _) hle]

/-- What a matcher reads alike in front of the attribute, and nothing of within it, is read alike. -/
theorem visibleMatches_eq {matcher : Text → Option (α × Nat)} (hnil : matcher [] = none)
    (hwithin : ∀ y value n, matcher y = some (value, n) → n ≤ y.length)
    (hfront : ∀ u, u = back ∨ u = a.write ++ back → ∀ x y, front ++ '<' :: tag = x ++ y → y ≠ [] →
      matcher (y ++ u) = matcher y)
    (hwrite : ∀ x y, a.write = x ++ y → y ≠ [] → matcher (y ++ back) = none) :
    visibleMatches (.ofDocument (front ++ '<' :: (tag ++ (a.write ++ back))) rules) matcher
        (front ++ '<' :: (tag ++ (a.write ++ back))) =
      visibleMatches (.ofDocument (front ++ '<' :: (tag ++ back)) rules) matcher
        (front ++ '<' :: (tag ++ back)) := by
  have hshape : ∀ u, front ++ '<' :: (tag ++ u) = (front ++ '<' :: tag) ++ u := fun u => by simp
  have hback : ∀ n,
      (Exclusion.ofDocument (front ++ '<' :: (tag ++ (a.write ++ back))) rules).excludes
          ((front ++ '<' :: tag).length + a.write.length + n) =
        (Exclusion.ofDocument (front ++ '<' :: (tag ++ back)) rules).excludes
          ((front ++ '<' :: tag).length + n) := by
    intro n
    have hplace : (front ++ '<' :: tag).length + n = front.length + (tag.length + 1 + n) := by
      simp only [List.length_append, List.length_cons]
      omega
    have hplace' : (front ++ '<' :: tag).length + a.write.length + n =
        front.length + (tag.length + 1 + n + a.write.length) := by
      simp only [List.length_append, List.length_cons]
      omega
    rw [hplace, hplace']
    exact h.excludes_eq ha hnames hidentifying (by omega) (.inr rfl)
  rw [hshape (a.write ++ back), hshape back]
  refine visibleMatches_insert hnil hwithin (hfront back (.inl rfl))
    (hfront (a.write ++ back) (.inr rfl)) hwrite (fun p hp => ?_) fun n => ?_
  · rw [← hshape, ← hshape]
    exact h.excludes_front ha hnames hidentifying hp
  · rw [← hshape, ← hshape]
    exact hback n

omit ha hnames hidentifying in
theorem notMem_tag {c : Char} (hc : isNameChar c = false) (hstart : c ≠ '<') : c ∉ '<' :: tag := by
  obtain ⟨attributes, behind, -, hw⟩ := h.exists_attributes
  rw [List.mem_cons, not_or]
  refine ⟨hstart, fun hmem => ?_⟩
  rw [hw.name.2 c hmem] at hc
  cases hc

theorem textRuns_eq :
    textRuns (.ofDocument (front ++ '<' :: (tag ++ (a.write ++ back))) rules)
        (front ++ '<' :: (tag ++ (a.write ++ back))) =
      textRuns (.ofDocument (front ++ '<' :: (tag ++ back)) rules)
        (front ++ '<' :: (tag ++ back)) := by
  have htag : '>' ∉ '<' :: tag := h.notMem_tag (by decide) (by decide)
  refine congrArg trimmed (h.visibleMatches_eq ha hnames hidentifying rfl
    (fun y _ _ => length_le_of_textRun?)
    (fun u _ x y hsplit hy => textRun?_append htag hsplit hy u) fun x y hsplit hy => ?_)
  obtain ⟨c, y, rfl⟩ := List.exists_cons_of_ne_nil hy
  refine textRun?_of_ne (fun hc => ha.brackets '>' (by decide) ?_) _
  rw [hsplit, hc]
  simp

theorem literalStrings_eq :
    literalStrings (.ofDocument (front ++ '<' :: (tag ++ (a.write ++ back))) rules)
        (front ++ '<' :: (tag ++ (a.write ++ back))) =
      literalStrings (.ofDocument (front ++ '<' :: (tag ++ back)) rules)
        (front ++ '<' :: (tag ++ back)) := by
  have htag : ∀ c ∈ ['\x7b', '\x7d'], c ∉ '<' :: tag := by
    intro c hc
    rcases List.mem_pair.mp hc with rfl | rfl
    · exact h.notMem_tag (by decide) (by decide)
    · exact h.notMem_tag (by decide) (by decide)
  have hbraces : ∀ u, u = back ∨ u = a.write ++ back →
      ∀ x z, front = x ++ '\x7b' :: z → '\x7d' ∉ z → '\x7d' ∉ u := by
    rintro u (rfl | rfl) x z hfront hz
    · exact h.unbraced x z hfront hz
    · rw [List.mem_append, not_or]
      exact ⟨ha.brackets '\x7d' (by decide), h.unbraced x z hfront hz⟩
  rw [literalStrings, literalStrings, h.visibleMatches_eq ha hnames hidentifying rfl
    (fun y _ _ => length_le_of_expression?)
    (fun u hu x y hsplit hy => expression?_append htag (hbraces u hu) hsplit hy)
    fun x y hsplit hy => ?_]
  obtain ⟨c, y, rfl⟩ := List.exists_cons_of_ne_nil hy
  refine expression?_of_ne (fun hc => ha.brackets '\x7b' (by decide) ?_) _
  rw [hsplit, hc]
  simp

theorem attributeStrings_eq {texts : List Text} (hvisible : visible = texts.map .ofText)
    (hlisted : visible ⊆ names) :
    attributeStrings (.ofDocument (front ++ '<' :: (tag ++ (a.write ++ back))) rules) texts
        (front ++ '<' :: (tag ++ (a.write ++ back))) =
      attributeStrings (.ofDocument (front ++ '<' :: (tag ++ back)) rules) texts
        (front ++ '<' :: (tag ++ back)) := by
  rw [attributeStrings, attributeStrings]
  split_ifs with hempty
  · rfl
  rw [namePatterns, if_neg hempty, ← hvisible]
  have hunbroken : Unbroken visible := fun w hw => hnames w (hw.mono hlisted)
  have hcrossed : ∀ u, u = back ∨ u = a.write ++ back →
      ¬ Crossed visible (front ++ '<' :: tag) u := by
    rintro u (rfl | rfl)
    · exact h.uncrossed
    · exact ha.legible.not_crossed hunbroken _ back
  obtain ⟨_, _, -, hw⟩ := h.exists_attributes
  rw [h.visibleMatches_eq ha hnames hidentifying (visibleAttribute?_nil visible)
    (fun y _ _ => length_le_of_visibleAttribute?)
    (fun u hu x y hsplit hy =>
      visibleAttribute?_front hunbroken hw.name h.closed (hcrossed u hu) hsplit hy)
    fun x y hsplit hy => ?_]
  refine visibleAttribute?_of_not_announced fun hannounced => ?_
  obtain ⟨w, blanks, more, hcut, hw, hblanks⟩ := hannounced
  exact ha.not_announced hnames hsplit hy back ⟨w, blanks, more, hcut, hw.mono hlisted, hblanks⟩

end Clear

/-- The names that are looked for. -/
def sought (attributes : Option (List Text)) : List NamePattern :=
  (attributes.getD defaultVisibleAttributes ++ Attributes.identifying).map .ofText

theorem identifying_listable : ∀ name ∈ Attributes.identifying, IsListable name := by decide

/-- With an attribute put in behind the name of a tag the same is extracted: where a comment reaches over
the place, unless the attribute breaks a line, and where none does, if the tag is one of the document
without comments and the place is clear. -/
theorem extract_insert {attributes : Option (List Text)}
    (hnames : ∀ name ∈ attributes.getD defaultVisibleAttributes, IsListable name)
    (selectors : List Json) {a : Attribute} (ha : a.Silent (sought attributes))
    (before : Text) {tag : Text} (htag : IsTagName tag) (behind : Text) :
    (frontOf before ('<' :: (tag ++ behind)) = none → '\n' ∉ a.write →
      extract (before ++ '<' :: (tag ++ (a.write ++ behind))) attributes selectors =
        extract (before ++ '<' :: (tag ++ behind)) attributes selectors) ∧
    ∀ front, frontOf before ('<' :: (tag ++ behind)) = some front →
      Clear ((attributes.getD defaultVisibleAttributes).map .ofText) front tag
        (stripComments behind) →
      extract (before ++ '<' :: (tag ++ (a.write ++ behind))) attributes selectors =
        extract (before ++ '<' :: (tag ++ behind)) attributes selectors := by
  have hinsertable := ha.insertable htag
  constructor
  · intro hnone hbreak
    have hstrip := hinsertable.stripComments_of_none hnone hbreak
    simp only [List.cons_append] at hstrip
    rw [extract, hstrip, extract]
  · intro front hfront hclear
    obtain ⟨hold, hnew⟩ := hinsertable.stripComments_of_frontOf hfront
    simp only [List.cons_append] at hold hnew
    have hunbroken : Unbroken (sought attributes) := by
      intro w hw
      obtain ⟨name, hname, hw⟩ := listed_map_ofText.mp hw
      refine IsListable.matches ?_ hw
      rcases List.mem_append.mp hname with hgiven | hidentifying
      · exact hnames name hgiven
      · exact identifying_listable name hidentifying
    have hidentifying : ∀ name ∈ Attributes.identifying, .ofText name ∈ sought attributes := fun n hn =>
      List.mem_map_of_mem (List.mem_append_right _ hn)
    simp only [extract, hold, hnew, hclear.textRuns_eq ha hunbroken hidentifying,
      hclear.literalStrings_eq ha hunbroken hidentifying,
      hclear.attributeStrings_eq ha hunbroken hidentifying rfl
        (List.map_subset _ (List.subset_append_left _ _))]

/-- The type of what a link leads to. -/
def typeAttribute : Attribute := ⟨" ".toList, "type".toList, "text/html".toList⟩

/-- It changes nothing, and neither would it in a comment. -/
theorem extract_insert_typeAttribute :
    typeAttribute.Silent (sought none) ∧
      extract "<p>Hi</p><a type=\"text/html\">Home</a>".toList none [] =
        extract "<p>Hi</p><a>Home</a>".toList none [] ∧
      extract "/* <a type=\"text/html\">Home</a> */".toList none [] =
        extract "/* <a>Home</a> */".toList none [] := by
  have hsilent : typeAttribute.Silent (sought none) := by
    refine ⟨⟨by decide, by decide, by decide⟩, by decide, fun y hy hlisted => ?_, ?_, by decide⟩
    · obtain ⟨name, hname, hsame⟩ := (listed_iff_sameLetters (by decide)).mp hlisted
      have hnone : ∀ y ∈ typeAttribute.name.tails,
          ∀ name ∈ none.getD defaultVisibleAttributes ++ Attributes.identifying,
            ¬ SameLetters name y := by decide
      exact hnone y ((List.mem_tails _ _).mpr hy) name hname hsame
    · have hbefore : Uncommented " type=\"text".toList := uncommented_of_notMem (by decide)
      have hbehind : Uncommented "html\"".toList := uncommented_of_notMem (by decide)
      exact hbefore.append (hbehind.cons_slash (by decide) (by decide))
  have hlistable : ∀ name ∈ none.getD defaultVisibleAttributes, IsListable name := by decide
  obtain ⟨-, hclear⟩ := extract_insert hlistable [] hsilent "<p>Hi</p>".toList
    (by decide : IsTagName "a".toList) ">Home</a>".toList
  obtain ⟨hcomment, -⟩ := extract_insert hlistable [] hsilent "/* ".toList
    (by decide : IsTagName "a".toList) ">Home</a> */".toList
  refine ⟨hsilent, hclear "<p>Hi</p>".toList (by decide) ⟨?_, not_openValue (by decide), ?_, ?_⟩,
    hcomment (by decide) (by decide)⟩
  · exact ⟨⟨9, 3, ⟨false, "a".toList, []⟩⟩, by decide, by decide⟩
  · rintro ⟨x, y, z, blanks, more, -, -, hback, -⟩
    have hequals : '=' ∉ stripComments ">Home</a>".toList := by decide
    exact hequals (hback ▸ by simp)
  · intro x y hfront
    exact absurd (hfront ▸ by simp : '\x7b' ∈ "<p>Hi</p>".toList) (by decide)

end Localize.Markup
