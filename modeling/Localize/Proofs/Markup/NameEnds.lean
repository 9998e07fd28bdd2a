import Localize.Proofs.Markup.Cut
import Localize.Proofs.Markup.Identity
import Localize.Proofs.Markup.Spelling

/-!
# Names that end as a listed one

Within a tag a visible attribute is read at the longest listed end of an attribute's name: before
every other equals sign of the tag stands a blank, a quote or the end of the tag, which no listed name
holds. So the whole name is read if it is listed, and otherwise the attribute counts under the end of
its name: `data-title` gives what `title` would. A value that is opened before the tag may hide the
attributes within, nothing else can.
-/

namespace Localize.Markup

open Text (isBlank isNameChar sameLetter allBlank)

variable {names : List NamePattern} {name t u x y w ending behind : Text} {a : Attribute}
  {attributes : Attributes}

/-! ### Names of letters, digits, hyphens and stars -/

/-- No text that is listed holds another character than a run does. -/
def Running (names : List NamePattern) : Prop :=
  ∀ w, Listed names w → ∀ c ∈ w, isRunChar c = true

theorem Running.unbroken (h : Running names) : Unbroken names := by
  intro w hw c hc
  rw [Bool.eq_false_iff]
  intro hbarrier
  have hrun := h w hw c hc
  rw [not_isRunChar_of_isBarrier hbarrier] at hrun
  cases hrun

theorem Running.notMem (h : Running names) {c : Char} (hc : isRunChar c = false) :
    ∀ w, Listed names w → c ∉ w := fun w hw hmem => by
  rw [h w hw c hmem] at hc
  cases hc

theorem isRunChar_of_sameLetter {c d : Char} (hc : isNameChar c = true)
    (h : sameLetter c d = true) : isRunChar d = true := by
  rw [sameLetter, decide_eq_true_eq] at h
  obtain ⟨hlower, hname⟩ := foldChar_of_isNameChar hc
  rw [isRunChar, ← h, hlower, hname]

theorem running_namePatterns {names : List Text}
    (hnames : ∀ name ∈ names, ∀ c ∈ name, isNameChar c = true ∨ c = '*') :
    Running (namePatterns names) := by
  intro w hw
  rcases cases_of_listed hw with rfl | ⟨name, hname, hw⟩
  · exact nofun
  · refine forall_of_matches (fun _ hrun => hrun) (fun a ha hstar d hsame => ?_) hw
    exact isRunChar_of_sameLetter ((hnames name hname a ha).resolve_right hstar) hsame

theorem Head.Readable.notMem_write {h : Head} (hh : h.Readable names) (hnames : Running names)
    {c : Char} (hrun : isRunChar c = false) (hbarrier : isBarrier c = false) : c ∉ h.write := by
  rw [Head.write, List.mem_append, not_or]
  refine ⟨hnames.notMem hrun _ hh.name, fun hmem => ?_⟩
  rw [Head.isBarrier_of_mem_signs hh c hmem] at hbarrier
  cases hbarrier

/-! ### What is announced within a tag -/

namespace Attribute

/-- A name behind blanks, without a barrier in it, and a value without quotes and equals signs. -/
structure Legible (a : Attribute) : Prop where
  gap : a.gap ≠ [] ∧ allBlank a.gap = true
  name : a.name ≠ [] ∧ ∀ c ∈ a.name, isBarrier c = false
  value : ∀ c ∈ a.value, isQuote c = false ∧ c ≠ '='

theorem Quoted.legible (h : a.Quoted) : a.Legible := by
  refine ⟨h.gap, ⟨h.name.1, fun c hc => isBarrier_of_isNameChar (h.name.2 c hc)⟩, fun c hc =>
    ⟨h.not_isQuote c hc, ?_⟩⟩
  rintro rfl
  exact h.value '=' hc (by decide)

/-- Nothing is announced before an attribute. -/
theorem Legible.not_announced (h : a.Legible) (hnames : Unbroken names) (hx : '=' ∉ x) {gap : Text}
    (hgap : gap ≠ []) (hblank : allBlank gap = true) (more : Text) :
    ¬ Announced names (x ++ (gap ++ (a.name ++ '=' :: more))) := by
  obtain ⟨gap, b, rfl⟩ := (List.eq_nil_or_concat gap).resolve_left hgap
  rw [List.concat_eq_append] at hblank ⊢
  have hall : ∀ c ∈ gap ++ [b], isBlank c = true := List.all_eq_true.mp hblank
  have hfront : '=' ∉ x ++ gap := by
    rw [List.mem_append, not_or]
    exact ⟨hx, fun hmem => absurd (hall '=' (List.mem_append_left _ hmem)) (by decide)⟩
  have hnot := not_announced_of_gap hnames hfront (hall b (by simp)) h.name.1 h.name.2 more
  simpa using hnot

/-- In an attribute it is an end of its name that is announced. -/
theorem Legible.exists_of_announced (h : a.Legible) (hnames : Unbroken names)
    (heq : a.write ++ u = x ++ t) (hx : x.length < a.write.length) (ht : Announced names t) :
    ∃ w y, a.name = w ++ y ∧ x = a.gap ++ w ∧ t = y ++ '=' :: '"' :: (a.value ++ '"' :: u) := by
  rw [write_append] at heq
  rcases List.append_eq_append_iff.mp heq with ⟨d, rfl, hd⟩ | ⟨gap, hgap, rfl⟩
  · -- behind the blanks
    rcases List.append_eq_append_iff.mp hd with ⟨e, rfl, he⟩ | ⟨y, hname, rfl⟩
    · cases e with
      | nil => exact ⟨a.name, [], by simp, by simp, he.symm⟩
      | cons c e =>
        obtain ⟨rfl, he⟩ := List.cons.inj he
        have hquoted : '"' :: (a.value ++ ['"']) ++ u = e ++ t := by simpa using he
        rcases List.append_eq_append_iff.mp hquoted with ⟨f, rfl, rfl⟩ | ⟨f, hf, rfl⟩
        · simp only [write, List.length_append, List.length_cons] at hx
          omega
        · rcases List.eq_nil_or_concat f with rfl | ⟨f, c, rfl⟩
          · have hlength := congrArg List.length hf
            simp only [write, List.length_append, List.length_cons, List.length_nil] at hx hlength
            omega
          · -- The closing quote comes before the next equals sign.
            rw [List.concat_eq_append] at hf ht
            have hquotes : '=' ∉ '"' :: (a.value ++ ['"']) := by
              simp only [List.mem_cons, List.mem_append, List.not_mem_nil, or_false, not_or]
              exact ⟨by decide, fun hmem => (h.value '=' hmem).2 rfl, by decide⟩
            have hequals : '=' ∉ f := fun hmem => hquotes (hf ▸ by simp [hmem])
            obtain rfl : '"' = c := by simpa [List.getLast?_cons] using congrArg List.getLast? hf
            rw [List.append_assoc] at ht
            exact absurd ht (not_announced_of_stop hnames hequals
              (fun w hw => hnames.notMem (by decide) hw) (by decide) (by decide) u)
    · exact ⟨d, y, hname, rfl, rfl⟩
  · cases gap with
    | nil => exact ⟨[], a.name, rfl, by simpa using hgap.symm, rfl⟩
    | cons c gap =>
      have hblank : allBlank (c :: gap) = true :=
        List.all_eq_true.mpr fun d hd => List.all_eq_true.mp h.gap.2 d (by simp [hgap, hd])
      exact absurd ht
        (h.not_announced hnames (x := []) List.not_mem_nil (List.cons_ne_nil c gap) hblank _)

end Attribute

/-- What stands behind the attributes of a tag up to its end. -/
def IsEnding (ending : Text) : Prop := ending = ['>'] ∨ ending = ['/', '>']

/-- The name of an attribute begins at a place, the attributes being written from `start` on. -/
def Attributes.NameAt (attributes : Attributes) (start : Nat) (a : Attribute) (place : Nat) : Prop :=
  ∃ front back, attributes.items = front ++ a :: back ∧
    place = start + (front.flatMap Attribute.write ++ a.gap).length

namespace Attributes

/-- Nothing is announced behind the last attribute of a tag. -/
theorem Quoted.not_announced_trailing (h : attributes.Quoted) (hnames : Running names)
    (hending : IsEnding ending) (hx : '=' ∉ x) {y : Text}
    (hy : y <:+ attributes.trailing ++ ending) (hne : y ≠ []) (behind : Text) :
    ¬ Announced names (x ++ (y ++ behind)) := by
  obtain ⟨y, c, rfl⟩ := (List.eq_nil_or_concat y).resolve_left hne
  rw [List.concat_eq_append] at hy ⊢
  obtain ⟨front, hfront⟩ := hy
  obtain rfl : '>' = c := by
    have hlast := congrArg List.getLast? hfront
    rcases hending with rfl | rfl
    · simpa using hlast.symm
    · simpa [List.getLast?_append] using hlast.symm
  have hequals : '=' ∉ x ++ y := by
    have hall : '=' ∉ attributes.trailing ++ ending := by
      rw [List.mem_append, not_or]
      refine ⟨h.notMem_trailing, ?_⟩
      rcases hending with rfl | rfl <;> decide
    rw [List.mem_append, not_or]
    exact ⟨hx, fun hmem => hall (hfront ▸ by simp [hmem])⟩
  have hnot := not_announced_of_stop (c := '>') hnames.unbroken hequals (hnames.notMem (by decide))
    (by decide) (by decide) behind
  simpa using hnot

/-- Nothing is announced before the attributes of a tag. -/
theorem Quoted.not_announced (h : attributes.Quoted) (hnames : Running names)
    (hending : IsEnding ending) (hx : '=' ∉ x) (behind : Text) :
    ¬ Announced names (x ++ (attributes.write ++ (ending ++ behind))) := by
  obtain ⟨items, trailing⟩ := attributes
  cases items with
  | nil =>
    have hne : trailing ++ ending ≠ [] := by rcases hending with rfl | rfl <;> simp
    have hnot := h.not_announced_trailing hnames hending hx (List.suffix_refl _) hne behind
    simpa [write] using hnot
  | cons a items =>
    have ha := h.items a List.mem_cons_self
    have hnot := ha.legible.not_announced hnames.unbroken hx ha.gap.1 ha.gap.2
      ('"' :: (a.value ++ '"' :: ((⟨items, trailing⟩ : Attributes).write ++ (ending ++ behind))))
    rw [← Attribute.write_append] at hnot
    simpa [write] using hnot

theorem Quoted.exists_of_announced (h : attributes.Quoted) (hnames : Running names)
    (hending : IsEnding ending) (heq : attributes.write ++ (ending ++ behind) = x ++ t)
    (hx : x.length < (attributes.write ++ ending).length) (ht : Announced names t) :
    ∃ front a back w y u, attributes.items = front ++ a :: back ∧ a.name = w ++ y ∧
      x = front.flatMap Attribute.write ++ (a.gap ++ w) ∧
      t = y ++ '=' :: '"' :: (a.value ++ '"' :: u) := by
  obtain ⟨items, trailing⟩ := attributes
  induction items generalizing x with
  | nil =>
    have hwrite : (⟨[], trailing⟩ : Attributes).write = trailing := rfl
    rw [hwrite] at heq hx
    rw [← List.append_assoc] at heq
    rcases List.append_eq_append_iff.mp heq with ⟨d, rfl, -⟩ | ⟨y, hy, rfl⟩
    · rw [List.length_append] at hx
      omega
    · have hne : y ≠ [] := by
        rintro rfl
        rw [List.append_nil] at hy
        exact absurd hx (by rw [hy]; exact Nat.lt_irrefl _)
      exact absurd ht
        (h.not_announced_trailing hnames hending (x := []) List.not_mem_nil ⟨x, hy.symm⟩ hne behind)
  | cons item items ih =>
    have hrest : Quoted ⟨items, trailing⟩ :=
      ⟨fun a ha => h.items a (List.mem_cons_of_mem item ha), h.trailing⟩
    have hitem := h.items item List.mem_cons_self
    have hwrite : (⟨item :: items, trailing⟩ : Attributes).write =
        item.write ++ (⟨items, trailing⟩ : Attributes).write := by
      simp [write]
    rw [hwrite] at heq hx
    rw [List.append_assoc] at heq
    by_cases hlength : x.length < item.write.length
    · obtain ⟨w, y, hname, rfl, rfl⟩ :=
        hitem.legible.exists_of_announced hnames.unbroken heq hlength ht
      exact ⟨[], item, items, w, y, _, rfl, hname, rfl, rfl⟩
    · have hprefix : item.write <+: x :=
        List.prefix_of_prefix_length_le ⟨_, rfl⟩ ⟨t, heq.symm⟩ (Nat.le_of_not_lt hlength)
      obtain ⟨x, rfl⟩ := hprefix
      rw [List.append_assoc, List.append_cancel_left_eq] at heq
      obtain ⟨front, a, back, w, y, u, hitems, hname, rfl, rfl⟩ := ih hrest heq (by
        simp only [List.length_append] at hx ⊢
        omega)
      refine ⟨item :: front, a, back, w, y, u, ?_, hname, ?_, rfl⟩
      · rw [List.cons_append, ← hitems]
      · rw [List.flatMap_cons, List.append_assoc]

theorem NameAt.name_le {start place : Nat} (h : attributes.NameAt start a place) :
    place + a.name.length ≤ start + attributes.write.length := by
  obtain ⟨front, back, hitems, rfl⟩ := h
  simp only [write, hitems, List.flatMap_append, List.flatMap_cons, List.length_append,
    Attribute.write]
  omega

/-- Two attributes of a tag are the same, or one ends before the name of the other. -/
theorem NameAt.cases {start place place' : Nat} {a a' : Attribute}
    (h : attributes.NameAt start a place) (h' : attributes.NameAt start a' place') :
    (a = a' ∧ place = place') ∨ place + (a.name.length + a.value.length + 3) ≤ place' ∨
      place' + (a'.name.length + a'.value.length + 3) ≤ place := by
  obtain ⟨front, back, hitems, rfl⟩ := h
  obtain ⟨front', back', hitems', rfl⟩ := h'
  -- an attribute behind another has that one before its name
  have hbehind : ∀ {front front' back : List Attribute} {a a' : Attribute},
      front' = front ++ a :: back →
      start + (front.flatMap Attribute.write ++ a.gap).length + (a.name.length + a.value.length + 3) ≤
        start + (front'.flatMap Attribute.write ++ a'.gap).length := by
    rintro front front' back a a' rfl
    simp only [List.flatMap_append, List.flatMap_cons, List.length_append, Attribute.write,
      List.length_cons, List.length_nil]
    omega
  rw [hitems] at hitems'
  rcases List.append_eq_append_iff.mp hitems' with ⟨d, hd, hrest⟩ | ⟨d, hd, hrest⟩
  · cases d with
    | nil =>
      rw [List.append_nil] at hd
      obtain ⟨rfl, -⟩ := List.cons.inj hrest
      exact .inl ⟨rfl, by rw [hd]⟩
    | cons e d =>
      obtain ⟨rfl, -⟩ := List.cons.inj hrest
      exact .inr (.inl (hbehind hd))
  · cases d with
    | nil =>
      rw [List.append_nil] at hd
      obtain ⟨rfl, -⟩ := List.cons.inj hrest
      exact .inl ⟨rfl, by rw [hd]⟩
    | cons e d =>
      obtain ⟨rfl, -⟩ := List.cons.inj hrest
      exact .inr (.inr (hbehind hd))

end Attributes

/-- The name `w ++ y` has the listed end `y` and no longer one. -/
structure LongestListed (names : List NamePattern) (w y : Text) : Prop where
  listed : Listed names y
  longest : ∀ v z, w = v ++ z → z ≠ [] → ¬ Listed names (z ++ y)

/-- An attribute as it is found at a place under a name. -/
def Attribute.foundAs (a : Attribute) (name : Text) (place : Nat) : Text.Found WrittenAttribute :=
  ⟨place, name.length + a.value.length + 3, ⟨name, a.value⟩⟩

/-! ### A tag in a document -/

/-- A tag that opens an element, as it stands in a document. -/
structure PlacedTag where
  before : Text
  name : Text
  attributes : Attributes
  ending : Text
  behind : Text

namespace PlacedTag

def code (p : PlacedTag) : Text :=
  p.before ++ '<' :: (p.name ++ (p.attributes.write ++ (p.ending ++ p.behind)))

/-- The place behind the name of the tag. -/
def start (p : PlacedTag) : Nat := p.before.length + 1 + p.name.length

structure WellFormed (p : PlacedTag) : Prop where
  name : IsName p.name
  attributes : p.attributes.Quoted
  ending : IsEnding p.ending

variable {p : PlacedTag} {n length place : Nat} {value : WrittenAttribute}

/-- What is read within the tag is the value of an attribute at an end of its name. -/
theorem exists_of_reading (hp : p.WellFormed) (hnames : Running names) (hn : p.before.length < n)
    (hn' : n < p.start + (p.attributes.write ++ p.ending).length)
    (hread : visibleAttribute? names (p.code.drop n) = some (value, length)) :
    ∃ a place w y, p.attributes.NameAt p.start a place ∧ a.name = w ++ y ∧ n = place + w.length ∧
      Listed names y ∧ a.value ≠ [] ∧ value = ⟨y, a.value⟩ ∧
      length = y.length + a.value.length + 3 := by
  obtain ⟨m, rfl⟩ := Nat.exists_eq_add_of_lt hn
  have hdrop : p.code.drop (p.before.length + m + 1) =
      (p.name ++ (p.attributes.write ++ (p.ending ++ p.behind))).drop m := by
    have hcode : p.code = (p.before ++ ['<']) ++
        (p.name ++ (p.attributes.write ++ (p.ending ++ p.behind))) := by
      simp [code]
    have hlength : p.before.length + m + 1 = (p.before ++ ['<']).length + m := by
      simp only [List.length_append, List.length_singleton]
      omega
    rw [hcode, hlength, List.drop_length_add_append]
  obtain ⟨s, hs, ⟨u, hu⟩, hvalue⟩ := Spelling.exists_of_visibleAttribute? hread
  have hannounced : Announced names (p.code.drop (p.before.length + m + 1)) := hu ▸ hs.announced u
  generalize p.code.drop (p.before.length + m + 1) = t at *
  generalize hx : (p.name ++ (p.attributes.write ++ (p.ending ++ p.behind))).take m = x
  have hsplit : p.name ++ (p.attributes.write ++ (p.ending ++ p.behind)) = x ++ t := by
    rw [hdrop, ← hx, List.take_append_drop]
  rcases List.append_eq_append_iff.mp hsplit with ⟨x', rfl, hrest⟩ | ⟨d, hd, rfl⟩
  · have hlength : p.name.length + x'.length = m := by
      have htake := congrArg List.length hx
      simp only [List.length_take, List.length_append, start] at htake hn'
      omega
    obtain ⟨front, a, back, w, y, u', hitems, hname, rfl, rfl⟩ :=
      hp.attributes.exists_of_announced hnames hp.ending hrest
        (by simp only [start] at hn'; omega) hannounced
    have ha := hp.attributes.items a (by simp [hitems])
    have hy : ∀ c ∈ y, isBarrier c = false := fun c hc =>
      ha.legible.name.2 c (hname ▸ List.mem_append_right w hc)
    obtain ⟨hlisted, hne, rfl⟩ :=
      Spelling.eq_of_write_append hnames.unbroken hs hy rfl ha.not_isQuote rfl hu.symm
    refine ⟨a, _, w, y, ⟨front, back, hitems, rfl⟩, hname, ?_, hlisted, hne, ?_, ?_⟩
    · simp only [start, List.length_append] at hlength ⊢
      omega
    · exact (Prod.mk.inj hvalue).1
    · rw [(Prod.mk.inj hvalue).2]
      simp [Spelling.write, Head.write, Head.signs]
      omega
  · have hequals : '=' ∉ d := fun hmem => absurd (hp.name '=' (hd ▸ List.mem_append_right x hmem)) (by decide)
    exact absurd hannounced (hp.attributes.not_announced hnames hp.ending hequals p.behind)

theorem code_of_nameAt (p : PlacedTag) (h : p.attributes.NameAt p.start a place)
    (hname : a.name = w ++ y) : ∃ x u,
      p.code = x ++ (y ++ '=' :: '"' :: (a.value ++ '"' :: u)) ∧ x.length = place + w.length := by
  obtain ⟨front, back, hitems, rfl⟩ := h
  refine ⟨p.before ++ '<' :: (p.name ++ (front.flatMap Attribute.write ++ (a.gap ++ w))),
    back.flatMap Attribute.write ++ (p.attributes.trailing ++ (p.ending ++ p.behind)), ?_, ?_⟩
  · simp [code, Attributes.write, hitems, Attribute.write, hname]
  · simp only [start, List.length_append, List.length_cons]
    omega

theorem quoted_of_nameAt (hp : p.WellFormed) (h : p.attributes.NameAt p.start a place) :
    a.Quoted := by
  obtain ⟨front, back, hitems, -⟩ := h
  exact hp.attributes.items a (by simp [hitems])

/-- At a listed end of its name an attribute is read if it has a value. -/
theorem reading_of_nameAt (hp : p.WellFormed) (hnames : Running names)
    (h : p.attributes.NameAt p.start a place) (hname : a.name = w ++ y) (hy : Listed names y)
    (hvalue : a.value ≠ []) : visibleAttribute? names (p.code.drop (place + w.length)) =
      some (⟨y, a.value⟩, y.length + a.value.length + 3) := by
  obtain ⟨x, u, hcode, hx⟩ := p.code_of_nameAt h hname
  let s : Spelling := ⟨⟨y, [], [], '"'⟩, a.value, '"'⟩
  have hs : s.Readable names :=
    ⟨⟨hy, rfl, rfl, rfl⟩, ⟨hvalue, (quoted_of_nameAt hp h).not_isQuote⟩, rfl⟩
  have hlength : s.write.length = y.length + a.value.length + 3 := by
    simp [s, Spelling.write, Head.write, Head.signs]
    omega
  have hread := Spelling.visibleAttribute?_write hnames.unbroken hs u
  rw [hlength, Spelling.write_append] at hread
  rw [hcode, ← hx, List.drop_left]
  exact hread

/-- What is found at an end of a name is found at the longest that is listed. -/
theorem longest_of_mem (hp : p.WellFormed) (hnames : Running names)
    {f : Text.Found WrittenAttribute}
    (hf : f ∈ Text.scan (fun _ t => visibleAttribute? names t) p.code)
    (h : p.attributes.NameAt p.start a place) (hname : a.name = w ++ y) (hvalue : a.value ≠ [])
    (hstart : f.start = place + w.length) {v z : Text} (hw : w = v ++ z) (hz : z ≠ []) :
    ¬ Listed names (z ++ y) := by
  intro hlonger
  have hcut : a.name = v ++ (z ++ y) := by rw [hname, hw, List.append_assoc]
  obtain ⟨x, u, hcode, hx⟩ := p.code_of_nameAt h hcut
  have hplace : place + v.length ≤ p.code.length := by
    rw [hcode, List.length_append, hx]
    exact Nat.le_add_right _ _
  obtain ⟨g, hg, hbegin, hend⟩ := Spelling.exists_mem_scan hplace
    (reading_of_nameAt hp hnames h hcut hlonger hvalue)
  have hzpos := List.length_pos_iff.mpr hz
  have hlength : w.length = v.length + z.length := by rw [hw, List.length_append]
  have hbefore := Text.end_le_of_mem_scan hg hf (by omega)
  -- The match that reaches over the longer end closes with a quote, and no name holds one.
  obtain ⟨hpos, c, hc, hquote⟩ := Spelling.getElem?_of_mem_scan hg
  have hmem : c ∈ z := by
    rw [hcode, List.append_assoc, List.getElem?_append_right (by omega),
      List.getElem?_append_left (by omega)] at hc
    exact List.mem_of_getElem? hc
  have hnot := (quoted_of_nameAt hp h).legible.name.2 c (by simp [hcut, hmem])
  rw [isBarrier_of_isQuote hquote] at hnot
  cases hnot

/-- Nothing reaches over the beginning of the tag, unless a value is open before it, and nothing begins
there. -/
theorem before_lt_of_reach (hnames : Running names) (hopen : ¬ OpenValue names p.before)
    {f : Text.Found WrittenAttribute}
    (hf : f ∈ Text.scan (fun _ t => visibleAttribute? names t) p.code)
    (hend : p.before.length < f.start + f.length) : p.before.length < f.start := by
  rcases Nat.lt_trichotomy f.start p.before.length with hlt | heq | hgt
  · exfalso
    rcases Spelling.cases_of_reach hf hlt hend with ⟨x, y, head, c, z, -, -, hhead, hcut, more, hc⟩ | h
    · obtain ⟨rfl, -⟩ := List.cons.inj hc
      have hmem : '<' ∈ head.write := by simp [hcut]
      exact hhead.notMem_write hnames (by decide) (by decide) hmem
    · exact hopen h
  · exfalso
    obtain ⟨s, x, u, hcode, hx, hs, -, -⟩ := Spelling.exists_of_mem_scan hf
    rw [code] at hcode
    have hannounced := hs.announced u
    rw [← (List.append_inj hcode (by omega)).2] at hannounced
    exact not_announced_of_stop (c := '<') hnames.unbroken (x := []) List.not_mem_nil
      (hnames.notMem (by decide)) (by decide) (by decide) _ hannounced
  · exact hgt

/-- The longest listed end of a name is found, unless a value is open before the tag. -/
theorem mem_of_longest (hp : p.WellFormed) (hnames : Running names)
    (hopen : ¬ OpenValue names p.before) (h : p.attributes.NameAt p.start a place)
    (hname : a.name = w ++ y) (hlongest : LongestListed names w y) (hvalue : a.value ≠ []) :
    a.foundAs y (place + w.length) ∈
      Text.scan (fun _ t => visibleAttribute? names t) p.code := by
  have hread := reading_of_nameAt hp hnames h hname hlongest.listed hvalue
  obtain ⟨x, u, hcode, hx⟩ := p.code_of_nameAt h hname
  have hplace : place + w.length ≤ p.code.length := by
    rw [hcode, List.length_append, hx]
    exact Nat.le_add_right _ _
  have hstart : p.start ≤ place := by
    obtain ⟨front, back, -, rfl⟩ := h
    exact Nat.le_add_right _ _
  obtain ⟨g, hg, hbegin, hend⟩ := Spelling.exists_mem_scan hplace hread
  rcases Nat.lt_or_eq_of_le hbegin with hlt | heq
  · exfalso
    have hwithin := before_lt_of_reach hnames hopen hg (by simp only [start] at hstart; omega)
    obtain ⟨-, hgread⟩ := Text.matcher_of_mem_scan hg
    have hle := h.name_le
    have hsum : a.name.length = w.length + y.length := by rw [hname, List.length_append]
    obtain ⟨a', place', w', y', h', hname', hplace', hy', -, -, hreach⟩ :=
      exists_of_reading hp hnames hwithin (by rw [List.length_append]; omega) hgread
    have hsum' : a'.name.length = w'.length + y'.length := by rw [hname', List.length_append]
    rcases h.cases h' with ⟨rfl, rfl⟩ | hbehind | hbefore
    · -- It would begin at a longer end of the same name.
      obtain ⟨z, hz⟩ : w' <+: w :=
        List.prefix_of_prefix_length_le ⟨y', hname'.symm⟩ ⟨y, hname.symm⟩ (by omega)
      have hy'z : y' = z ++ y := by
        rw [hname, ← hz, List.append_assoc, List.append_cancel_left_eq] at hname'
        exact hname'.symm
      refine hlongest.longest w' z hz.symm ?_ (hy'z ▸ hy')
      rintro rfl
      rw [List.append_nil] at hz
      rw [← hz] at hlt
      omega
    · omega
    · omega
  · rw [Spelling.eq_of_mem_scan hg heq hread] at hg
    exact hg

end PlacedTag

/-! ### Tags of a document -/

theorem exists_placedTag {code : Text} {tag : Text.Found WrittenTag} (htag : tag ∈ writtenTags code)
    (hopening : tag.value.closing = false) (hattributes : attributes.Quoted)
    (hwrite : tag.value.attributes = attributes.write ∨
      tag.value.attributes = attributes.write ++ ['/']) :
    ∃ p : PlacedTag, p.WellFormed ∧ p.code = code ∧ p.attributes = attributes ∧
      p.before = code.take tag.start ∧ p.before.length = tag.start ∧
      p.start = tag.start + 1 + tag.value.name.length ∧
      tag.start + tag.length = p.start + (p.attributes.write ++ p.ending).length := by
  obtain ⟨before, behind, hcode, hstart, hlength⟩ := exists_of_mem_writtenTags htag
  have hname : IsName tag.value.name := by
    obtain ⟨hle, hread⟩ := Text.matcher_of_mem_scan htag
    exact (exists_of_writtenTag? hread).1.name.2
  obtain ⟨ending, hending, hend⟩ : ∃ ending, IsEnding ending ∧
      tag.value.attributes ++ ['>'] = attributes.write ++ ending := by
    rcases hwrite with h | h
    · exact ⟨['>'], .inl rfl, by rw [h]⟩
    · exact ⟨['/', '>'], .inr rfl, by simp [h]⟩
  have htext : tag.value.write = '<' :: (tag.value.name ++ (attributes.write ++ ending)) := by
    rw [WrittenTag.write, hopening, hend]
    rfl
  refine ⟨⟨before, tag.value.name, attributes, ending, behind⟩, ⟨hname, hattributes, hending⟩,
    ?_, rfl, ?_, hstart, ?_, ?_⟩
  · rw [hcode, htext]
    simp [PlacedTag.code]
  · rw [hcode, ← hstart, List.take_left]
  · rw [← hstart, PlacedTag.start]
  · rw [hlength, htext, ← hstart, PlacedTag.start]
    simp only [List.length_append, List.length_cons]
    omega

/-- Whatever names of letters, digits, hyphens and stars are listed: what is found within a tag whose
attributes are quoted is an attribute with a value under the longest listed end of its name, which is
its whole name if and only if that is listed. And each attribute that has a value and a listed end is
found so, unless a value is open before the tag. -/
theorem visibleAttributes_within {names : List Text}
    (hnames : ∀ name ∈ names, ∀ c ∈ name, isNameChar c = true ∨ c = '*') {code : Text}
    {tag : Text.Found WrittenTag} (htag : tag ∈ writtenTags code)
    (hopening : tag.value.closing = false) {attributes : Attributes}
    (hattributes : attributes.Quoted)
    (hwrite : tag.value.attributes = attributes.write ∨
      tag.value.attributes = attributes.write ++ ['/']) :
    (∀ f ∈ visibleAttributes names code, tag.start < f.start → f.start < tag.start + tag.length →
      ∃ a place w y, attributes.NameAt (tag.start + 1 + tag.value.name.length) a place ∧
        a.name = w ++ y ∧ a.value ≠ [] ∧ LongestListed (namePatterns names) w y ∧
        (w = [] ↔ Listed (namePatterns names) a.name) ∧ f = a.foundAs y (place + w.length)) ∧
    (¬ OpenValue (namePatterns names) (code.take tag.start) → ∀ a place w y,
      attributes.NameAt (tag.start + 1 + tag.value.name.length) a place → a.name = w ++ y →
        a.value ≠ [] → LongestListed (namePatterns names) w y →
          a.foundAs y (place + w.length) ∈ visibleAttributes names code) := by
  have hrunning := running_namePatterns hnames
  obtain ⟨p, hp, rfl, rfl, hbefore, hstart, hplace, hstop⟩ :=
    exists_placedTag htag hopening hattributes hwrite
  rw [← hplace, ← hbefore]
  constructor
  · intro f hf hfstart hfstop
    obtain ⟨-, hread⟩ := Text.matcher_of_mem_scan hf
    obtain ⟨a, place, w, y, h, hname, hn, hlisted, hvalue, hsame, hlength⟩ :=
      PlacedTag.exists_of_reading hp hrunning (by omega) (by omega) hread
    have hlongest : ∀ v z, w = v ++ z → z ≠ [] → ¬ Listed (namePatterns names) (z ++ y) :=
      fun v z hw hz => PlacedTag.longest_of_mem hp hrunning hf h hname hvalue hn hw hz
    refine ⟨a, place, w, y, h, hname, hvalue, ⟨hlisted, hlongest⟩, ⟨?_, fun hall => ?_⟩, ?_⟩
    · rintro rfl
      exact hname ▸ hlisted
    · by_contra hw
      exact hlongest [] w rfl hw (hname ▸ hall)
    · obtain ⟨start, length, value⟩ := f
      obtain rfl : start = place + w.length := hn
      obtain rfl : value = ⟨y, a.value⟩ := hsame
      obtain rfl : length = y.length + a.value.length + 3 := hlength
      rfl
  · intro hopen a place w y h hname hvalue hlongest
    exact PlacedTag.mem_of_longest hp hrunning hopen h hname hlongest hvalue

/-- A paragraph with a data attribute. -/
def dataTitle : Attributes := ⟨[⟨" ".toList, "data-title".toList, "x1".toList⟩], []⟩

theorem longestListed_title : LongestListed (namePatterns ["title".toList]) "data-".toList
    "title".toList := by
  have hlisted : ∀ w, Listed (namePatterns ["title".toList]) w ↔ SameLetters "title".toList w :=
    fun w => by
      rw [listed_namePatterns (by decide) (by decide)]
      simp only [List.mem_singleton, exists_eq_left]
  constructor
  · exact (hlisted _).mpr (by decide)
  · intro v z _ hz hlonger
    have hlength := List.Forall₂.length_eq ((hlisted _).mp hlonger)
    rw [List.length_append] at hlength
    exact hz (List.length_eq_zero_iff.mp (by omega))

/-- Where titles are visible the value of `data-title` is found: its name ends as a listed one. -/
theorem visibleAttributes_within_dataTitle :
    dataTitle.Quoted ∧ ⟨8, 10, ⟨"title".toList, "x1".toList⟩⟩ ∈
      visibleAttributes ["title".toList] "<p data-title=\"x1\">Hi</p>".toList := by
  have hquoted : dataTitle.Quoted := by decide
  have htag : ⟨0, 19, ⟨false, "p".toList, dataTitle.write⟩⟩ ∈
      writtenTags "<p data-title=\"x1\">Hi</p>".toList := by decide
  have hnames : ∀ name ∈ ["title".toList], ∀ c ∈ name, isNameChar c = true ∨ c = '*' := by decide
  obtain ⟨-, hfound⟩ := visibleAttributes_within hnames htag rfl hquoted (.inl rfl)
  exact ⟨hquoted, hfound (not_openValue nofun) ⟨" ".toList, "data-title".toList, "x1".toList⟩ 3
    "data-".toList "title".toList ⟨[], [], rfl, rfl⟩ rfl (by decide) longestListed_title⟩

end Localize.Markup
