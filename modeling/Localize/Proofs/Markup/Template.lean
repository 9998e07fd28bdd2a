import Localize.Proofs.Markup.Backtick

/-!
# Templates with interpolations

An expression ends at its first closing brace, and the first closing brace of a template is that of
its first interpolation. So an expression that is nothing but a template ends there, without the second
backtick: a template is read if it has no interpolation, and if it has one, none of its static parts
is. Behind the first interpolation the others are expressions of their own, without literals.
-/

namespace Localize.Markup

/-- An interpolation with the static part behind it. -/
structure Hole where
  inside : Text
  behind : Text

/-- The static part at the beginning and the interpolations. -/
structure Template where
  first : Text
  holes : List Hole

def Hole.write (hole : Hole) : Text :=
  '$' :: '\x7b' :: (hole.inside ++ '\x7d' :: hole.behind)

/-- An expression that is nothing but a template. -/
def Template.write (t : Template) : Text :=
  '\x7b' :: '\x60' :: (t.first ++ (t.holes.flatMap Hole.write ++ ['\x60', '\x7d']))

/-- A text without quotes, braces and backslashes. -/
def IsInert (t : Text) : Prop := ∀ c ∈ t, c ∉ ['\x60', '\\', '\x7b', '\x7d', '\x22', '\x27']

instance : DecidablePred IsInert := fun t =>
  inferInstanceAs (Decidable (∀ c ∈ t, c ∉ ['\x60', '\\', '\x7b', '\x7d', '\x22', '\x27']))

structure Template.WellFormed (t : Template) : Prop where
  first : IsInert t.first
  holes : ∀ hole ∈ t.holes, IsInert hole.inside ∧ IsInert hole.behind

/-- What stands in front of the first closing brace. -/
def Template.block (t : Template) : Text :=
  match t.holes with
  | [] => '\x60' :: (t.first ++ ['\x60'])
  | hole :: _ => '\x60' :: (t.first ++ '$' :: '\x7b' :: hole.inside)

/-- What stands behind it. -/
def Template.tail (t : Template) : Text :=
  match t.holes with
  | [] => []
  | hole :: holes => hole.behind ++ (holes.flatMap Hole.write ++ ['\x60', '\x7d'])

/-- A text further on. -/
def PlacedText.shift (n : Nat) (p : PlacedText) : PlacedText := { p with place := p.place + n }

variable {t : Template} {hole : Hole} {pos : Nat} {code front behind inside outer text u : Text}

theorem IsInert.notMem (h : IsInert text) {c : Char}
    (hc : c ∈ ['\x60', '\\', '\x7b', '\x7d', '\x22', '\x27']) : c ∉ text :=
  fun hmem => h c hmem hc

theorem Template.write_eq (t : Template) : t.write = '\x7b' :: (t.block ++ '\x7d' :: t.tail) := by
  obtain ⟨first, holes⟩ := t
  cases holes with
  | nil => simp [write, block, tail]
  | cons hole holes => simp [write, block, tail, Hole.write]

/-! ### The literals of a template -/

theorem literals_of_notMem {quote : Char} (h : quote ∉ text) : literals quote text = [] :=
  Text.readings_of_forall rfl fun _ hc _ => if_neg (ne_of_mem_of_not_mem hc h)

theorem templateLiterals_eq (text : Text) : templateLiterals text =
    literals '\x60' text ++ (Text.readings template? text).flatMap staticParts := by
  rw [templateLiterals, Text.readings, List.flatMap_map]
  rfl

theorem expressionLiterals_of_inert (h : IsInert text) : expressionLiterals text = [] := by
  rw [expressionLiterals, templateLiterals_eq, literals_of_notMem (h.notMem (by decide)),
    literals_of_notMem (h.notMem (by decide)), literals_of_notMem (h.notMem (by decide)),
    readings_template?_of_notMem (h.notMem (by decide))]
  rfl

namespace Template.WellFormed

/-- Neither a quote nor a closing brace stands in the expression, and no backslash. -/
theorem notMem_block (ht : t.WellFormed) {c : Char} (hc : c ∈ ['\\', '\x7d', '\x22', '\x27']) :
    c ∉ t.block := by
  have hmarks : ∀ d ∈ ['\\', '\x7d', '\x22', '\x27'],
      d ∈ ['\x60', '\\', '\x7b', '\x7d', '\x22', '\x27'] ∧ d ∉ ['\x60', '$', '\x7b'] := by decide
  obtain ⟨hmark, hnone⟩ := hmarks c hc
  simp only [List.mem_cons, List.not_mem_nil, or_false, not_or] at hnone
  have hfirst := ht.first.notMem hmark
  rw [Template.block]
  split
  · simp [hnone.1, hfirst]
  · next hole holes hholes =>
    have hinside := (ht.holes hole (hholes ▸ List.mem_cons_self)).1.notMem hmark
    simp [hnone, hfirst, hinside]

/-- A template is read twice if it has no interpolation, once as a literal and once as the only static
part; with an interpolation it is not read. -/
theorem expressionLiterals_block (ht : t.WellFormed) :
    expressionLiterals t.block = if t.holes = [] then [t.first, t.first] else [] := by
  have hunescaped : Unescaped t.block := unescaped_of_notMem (ht.notMem_block (by decide))
  have hfirst : '\x60' ∉ t.first := ht.first.notMem (by decide)
  rw [expressionLiterals, templateLiterals_eq, literals_of_notMem (ht.notMem_block (by decide)),
    literals_of_notMem (ht.notMem_block (by decide)), hunescaped.literals_eq, Template.block]
  split
  · next hholes =>
    have hparts := staticParts_of_notMem (ht.first.notMem (c := '\x7d') (by decide))
    have hread : Text.readings template? ('\x60' :: (t.first ++ ['\x60'])) = [t.first] := by
      rw [readings_template?_closed hfirst, Text.readings_nil rfl]
    rw [hread, if_pos hholes]
    simp [hparts]
  · next hole holes hholes =>
    have hinside := (ht.holes hole (hholes ▸ List.mem_cons_self)).1.notMem (c := '\x60') (by decide)
    have hread : Text.readings template? ('\x60' :: (t.first ++ '$' :: '\x7b' :: hole.inside)) =
        [] := readings_template?_open (by simp [hfirst, hinside])
    rw [hread, if_neg (hholes ▸ List.cons_ne_nil _ _)]
    rfl

end Template.WellFormed

/-! ### The literals of a document -/

/-- The literals of the expressions from a position on. -/
def placedFrom (pos : Nat) (text : Text) : List PlacedText :=
  (Text.matchesFrom expression? pos text).flatMap fun f =>
    (expressionLiterals f.value).map (⟨f.start, ·⟩)

theorem placedFrom_zero (text : Text) : placedFrom 0 text = placedLiterals text := rfl

theorem placedFrom_eq_map (pos : Nat) (text : Text) :
    placedFrom pos text = (placedLiterals text).map (.shift pos) := by
  rw [placedFrom, Text.matchesFrom_eq_map, List.flatMap_map, placedLiterals, List.map_flatMap]
  refine List.flatMap_congr fun f _ => ?_
  rw [List.map_map]
  rfl

theorem placedFrom_append_of_notMem (h : '\x7b' ∉ text) (u : Text) :
    placedFrom pos (text ++ u) = placedFrom (pos + text.length) u := by
  have hnone : ∀ c ∈ text, ∀ rest, expression? (c :: rest) = none := fun c hc rest =>
    expression?_of_ne (ne_of_mem_of_not_mem hc h) rest
  rw [placedFrom, Text.matchesFrom_append_of_forall hnone, placedFrom]

theorem Closed.placedFrom_append (h : Closed outer) (u : Text) :
    placedFrom pos (outer ++ u) = placedFrom pos outer ++ placedFrom (pos + outer.length) u := by
  rw [placedFrom, h.matchesFrom_append, List.flatMap_append, placedFrom, placedFrom]

/-- An expression gives its literals at the place of its brace, and the search goes on behind it. -/
theorem placedFrom_expression (h : '\x7d' ∉ inside) (u : Text) :
    placedFrom pos ('\x7b' :: (inside ++ '\x7d' :: u)) =
      (expressionLiterals inside).map (⟨pos, ·⟩) ++ placedFrom (pos + (inside.length + 2)) u := by
  by_cases hne : inside = []
  · subst hne
    have hnone : expression? ('\x7b' :: '\x7d' :: u) = none := by
      simpa using expression?_closed h u
    have hbrace : '\x7b' ∉ ['\x7d'] := by decide
    have hrest : placedFrom (pos + 1) (['\x7d'] ++ u) = placedFrom (pos + 1 + 1) u :=
      placedFrom_append_of_notMem hbrace u
    rw [List.nil_append, placedFrom, Text.matchesFrom_cons_of_none hnone]
    exact hrest
  · have hread : expression? ('\x7b' :: (inside ++ ['\x7d']) ++ u) =
        some (inside, ('\x7b' :: (inside ++ ['\x7d'])).length) := by
      simpa [hne] using expression?_closed h u
    have hsplit : '\x7b' :: (inside ++ '\x7d' :: u) = '\x7b' :: (inside ++ ['\x7d']) ++ u := by simp
    rw [hsplit, placedFrom, Text.matchesFrom_append_of_some (List.cons_ne_nil _ _) hread,
      List.flatMap_cons, placedFrom]
    simp

theorem placedFrom_hole (hinside : IsInert hole.inside) (hbehind : IsInert hole.behind) (u : Text) :
    placedFrom pos (hole.write ++ u) = placedFrom (pos + hole.write.length) u := by
  have hdollar : '\x7b' ∉ ['$'] := by decide
  have hsplit : hole.write ++ u =
      ['$'] ++ '\x7b' :: (hole.inside ++ '\x7d' :: (hole.behind ++ u)) := by
    simp [Hole.write]
  rw [hsplit, placedFrom_append_of_notMem hdollar,
    placedFrom_expression (hinside.notMem (by decide)), expressionLiterals_of_inert hinside,
    List.map_nil, List.nil_append, placedFrom_append_of_notMem (hbehind.notMem (by decide))]
  congr 1
  simp only [Hole.write, List.length_cons, List.length_append, List.length_nil]
  omega

theorem placedFrom_holes {holes : List Hole}
    (h : ∀ hole ∈ holes, IsInert hole.inside ∧ IsInert hole.behind) (u : Text) :
    placedFrom pos (holes.flatMap Hole.write ++ u) =
      placedFrom (pos + (holes.flatMap Hole.write).length) u := by
  induction holes generalizing pos with
  | nil => rfl
  | cons hole holes ih =>
    obtain ⟨⟨hinside, hbehind⟩, hholes⟩ := List.forall_mem_cons.mp h
    rw [List.flatMap_cons, List.append_assoc, placedFrom_hole hinside hbehind, ih hholes,
      List.length_append, Nat.add_assoc]

/-- In the rest of a template there are no literals. -/
theorem Template.WellFormed.placedFrom_tail (ht : t.WellFormed) (u : Text) :
    placedFrom pos (t.tail ++ u) = placedFrom (pos + t.tail.length) u := by
  have hend : '\x7b' ∉ ['\x60', '\x7d'] := by decide
  obtain ⟨first, holes⟩ := t
  cases holes with
  | nil => rfl
  | cons hole holes =>
    obtain ⟨⟨-, hbehind⟩, hholes⟩ := List.forall_mem_cons.mp ht.holes
    simp only [Template.tail, List.append_assoc]
    rw [placedFrom_append_of_notMem (hbehind.notMem (by decide)), placedFrom_holes hholes,
      placedFrom_append_of_notMem hend]
    simp only [List.length_append, Nat.add_assoc]

/-- A template gives its literals with what stands in front of it from the first open brace on, and in
the rest of it there are none. -/
theorem Template.WellFormed.placedLiterals_eq (ht : t.WellFormed) {inner : Text}
    (hsplit : front ++ ['\x7b'] = outer ++ '\x7b' :: inner) (houter : Closed outer)
    (hinner : '\x7d' ∉ inner) :
    placedLiterals (front ++ t.write ++ behind) = placedLiterals outer ++
      (expressionLiterals (inner ++ t.block)).map (⟨outer.length, ·⟩) ++
      (placedLiterals behind).map (.shift (front ++ t.write).length) := by
  have hinside : '\x7d' ∉ inner ++ t.block := by
    simp only [List.mem_append, not_or]
    exact ⟨hinner, ht.notMem_block (by decide)⟩
  have hcode : front ++ t.write ++ behind =
      outer ++ '\x7b' :: (inner ++ t.block ++ '\x7d' :: (t.tail ++ behind)) := by
    calc front ++ t.write ++ behind
      _ = front ++ ['\x7b'] ++ (t.block ++ '\x7d' :: (t.tail ++ behind)) := by
        simp [t.write_eq]
      _ = outer ++ '\x7b' :: (inner ++ t.block ++ '\x7d' :: (t.tail ++ behind)) := by
        simp [hsplit]
  have hlength : 0 + outer.length + ((inner ++ t.block).length + 2) + t.tail.length =
      (front ++ t.write).length := by
    have hfront := congrArg List.length hsplit
    simp only [List.length_append, List.length_cons, List.length_nil, t.write_eq] at hfront ⊢
    omega
  rw [← placedFrom_zero, hcode, houter.placedFrom_append, placedFrom_expression hinside,
    ht.placedFrom_tail, hlength, placedFrom_eq_map _ behind, placedFrom_zero, Nat.zero_add,
    List.append_assoc]

/-- Wherever a template stands in a document, outside of comments, the literals of the document are those
found in front of it, those of the expression that its first closing brace ends, and those found behind
it. If no brace is open in front of it, it is read whole if it has no interpolation, and then it is
extracted if it is to be translated and its place is not excluded; if it has one, none of its static
parts is read. -/
theorem literals_of_template (ht : t.WellFormed)
    (hcode : stripComments code = front ++ t.write ++ behind) (attributes : Option (List Text))
    (selectors : List Json) :
    (∃ outer inner, front ++ ['\x7b'] = outer ++ '\x7b' :: inner ∧ Closed outer ∧ '\x7d' ∉ inner ∧
      placedLiterals (stripComments code) = placedLiterals outer ++
        (expressionLiterals (inner ++ t.block)).map (⟨outer.length, ·⟩) ++
        (placedLiterals behind).map (.shift (front ++ t.write).length)) ∧
    (Closed front → placedLiterals (stripComments code) = placedLiterals front ++
      (if t.holes = [] then [⟨front.length, t.first⟩, ⟨front.length, t.first⟩] else []) ++
      (placedLiterals behind).map (.shift (front ++ t.write).length)) ∧
    (Closed front → t.holes = [] →
      (Exclusion.ofDocument (stripComments code) (rulesOf selectors)).excludes front.length = false →
      isTranslatable (decodeEntities (Text.strip t.first)) = true →
      decodeEntities (Text.strip t.first) ∈ extract code attributes selectors) := by
  obtain ⟨outer, inner, hsplit, houter, hinner⟩ := exists_outermost front
  have hall : placedLiterals (front ++ t.write ++ behind) = placedLiterals outer ++
      (expressionLiterals (inner ++ t.block)).map (⟨outer.length, ·⟩) ++
      (placedLiterals behind).map (.shift (front ++ t.write).length) :=
    ht.placedLiterals_eq hsplit houter hinner
  have hclosed : Closed front → placedLiterals (stripComments code) = placedLiterals front ++
      (if t.holes = [] then [⟨front.length, t.first⟩, ⟨front.length, t.first⟩] else []) ++
      (placedLiterals behind).map (.shift (front ++ t.write).length) := by
    intro hfront
    obtain ⟨rfl, rfl⟩ := hfront.outermost hsplit hinner
    rw [List.nil_append, ht.expressionLiterals_block] at hall
    rw [hcode, hall]
    by_cases hholes : t.holes = []
    · simp [hholes]
    · simp [hholes]
  refine ⟨⟨outer, inner, hsplit, houter, hinner, hcode ▸ hall⟩, hclosed, ?_⟩
  intro hfront hholes hplace htranslatable
  have hmem : ⟨front.length, t.first⟩ ∈ placedLiterals (stripComments code) := by
    rw [hclosed hfront, if_pos hholes]
    simp
  refine decodeEntities_mem_extract (mem_literalStrings.mpr ?_) htranslatable
  exact ⟨_, hmem, hplace, rfl, (ne_nil_of_isTranslatable htranslatable).1⟩

/-- Of a greeting with a name in it nothing is read, and without the name it is extracted. -/
theorem literals_of_template_greeting :
    placedLiterals (stripComments "<p>\x7b\x60Hello $\x7bname\x7d\x60\x7d</p>".toList) = [] ∧
    extract "<p>\x7b\x60Hello $\x7bname\x7d\x60\x7d</p>".toList none [] = [] ∧
    "Hello".toList ∈ extract "<p>\x7b\x60Hello \x60\x7d</p>".toList none [] := by
  have hfront : Closed "<p>".toList := closed_of_notMem (by decide)
  have hname : Template.WellFormed ⟨"Hello ".toList, [⟨"name".toList, []⟩]⟩ :=
    ⟨by decide, List.forall_mem_singleton.mpr (by decide)⟩
  have hplain : Template.WellFormed ⟨"Hello ".toList, []⟩ := ⟨by decide, nofun⟩
  have hnameCode : stripComments "<p>\x7b\x60Hello $\x7bname\x7d\x60\x7d</p>".toList =
      "<p>".toList ++ Template.write ⟨"Hello ".toList, [⟨"name".toList, []⟩]⟩ ++ "</p>".toList := by
    decide
  have hplainCode : stripComments "<p>\x7b\x60Hello \x60\x7d</p>".toList =
      "<p>".toList ++ Template.write ⟨"Hello ".toList, []⟩ ++ "</p>".toList := by
    decide
  obtain ⟨-, hnone, -⟩ := literals_of_template hname hnameCode none []
  obtain ⟨-, -, hread⟩ := literals_of_template hplain hplainCode none []
  exact ⟨(hnone hfront).trans (by decide), by decide +kernel, hread hfront rfl rfl (by decide)⟩

end Localize.Markup
