import Localize.Proofs.Markup.Plain

/-!
# Comments around a place

A place stands outside of comments if no comment that begins before it reaches over it; then what
stands before it and what stands behind it are stripped apart. Text that neither begins nor ends a
comment may be inserted behind a text that does not either: the same comments reach over the place,
and where none does the inserted text stays. Within a comment it is lost, unless it breaks the line of
a line comment.
-/

namespace Localize.Markup

variable {before behind front stem inserted t u z : Text}

/-- What is left of the text before a place, if the place is in no comment. -/
def frontOf (before behind : Text) : Option Text :=
  let block := Text.eraseUpTo blockCommentLength behind 0 before
  let line := Text.eraseUpTo lineCommentLength (Text.eraseFrom blockCommentLength 0 behind) 0 block.1
  if block.2 = 0 ∧ line.2 = 0 then some line.1 else none

/-- Outside of comments a document is stripped before and behind a place. -/
theorem stripComments_of_frontOf (h : frontOf before behind = some front) :
    stripComments (before ++ behind) = front ++ stripComments behind := by
  simp only [frontOf, Option.ite_none_right_eq_some, Option.some.injEq] at h
  obtain ⟨⟨hblock, hline⟩, rfl⟩ := h
  rw [stripComments, Text.eraseFrom_append, hblock, Text.eraseFrom_append, hline, stripComments]

/-! ### Block comments -/

/-- The marks of a block comment's end are found in the first text, or in the second if none of them
stands in the first. -/
theorem cutAt?_close_append (h : t.getLast? = some '*' → u.head? ≠ some '/') :
    Text.cutAt? ['*', '/'] (t ++ u) =
      match Text.cutAt? ['*', '/'] t with
      | some (inside, rest) => some (inside, rest ++ u)
      | none => (Text.cutAt? ['*', '/'] u).map fun (inside, rest) => (t ++ inside, rest) := by
  induction t with
  | nil => simp [Text.cutAt?]
  | cons c t ih =>
    have hstart : Text.afterStart? ['*', '/'] (c :: (t ++ u)) =
        (Text.afterStart? ['*', '/'] (c :: t)).map (· ++ u) := by
      cases t with
      | nil =>
        cases u with
        | nil => simp [Text.afterStart?]
        | cons d u =>
          by_cases hc : '*' = c
          · have hd : '/' ≠ d := fun hd => h (by rw [← hc]; rfl) (by rw [← hd]; rfl)
            simp [Text.afterStart?, hd]
          · simp [Text.afterStart?, hc]
      | cons d t =>
        simp only [Text.afterStart?, List.cons_append]
        split_ifs <;> rfl
    have hlast : t.getLast? = some '*' → u.head? ≠ some '/' := by
      intro hlast
      refine h ?_
      rw [List.getLast?_cons, hlast]
      rfl
    rw [List.cons_append, Text.cutAt?, hstart, Text.cutAt?, ih hlast]
    cases Text.afterStart? ['*', '/'] (c :: t) with
    | some rest => rfl
    | none =>
      cases Text.cutAt? ['*', '/'] t with
      | some cut => rfl
      | none => cases Text.cutAt? ['*', '/'] u <;> rfl

theorem blockCommentLength_open (t : Text) : blockCommentLength ('/' :: '*' :: t) =
    (Text.cutAt? ['*', '/'] t).elim 0 fun cut => cut.1.length + 4 := by
  rw [blockCommentLength]
  cases Text.cutAt? ['*', '/'] t <;> rfl

/-! ### Text put in -/

/-- Nothing in or around the texts is taken for the beginning or the end of a comment where the second
is put behind the first. -/
structure Insertable (stem inserted : Text) : Prop where
  stem : stem ≠ [] ∧ ∀ c ∈ stem, c ∉ ['/', '*', '\n']
  uncommented : Uncommented inserted
  noEnd : ¬ ['*', '/'] <:+: inserted
  last : inserted.getLast? ≠ some '*'

namespace Insertable

variable (h : Insertable stem inserted)
include h

theorem uncommented_stem : Uncommented stem :=
  uncommented_of_notMem fun hmem => h.stem.2 '/' hmem (by decide)

theorem cutAt?_stem (u : Text) : Text.cutAt? ['*', '/'] (stem ++ u) =
    (Text.cutAt? ['*', '/'] u).map fun (inside, rest) => (stem ++ inside, rest) := by
  have hstar : '*' ∉ stem := fun hmem => h.stem.2 '*' hmem (by decide)
  have hnone : Text.cutAt? ['*', '/'] stem = none := by
    rw [← Option.not_isSome_iff_eq_none]
    exact fun hcut => hstar ((Text.occursIn_iff.mp hcut).subset (by simp))
  rw [cutAt?_close_append fun hlast => absurd (List.mem_of_getLast? hlast) hstar, hnone]

theorem cutAt?_inserted (u : Text) : Text.cutAt? ['*', '/'] (inserted ++ u) =
    (Text.cutAt? ['*', '/'] u).map fun (inside, rest) => (inserted ++ inside, rest) := by
  have hnone : Text.cutAt? ['*', '/'] inserted = none := by
    rw [← Option.not_isSome_iff_eq_none]
    exact fun hcut => h.noEnd (Text.occursIn_iff.mp hcut)
  rw [cutAt?_close_append fun hlast => absurd hlast h.last, hnone]

/-- The two characters that begin a comment stand before the stem or none of them does. -/
theorem open_cases {m : Char} (hmark : m ∈ ['/', '*']) {y : Text} (hy : y ≠ []) :
    (∃ z, y = '/' :: m :: z) ∨ ∀ v rest, y ++ (stem ++ v) ≠ '/' :: m :: rest := by
  have hstem : m ∉ stem := fun hmem => h.stem.2 m hmem (by
    rcases List.mem_pair.mp hmark with rfl | rfl <;> decide)
  obtain ⟨c, y, rfl⟩ := List.exists_cons_of_ne_nil hy
  cases y with
  | nil =>
    refine .inr fun v rest heq => ?_
    obtain ⟨d, stem, rfl⟩ := List.exists_cons_of_ne_nil h.stem.1
    obtain ⟨-, hrest⟩ := List.cons.inj heq
    obtain ⟨rfl, -⟩ := List.cons.inj hrest
    exact hstem List.mem_cons_self
  | cons d z =>
    by_cases hopen : c = '/' ∧ d = m
    · obtain ⟨rfl, rfl⟩ := hopen
      exact .inl ⟨z, rfl⟩
    · refine .inr fun v rest heq => hopen ?_
      obtain ⟨rfl, hrest⟩ := List.cons.inj heq
      exact ⟨rfl, (List.cons.inj hrest).1⟩

/-- A block comment that reaches over the place reaches as much further as text is put in. -/
theorem reachesAlike_block (before behind : Text) :
    Text.ReachesAlike blockCommentLength before (stem ++ behind) (stem ++ (inserted ++ behind))
      fun m n => ∃ inside rest, behind = inside ++ rest ∧ m = (stem ++ inside).length ∧
        n = (stem ++ (inserted ++ inside)).length := by
  intro x y _ hy
  rcases h.open_cases (m := '*') (by decide) hy with ⟨z, rfl⟩ | hnone
  · have hlast : z.getLast? = some '*' → ∀ v, (stem ++ v).head? ≠ some '/' := by
      intro _ v hhead
      rw [List.head?_append_of_ne_nil _ h.stem.1] at hhead
      exact h.stem.2 '/' (List.mem_of_mem_head? hhead) (by decide)
    simp only [List.cons_append, blockCommentLength_open,
      cutAt?_close_append fun hstar => hlast hstar _, h.cutAt?_stem, h.cutAt?_inserted]
    cases hcut : Text.cutAt? ['*', '/'] z with
    | some cut =>
      obtain ⟨inside, rest⟩ := cut
      have hlength := congrArg List.length (Text.eq_of_cutAt? hcut)
      simp only [List.length_append, List.length_cons, List.length_nil] at hlength
      exact .inl ⟨by simp; omega, rfl⟩
    | none =>
      cases hcut' : Text.cutAt? ['*', '/'] behind with
      | none => exact .inl ⟨Nat.zero_le _, rfl⟩
      | some cut =>
        obtain ⟨inside, rest⟩ := cut
        refine .inr ⟨_, _, ?_, ?_, inside ++ ['*', '/'], rest, ?_, rfl, rfl⟩
        · simp
          omega
        · simp
          omega
        · rw [Text.eq_of_cutAt? hcut', List.append_assoc]
  · have hzero : ∀ v, blockCommentLength (y ++ (stem ++ v)) = 0 := by
      intro v
      unfold blockCommentLength
      split
      · next rest heq => exact absurd heq (hnone v rest)
      · rfl
    exact .inl ⟨by rw [hzero]; exact Nat.zero_le _, by rw [hzero, hzero]⟩

/-- And so does a line comment, up to the first line break. -/
theorem reachesAlike_line (before behind : Text) :
    Text.ReachesAlike lineCommentLength before (stem ++ behind) (stem ++ (inserted ++ behind))
      fun m n => m = (stem ++ behind.takeWhile (· ≠ '\n')).length ∧
        n = (stem ++ (inserted ++ behind).takeWhile (· ≠ '\n')).length := by
  intro x y _ hy
  rcases h.open_cases (m := '/') (by decide) hy with ⟨z, rfl⟩ | hnone
  · have hlength : ∀ v, lineCommentLength ('/' :: '/' :: z ++ (stem ++ v)) =
        ((z ++ (stem ++ v)).takeWhile (· ≠ '\n')).length + 2 := fun _ => rfl
    by_cases hbreak : '\n' ∈ z
    · obtain ⟨line, rest, rfl, hline⟩ := List.eq_append_cons_of_mem hbreak
      have htake : ∀ v, ((line ++ '\n' :: rest) ++ (stem ++ v)).takeWhile (· ≠ '\n') = line := by
        intro v
        rw [List.append_assoc]
        exact takeWhile_ne_append hline _
      rw [hlength, hlength, htake, htake]
      refine .inl ⟨?_, rfl⟩
      simp only [List.length_cons, List.length_append]
      omega
    · have hstem : '\n' ∉ z ++ stem := by
        rw [List.mem_append, not_or]
        exact ⟨hbreak, fun hmem => h.stem.2 '\n' hmem (by decide)⟩
      have htake : ∀ v : Text, (z ++ (stem ++ v)).takeWhile (· ≠ '\n') =
          z ++ (stem ++ v.takeWhile (· ≠ '\n')) := by
        intro v
        rw [← List.append_assoc, List.takeWhile_append_of_pos (forall_ne_of_notMem hstem),
          List.append_assoc]
      rw [hlength, hlength, htake, htake]
      refine .inr ⟨_, _, ?_, ?_, rfl, rfl⟩
      · simp only [List.length_cons, List.length_append]
        omega
      · simp only [List.length_cons, List.length_append]
        omega
  · have hzero : ∀ v, lineCommentLength (y ++ (stem ++ v)) = 0 := by
      intro v
      unfold lineCommentLength
      split
      · next rest heq => exact absurd heq (hnone v rest)
      · rfl
    exact .inl ⟨by rw [hzero]; exact Nat.zero_le _, by rw [hzero, hzero]⟩

theorem eraseBlocks_stem (v : Text) : Text.eraseFrom blockCommentLength 0 (stem ++ v) =
    stem ++ Text.eraseFrom blockCommentLength 0 v :=
  Text.eraseFrom_append_of_zero (h.uncommented_stem.blockCommentLength_eq v)

theorem eraseBlocks_inserted (v : Text) : Text.eraseFrom blockCommentLength 0 (inserted ++ v) =
    inserted ++ Text.eraseFrom blockCommentLength 0 v :=
  Text.eraseFrom_append_of_zero (h.uncommented.blockCommentLength_eq v)

theorem stem_append_ne (v : Text) : (stem ++ v).length ≠ 0 := by
  simp [h.stem.1]

/-- The place is within a comment or not, and the same is left before it, whether text is put in or
not. -/
theorem frontOf_eq (before behind : Text) :
    frontOf before (stem ++ (inserted ++ behind)) = frontOf before (stem ++ behind) := by
  obtain ⟨hleft, hreach⟩ := Text.eraseUpTo_alike (h.reachesAlike_block before behind) (k := 0)
    (l := 0) (.inl ⟨Nat.zero_le _, rfl⟩)
  simp only [frontOf, ← hleft, h.eraseBlocks_stem, h.eraseBlocks_inserted]
  rcases hreach with ⟨hzero, hzero'⟩ | ⟨inside, rest, -, hover, hover'⟩
  · obtain ⟨hline, hreach⟩ := Text.eraseUpTo_alike (h.reachesAlike_line
      (Text.eraseUpTo blockCommentLength (stem ++ behind) 0 before).1
      (Text.eraseFrom blockCommentLength 0 behind)) (k := 0) (l := 0) (.inl ⟨Nat.zero_le _, rfl⟩)
    rcases hreach with ⟨hend, hend'⟩ | ⟨hover, hover'⟩
    · rw [if_pos ⟨hzero', hend'⟩, if_pos ⟨hzero, hend⟩, hline]
    · rw [if_neg fun hnot => h.stem_append_ne _ (hover'.symm.trans hnot.2),
        if_neg fun hnot => h.stem_append_ne _ (hover.symm.trans hnot.2)]
  · rw [if_neg fun hnot => h.stem_append_ne _ (hover'.symm.trans hnot.1),
      if_neg fun hnot => h.stem_append_ne _ (hover.symm.trans hnot.1)]

/-- Outside of comments the text that is put in stays, and nothing else changes. -/
theorem stripComments_of_frontOf (hfront : frontOf before (stem ++ behind) = some front) :
    stripComments (before ++ (stem ++ behind)) = front ++ (stem ++ stripComments behind) ∧
      stripComments (before ++ (stem ++ (inserted ++ behind))) =
        front ++ (stem ++ (inserted ++ stripComments behind)) := by
  constructor
  · rw [Markup.stripComments_of_frontOf hfront, stripComments_append h.uncommented_stem]
  · rw [Markup.stripComments_of_frontOf ((h.frontOf_eq before behind).trans hfront),
      stripComments_append h.uncommented_stem, stripComments_append h.uncommented]

omit h in
theorem eraseFrom_reach (lengthAt : Text → Nat) (inside rest : Text) :
    Text.eraseFrom lengthAt (stem ++ inside).length (stem ++ (inside ++ rest)) =
      Text.eraseFrom lengthAt 0 rest := by
  rw [← List.append_assoc, Text.eraseFrom_skip]

/-- Within a comment the text that is put in is lost, if it does not break the line. -/
theorem stripComments_of_none (hfront : frontOf before (stem ++ behind) = none)
    (hbreak : '\n' ∉ inserted) : stripComments (before ++ (stem ++ (inserted ++ behind))) =
      stripComments (before ++ (stem ++ behind)) := by
  obtain ⟨hleft, hreach⟩ := Text.eraseUpTo_alike (h.reachesAlike_block before behind) (k := 0)
    (l := 0) (.inl ⟨Nat.zero_le _, rfl⟩)
  rcases hreach with ⟨hzero, hzero'⟩ | ⟨inside, rest, rfl, hover, hover'⟩
  · obtain ⟨hline, hreach⟩ := Text.eraseUpTo_alike (h.reachesAlike_line
      (Text.eraseUpTo blockCommentLength (stem ++ behind) 0 before).1
      (Text.eraseFrom blockCommentLength 0 behind)) (k := 0) (l := 0) (.inl ⟨Nat.zero_le _, rfl⟩)
    rcases hreach with ⟨hend, -⟩ | ⟨hend, hend'⟩
    · exact absurd hfront (by simp [frontOf, h.eraseBlocks_stem, hzero, hend])
    · -- The rest of the line is lost, with what is put in before it.
      have hlonger : ∀ v : Text, (inserted ++ v).takeWhile (· ≠ '\n') =
          inserted ++ v.takeWhile (· ≠ '\n') := fun v =>
        List.takeWhile_append_of_pos (forall_ne_of_notMem hbreak)
      simp only [stripComments, Text.eraseFrom_append _ _ before, hzero, hzero', ← hleft,
        h.eraseBlocks_stem, h.eraseBlocks_inserted]
      rw [hlonger] at hend'
      generalize Text.eraseFrom blockCommentLength 0 behind = b at hline hend hend' ⊢
      have hsplit := List.takeWhile_append_dropWhile (p := fun c => decide (c ≠ '\n')) (l := b)
      generalize b.takeWhile (· ≠ '\n') = line at hsplit hend hend'
      generalize b.dropWhile (· ≠ '\n') = rest at hsplit
      subst hsplit
      rw [Text.eraseFrom_append, Text.eraseFrom_append _ _ _ (stem ++ (line ++ rest)), ← hline, hend,
        hend', eraseFrom_reach, ← List.append_assoc inserted, eraseFrom_reach]
  · rw [stripComments, stripComments, Text.eraseFrom_append _ _ before,
      Text.eraseFrom_append _ _ before, ← hleft, hover, hover', eraseFrom_reach,
      ← List.append_assoc inserted, eraseFrom_reach]

end Insertable

end Localize.Markup
