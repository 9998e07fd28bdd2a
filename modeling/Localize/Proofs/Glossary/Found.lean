import Localize.Proofs.Glossary.Exchange
import Localize.Proofs.Table
import Localize.Text.Word
import Mathlib.Data.List.TakeWhile

/-!
# Tokens that a scan finds

A scan cuts a text into single characters and tokens. The tokens that it finds can be exchanged for
final texts all at once. Putting final texts in place of one token after another comes to the same,
unless a token comes about on the way that was not found. Two tokens in a text can share
underscores, but the core of a token, which is the token without the underscores around it, reaches
into no other token. So the core of such a token stands in the outcome, too, and on either side of
it an underscore or a piece that was a token: there it can have joined to a token.
-/

namespace Localize.Placeholder

/-- A character, or a token that was found. -/
inductive Piece where
  | char (c : Char)
  | token (t : Text)
  deriving DecidableEq, Repr

/-- The pieces of a text, the next `skip` characters belonging to a token already found. -/
def piecesFrom : Nat → Text → List Piece
  | _, [] => []
  | skip + 1, _ :: rest => piecesFrom skip rest
  | 0, c :: rest =>
    match tokenLength? (c :: rest) with
    | some n => .token ((c :: rest).take n) :: piecesFrom (n - 1) rest
    | none => .char c :: piecesFrom 0 rest

def pieces (t : Text) : List Piece := piecesFrom 0 t

/-- The text of a piece, its token exchanged. -/
def Piece.render (σ : Text → Text) : Piece → Text
  | .char c => [c]
  | .token t => σ t

/-- The text of pieces, their tokens exchanged all at once. -/
def render (σ : Text → Text) (ps : List Piece) : Text := ps.flatMap (Piece.render σ)

/-- What takes the place of a token: its final text, if it has one. -/
def finalFor (finals : List (Text × Text)) (t : Text) : Text := (Table.find? finals t).getD t

/-- The text with the final texts in place of the tokens that a scan finds, all at once. -/
def exchangeFound (finals : List (Text × Text)) (t : Text) : Text :=
  render (finalFor finals) (pieces t)

/-- A token without the underscores around it. -/
def core (n : Nat) : Text := mark ++ '_' :: Text.ofNat n

theorem token_eq_core (n : Nat) : token n = ['_', '_'] ++ core n ++ ['_', '_'] := by
  rw [token_eq, core]
  simp

/-! ### What is a token for the scan -/

/-- Digits of any kind between the opening and the closing of a token. -/
def IsToken (t : Text) : Prop :=
  ∃ digits, digits ≠ [] ∧ (∀ d ∈ digits, Text.isDigit d = true) ∧ t = opening ++ digits ++ closing

theorem isDigit_of_isDigit {c : Char} (h : c.isDigit = true) : Text.isDigit c = true := by
  have hlt : c.toNat < 128 := by
    simp only [Char.isDigit, Bool.and_eq_true, decide_eq_true_eq, UInt32.le_iff_toNat_le] at h
    exact Nat.lt_of_le_of_lt h.2 (by decide)
  rw [Text.isDigit, Text.digitValue?, if_pos hlt, if_pos h]
  rfl

theorem isToken_token (n : Nat) : IsToken (token n) :=
  ⟨Text.ofNat n, Nat.toDigits_ne_nil,
    fun _ hd => isDigit_of_isDigit (Text.isDigit_of_mem_ofNat hd), rfl⟩

theorem IsToken.ne_nil {t : Text} (h : IsToken t) : t ≠ [] := by
  obtain ⟨digits, -, -, rfl⟩ := h
  exact List.cons_ne_nil _ _

theorem IsToken.exists_eq {t : Text} (h : IsToken t) : ∃ digits,
    (∀ d ∈ digits, Text.isDigit d = true) ∧
      t = '_' :: '_' :: (mark ++ '_' :: (digits ++ ['_', '_'])) := by
  obtain ⟨digits, -, hdigits, rfl⟩ := h
  have ho : opening = ['_', '_'] ++ mark ++ ['_'] := rfl
  have hc : closing = ['_', '_'] := rfl
  refine ⟨digits, hdigits, ?_⟩
  rw [ho, hc]
  simp only [List.append_assoc, List.cons_append, List.nil_append]

theorem tokenLength?_eq_some_iff {t : Text} {n : Nat} : tokenLength? t = some n ↔
    ∃ found rest, IsToken found ∧ t = found ++ rest ∧ n = found.length := by
  unfold tokenLength?
  simp only [Option.bind_eq_bind, Option.bind_eq_some_iff, Text.afterStart?_eq_some_iff]
  constructor
  · rintro ⟨behind, rfl, h⟩
    obtain ⟨hfound, h⟩ := Option.ite_none_left_eq_some.mp h
    simp only [Bool.or_eq_true, List.isEmpty_iff, Bool.not_eq_true', not_or,
      Bool.not_eq_false, Text.startsWith_iff] at hfound
    obtain ⟨hdigits, rest, hrest⟩ := hfound
    rw [drop_length_takeWhile] at hrest
    refine ⟨opening ++ behind.takeWhile Text.isDigit ++ closing, rest,
      ⟨_, hdigits, fun d hd => List.mem_takeWhile_imp hd, rfl⟩, ?_, ?_⟩
    · rw [List.append_assoc, List.append_assoc, hrest, List.takeWhile_append_dropWhile]
    · rw [← Option.some.inj h, List.length_append, List.length_append]
  · rintro ⟨found, rest, ⟨digits, hne, hall, rfl⟩, rfl, rfl⟩
    refine ⟨digits ++ (closing ++ rest), by simp, ?_⟩
    have htake : (digits ++ (closing ++ rest)).takeWhile Text.isDigit = digits := by
      refine takeWhile_append_of_head hall fun c hc => ?_
      cases hc
      decide
    have hclosing : Text.startsWith closing (closing ++ rest) = true :=
      Text.startsWith_iff.mpr ⟨rest, rfl⟩
    simp only [htake, List.drop_left, hclosing, List.isEmpty_iff, hne, Bool.not_true, Bool.or_false,
      if_false, List.length_append]

theorem tokenLength?_of_isToken {found : Text} (h : IsToken found) (t : Text) :
    tokenLength? (found ++ t) = some found.length :=
  tokenLength?_eq_some_iff.mpr ⟨found, t, h, rfl, rfl⟩

/-- A text is empty, or it begins with a character where no token is found, or with a token. -/
theorem scan_induction {P : Text → Prop} (nil : P [])
    (char : ∀ c t, tokenLength? (c :: t) = none → P t → P (c :: t))
    (token : ∀ found t, IsToken found → P t → P (found ++ t)) (t : Text) : P t := by
  induction hlength : t.length using Nat.strongRecOn generalizing t with
  | ind length ih =>
    subst hlength
    cases t with
    | nil => exact nil
    | cons c t =>
      cases hfound : tokenLength? (c :: t) with
      | none => exact char c t hfound (ih t.length (by simp) t rfl)
      | some n =>
        obtain ⟨found, rest, htoken, heq, -⟩ := tokenLength?_eq_some_iff.mp hfound
        rw [heq]
        refine token found rest htoken (ih rest.length ?_ rest rfl)
        have hpos := List.length_pos_iff.mpr htoken.ne_nil
        rw [heq, List.length_append]
        omega

theorem pieces_cons_of_none {c : Char} {t : Text} (h : tokenLength? (c :: t) = none) :
    pieces (c :: t) = .char c :: pieces t := by
  simp only [pieces, piecesFrom, h]

theorem piecesFrom_skip (t u : Text) : piecesFrom t.length (t ++ u) = pieces u := by
  induction t with
  | nil => rfl
  | cons c t ih => exact ih

theorem pieces_append_of_isToken {found : Text} (h : IsToken found) (t : Text) :
    pieces (found ++ t) = .token found :: pieces t := by
  have hlength := tokenLength?_of_isToken h t
  obtain ⟨c, rest, rfl⟩ := List.exists_cons_of_ne_nil h.ne_nil
  rw [List.cons_append] at hlength ⊢
  simp only [pieces, piecesFrom, hlength]
  rw [List.length_cons, Nat.add_sub_cancel, piecesFrom_skip, List.take_succ_cons, List.take_left,
    pieces]

theorem isToken_of_mem_pieces {t found : Text} (h : .token found ∈ pieces t) : IsToken found := by
  induction t using scan_induction with
  | nil => cases h
  | char c t hnone ih =>
    rw [pieces_cons_of_none hnone] at h
    exact ih ((List.mem_cons.mp h).resolve_left nofun)
  | token found' t htoken ih =>
    rw [pieces_append_of_isToken htoken] at h
    rcases List.mem_cons.mp h with heq | h
    · cases heq
      exact htoken
    · exact ih h

/-- A text is the text of its pieces. -/
theorem render_pieces (t : Text) : render id (pieces t) = t := by
  induction t using scan_induction with
  | nil => rfl
  | char c t hnone ih =>
    rw [pieces_cons_of_none hnone]
    exact congrArg (c :: ·) ih
  | token found t htoken ih =>
    rw [pieces_append_of_isToken htoken]
    exact congrArg (found ++ ·) ih

/-- The tokens of a text are those among its pieces. -/
theorem mem_tokensIn_iff {t found : Text} : found ∈ tokensIn t ↔ .token found ∈ pieces t := by
  have hreadings : found ∈ tokensIn t ↔ found ∈ Text.readings
      (fun rest => (tokenLength? rest).map fun n => (rest.take n, n)) t := Text.mem_sortedSet
  refine hreadings.trans ?_
  clear hreadings
  induction t using scan_induction with
  | nil =>
    rw [Text.readings_nil (by rfl)]
    exact iff_of_false List.not_mem_nil List.not_mem_nil
  | char c t hnone ih =>
    rw [Text.readings_cons_of_none (by rw [hnone]; rfl), pieces_cons_of_none hnone]
    simp [ih]
  | token found' t htoken ih =>
    have hread : (tokenLength? (found' ++ t)).map (fun n => ((found' ++ t).take n, n)) =
        some (found', found'.length) := by
      rw [tokenLength?_of_isToken htoken, Option.map_some, List.take_left]
    rw [Text.readings_append_of_some htoken.ne_nil hread, pieces_append_of_isToken htoken]
    simp [ih]

/-- Where no token reaches over the place at which a text is cut, each part is scanned for
itself. -/
theorem pieces_append {a b : Text}
    (hcut : ∀ x found y, IsToken found → a ++ b = x ++ found ++ y →
      x.length + found.length ≤ a.length ∨ a.length ≤ x.length) :
    pieces (a ++ b) = pieces a ++ pieces b := by
  induction a using scan_induction with
  | nil => rfl
  | char c t hnone ih =>
    have hcut' : ∀ x found y, IsToken found → t ++ b = x ++ found ++ y →
        x.length + found.length ≤ t.length ∨ t.length ≤ x.length := by
      intro x found y hfound hxy
      have h := hcut (c :: x) found y hfound (congrArg (c :: ·) hxy)
      simp only [List.length_cons] at h
      omega
    have hnone' : tokenLength? (c :: (t ++ b)) = none := by
      rw [Option.eq_none_iff_forall_not_mem]
      intro n hn
      obtain ⟨found, rest, hfound, heq, -⟩ := tokenLength?_eq_some_iff.mp hn
      have hlength : found.length ≤ (c :: t).length := by
        have h := hcut [] found rest hfound heq
        simp only [List.length_cons, List.length_nil] at h ⊢
        omega
      have hwhole : c :: t <+: c :: (t ++ b) := ⟨b, rfl⟩
      have hstarts : found <+: c :: (t ++ b) := ⟨rest, heq.symm⟩
      obtain ⟨rest', hrest⟩ := List.prefix_of_prefix_length_le hstarts hwhole hlength
      rw [← hrest, tokenLength?_of_isToken hfound] at hnone
      cases hnone
    rw [List.cons_append, pieces_cons_of_none hnone', pieces_cons_of_none hnone, ih hcut',
      List.cons_append]
  | token found t hfound ih =>
    have hcut' : ∀ x found y, IsToken found → t ++ b = x ++ found ++ y →
        x.length + found.length ≤ t.length ∨ t.length ≤ x.length := by
      intro x found' y hfound' hxy
      have h := hcut (found ++ x) found' y hfound' (by simp only [List.append_assoc, hxy])
      simp only [List.length_append] at h
      omega
    rw [List.append_assoc, pieces_append_of_isToken hfound, pieces_append_of_isToken hfound,
      ih hcut', List.cons_append]

/-! ### Where a core can stand -/

theorem core_suffix_of_underscore {n : Nat} {u : Text} (h : '_' :: u <:+ core n) :
    u = Text.ofNat n := by
  obtain ⟨x, hx⟩ := h
  exact (Text.separator_unique (by decide) (underscore_not_mem_ofNat n) hx).2

theorem not_isDigit_of_mem {c : Char} {digits : Text}
    (hdigits : ∀ d ∈ digits, Text.isDigit d = true) (hc : Text.isDigit c = false) :
    c ∉ digits := by
  intro hmem
  rw [hdigits c hmem] at hc
  cases hc

/-- A core that begins in a token found is the core of that token. -/
theorem core_in_token {found x z y r : Text} {n : Nat} (h : IsToken found) (hz : z ≠ [])
    (hfound : found = x ++ z) (hcore : core n ++ '_' :: '_' :: y = z ++ r) :
    found = token n ∧ x = ['_', '_'] := by
  obtain ⟨digits, hdigits, rfl⟩ := h.exists_eq
  have hunderscore : '_' ∉ digits := not_isDigit_of_mem hdigits (by decide)
  have hinitial : 'G' ∉ mark.tail ++ '_' :: (digits ++ ['_', '_']) := by
    simp only [List.mem_append, List.mem_cons, not_or]
    exact ⟨by decide, by decide, not_isDigit_of_mem hdigits (by decide), by decide, by decide,
      List.not_mem_nil⟩
  obtain ⟨c, z', rfl⟩ := List.exists_cons_of_ne_nil hz
  have hparts : 'G' :: (mark.tail ++ '_' :: (Text.ofNat n ++ '_' :: '_' :: y)) =
      c :: (z' ++ r) := by
    rw [core, List.append_assoc] at hcore
    exact hcore
  obtain ⟨rfl, hbehind⟩ := List.cons.inj hparts
  have hsplit : x ++ 'G' :: z' =
      ['_', '_'] ++ 'G' :: (mark.tail ++ '_' :: (digits ++ ['_', '_'])) := hfound.symm
  obtain ⟨hx, hz'⟩ := Text.separator_unique (by decide) hinitial hsplit
  refine ⟨?_, hx⟩
  have hsame : Text.ofNat n ++ '_' :: '_' :: y = digits ++ '_' :: '_' :: r := by
    rw [hz', List.append_assoc, List.cons_append, List.append_assoc] at hbehind
    exact (List.cons.inj (List.append_cancel_left hbehind)).2
  rw [(Text.separator_append_inj (underscore_not_mem_ofNat n) hunderscore hsame).1.symm, token_eq]
  rfl

variable {σ ρ : Text → Text} {ps : List Piece} {n : Nat}

theorem render_cons (σ : Text → Text) (p : Piece) (ps : List Piece) :
    render σ (p :: ps) = p.render σ ++ render σ ps := rfl

theorem render_singleton (σ : Text → Text) (p : Piece) : render σ [p] = p.render σ :=
  List.append_nil _

theorem infix_render_of_mem {t : Text} (h : .token t ∈ ps) (σ : Text → Text) :
    σ t <:+: render σ ps := by
  obtain ⟨before, behind, rfl⟩ := List.append_of_mem h
  exact ⟨render σ before, render σ behind, by simp [render, Piece.render]⟩

theorem render_append (σ : Text → Text) (ps qs : List Piece) :
    render σ (ps ++ qs) = render σ ps ++ render σ qs := List.flatMap_append

/-- What is left of a core does not begin with a token. -/
theorem rest_of_core_ne {found u y r : Text} (h : IsToken found) (hu : u <:+ core n)
    (hne : u ≠ []) : u ++ '_' :: '_' :: y ≠ found ++ r := by
  intro hstarts
  obtain ⟨digits, -, rfl⟩ := h.exists_eq
  obtain ⟨c, u', rfl⟩ := List.exists_cons_of_ne_nil hne
  obtain ⟨rfl, hbehind⟩ := List.cons.inj hstarts
  obtain rfl := core_suffix_of_underscore hu
  obtain ⟨d, rest, hdigits⟩ : ∃ d rest, Text.ofNat n = d :: rest :=
    List.exists_cons_of_ne_nil Nat.toDigits_ne_nil
  have hunderscore := underscore_not_mem_ofNat n
  rw [hdigits] at hbehind hunderscore
  obtain rfl : d = '_' := (List.cons.inj hbehind).1
  exact hunderscore List.mem_cons_self

/-- What is left of a core goes on in pieces that read as they do in the outcome: it does not reach
into a token that stays. -/
theorem core_goes_on (hσ : ∀ t, σ t = t ∨ σ t = ρ t) (hps : ∀ t, .token t ∈ ps → IsToken t)
    {u y : Text} (hu : u <:+ core n) (h : u ++ '_' :: '_' :: y = render σ ps) :
    ∃ run behind r, ps = run ++ behind ∧ render ρ run = u ++ r ∧
      '_' :: '_' :: y = r ++ render σ behind := by
  induction ps generalizing u with
  | nil =>
    have hlength := congrArg List.length h
    simp [render] at hlength
  | cons p ps ih =>
    by_cases hne : u = []
    · exact ⟨[], p :: ps, [], rfl, by rw [hne]; rfl, by rw [← h, hne]; rfl⟩
    rw [render_cons] at h
    have halike : p.render σ = p.render ρ := by
      cases p with
      | char c => rfl
      | token t =>
        refine (hσ t).resolve_left fun hstays => ?_
        rw [Piece.render, hstays] at h
        exact rest_of_core_ne (hps t List.mem_cons_self) hu hne h
    rcases List.append_eq_append_iff.mp h with ⟨r, hp, hrest⟩ | ⟨v, hv, hmore⟩
    · refine ⟨[p], ps, r, rfl, ?_, hrest⟩
      rw [render_singleton, ← halike, hp]
    · have hsuffix : v <:+ core n := (hv ▸ List.suffix_append (p.render σ) v).trans hu
      obtain ⟨run, behind, r, rfl, hrun, hbehind⟩ :=
        ih (fun t ht => hps t (List.mem_cons_of_mem p ht)) hsuffix hmore.symm
      refine ⟨p :: run, behind, r, rfl, ?_, hbehind⟩
      rw [render_cons, ← halike, hrun, hv, List.append_assoc]

/-- Behind `x` the token stands that was found. -/
def FoundAt (σ : Text → Text) (ps : List Piece) (n : Nat) (x : Text) : Prop :=
  ∃ before behind, ps = before ++ .token (token n) :: behind ∧ x = render σ before

/-- Between `x` and `y` a core stands in a run of pieces, and so it does in the outcome. -/
def InRun (σ ρ : Text → Text) (ps : List Piece) (n : Nat) (x y : Text) : Prop :=
  ∃ before run behind z r, ps = before ++ run ++ behind ∧ x = render σ before ++ z ∧
    render ρ run = z ++ core n ++ r ∧ y = r ++ render σ behind

theorem FoundAt.cons {x : Text} (h : FoundAt σ ps n x) (p : Piece) :
    FoundAt σ (p :: ps) n (p.render σ ++ x) := by
  obtain ⟨before, behind, rfl, rfl⟩ := h
  exact ⟨p :: before, behind, rfl, rfl⟩

theorem InRun.cons {x y : Text} (h : InRun σ ρ ps n x y) (p : Piece) :
    InRun σ ρ (p :: ps) n (p.render σ ++ x) y := by
  obtain ⟨before, run, behind, z, r, rfl, rfl, hrun, hy⟩ := h
  exact ⟨p :: before, run, behind, z, r, rfl, by rw [render_cons, List.append_assoc], hrun, hy⟩

/-- A core begins in a piece that reads as it does in the outcome. -/
theorem inRun_of_begins (hσ : ∀ t, σ t = t ∨ σ t = ρ t) (hps : ∀ t, .token t ∈ ps → IsToken t)
    {p : Piece} {x z y : Text} (halike : p.render σ = p.render ρ) (hx : p.render σ = x ++ z)
    (hcore : core n ++ '_' :: '_' :: y = z ++ render σ ps) :
    InRun σ ρ (p :: ps) n x ('_' :: '_' :: y) := by
  rcases List.append_eq_append_iff.mp hcore with ⟨r, hz, hbehind⟩ | ⟨u, hu, hmore⟩
  · refine ⟨[], [p], ps, x, r, rfl, rfl, ?_, hbehind⟩
    rw [render_singleton, ← halike, hx, hz, List.append_assoc]
  · have hsuffix : u <:+ core n := ⟨z, hu.symm⟩
    obtain ⟨run, behind, r, rfl, hrun, hbehind⟩ := core_goes_on hσ hps hsuffix hmore.symm
    refine ⟨[], p :: run, behind, x, r, rfl, rfl, ?_, hbehind⟩
    rw [render_cons, ← halike, hx, hrun, hu]
    simp only [List.append_assoc]

/-- Two underscores follow a core in a text of pieces: then it is the core of a token found that
stays, or it stands in a run of pieces that read as they do in the outcome. -/
theorem core_in_render (hσ : ∀ t, σ t = t ∨ σ t = ρ t) (hps : ∀ t, .token t ∈ ps → IsToken t)
    {x y : Text} (h : render σ ps = x ++ (core n ++ '_' :: '_' :: y)) :
    (∃ x', x = x' ++ ['_', '_'] ∧ FoundAt σ ps n x') ∨ InRun σ ρ ps n x ('_' :: '_' :: y) := by
  induction ps generalizing x with
  | nil =>
    have hlength := congrArg List.length h
    simp [render, core] at hlength
  | cons p ps ih =>
    have hps' : ∀ t, .token t ∈ ps → IsToken t := fun t ht => hps t (List.mem_cons_of_mem p ht)
    rw [render_cons] at h
    rcases List.append_eq_append_iff.mp h with ⟨a, rfl, hrest⟩ | ⟨z, hx, hcore⟩
    · rcases ih hps' hrest with ⟨x', rfl, hfound⟩ | hrun
      · exact .inl ⟨p.render σ ++ x', by rw [List.append_assoc], hfound.cons p⟩
      · exact .inr (hrun.cons p)
    · by_cases hz : z = []
      · -- the core begins with the next piece
        subst hz
        rw [List.append_nil] at hx
        rcases ih (x := []) hps' hcore.symm with ⟨x', hnil, -⟩ | hrun
        · exact absurd hnil.symm (by simp)
        · exact .inr (by simpa [hx] using hrun.cons p)
      · cases p with
        | char c => exact .inr (inRun_of_begins hσ hps' rfl hx hcore)
        | token t =>
          rcases hσ t with hstays | hgone
          · rw [Piece.render, hstays] at hx
            obtain ⟨rfl, rfl⟩ := core_in_token (hps t List.mem_cons_self) hz hx hcore
            exact .inl ⟨[], rfl, [], ps, rfl, rfl⟩
          · exact .inr (inRun_of_begins hσ hps' hgone hx hcore)

/-! ### Cores that can join to a token -/

/-- What stands before a place in the outcome ends with an underscore or with the piece of a
token. -/
def OpensAt (ρ : Text → Text) (ps : List Piece) (x : Text) : Prop :=
  x.getLast? = some '_' ∨
    ∃ before t behind, ps = before ++ .token t :: behind ∧ x = render ρ (before ++ [.token t])

/-- What stands behind a place in the outcome begins with an underscore or with the piece of a
token. -/
def ClosesAt (ρ : Text → Text) (ps : List Piece) (y : Text) : Prop :=
  y.head? = some '_' ∨
    ∃ before t behind, ps = before ++ .token t :: behind ∧ y = render ρ (.token t :: behind)

/-- A core stands in the outcome where the underscores of a token can have been around it before
all tokens were exchanged. -/
def Joint (ρ : Text → Text) (ps : List Piece) (n : Nat) : Prop :=
  ∃ x y, render ρ ps = x ++ core n ++ y ∧ OpensAt ρ ps x ∧ ClosesAt ρ ps y

theorem Joint.core_stands (h : Joint ρ ps n) : core n <:+: render ρ ps := by
  obtain ⟨x, y, hxy, -, -⟩ := h
  exact ⟨x, y, hxy.symm⟩

theorem Joint.cons (h : Joint ρ ps n) (p : Piece) : Joint ρ (p :: ps) n := by
  obtain ⟨x, y, hxy, hopens, hcloses⟩ := h
  refine ⟨p.render ρ ++ x, y, ?_, ?_, ?_⟩
  · rw [render_cons, hxy]
    simp only [List.append_assoc]
  · rcases hopens with hlast | ⟨before, t, behind, rfl, rfl⟩
    · exact .inl (by rw [List.getLast?_append, hlast]; rfl)
    · exact .inr ⟨p :: before, t, behind, rfl, rfl⟩
  · rcases hcloses with hhead | ⟨before, t, behind, rfl, rfl⟩
    · exact .inl hhead
    · exact .inr ⟨p :: before, t, behind, rfl, rfl⟩

/-- A token that has come about in the outcome. -/
theorem joint_of_token (h : token n <:+: render ρ ps) : Joint ρ ps n := by
  obtain ⟨x, y, hxy⟩ := h
  refine ⟨x ++ ['_', '_'], '_' :: '_' :: y, ?_, .inl ?_, .inl rfl⟩
  · rw [← hxy, token_eq_core]
    simp
  · rw [List.getLast?_append]
    rfl

theorem opensAt_of_last {before rest : List Piece} {z : Text}
    (h : (render σ before ++ z).getLast? = some '_') :
    OpensAt ρ (before ++ rest) (render ρ before ++ z) := by
  rcases List.eq_nil_or_concat' z with rfl | ⟨z, c, rfl⟩
  · rcases List.eq_nil_or_concat' before with rfl | ⟨before, p, rfl⟩
    · cases h
    · rw [List.append_nil] at h ⊢
      cases p with
      | char c =>
        left
        rw [render_append] at h ⊢
        rw [List.getLast?_append] at h ⊢
        exact h
      | token t => exact .inr ⟨before, t, rest, by simp, rfl⟩
  · left
    rw [List.getLast?_append] at h ⊢
    rw [List.getLast?_concat] at h ⊢
    exact h

theorem closesAt_of_head {rest behind : List Piece} {r : Text}
    (h : (r ++ render σ behind).head? = some '_') :
    ClosesAt ρ (rest ++ behind) (r ++ render ρ behind) := by
  cases r with
  | cons c r => exact .inl h
  | nil =>
    cases behind with
    | nil => cases h
    | cons p behind =>
      cases p with
      | char c => exact .inl h
      | token t => exact .inr ⟨rest, t, behind, rfl, rfl⟩

/-- What stands in a run of pieces between underscores can join in the outcome. -/
theorem InRun.joint {x y : Text} (h : InRun σ ρ ps n x y) (hx : x.getLast? = some '_')
    (hy : y.head? = some '_') : Joint ρ ps n := by
  obtain ⟨before, run, behind, z, r, rfl, rfl, hrun, rfl⟩ := h
  refine ⟨render ρ before ++ z, r ++ render ρ behind, ?_, ?_, closesAt_of_head hy⟩
  · rw [render_append, render_append, hrun]
    simp only [List.append_assoc]
  · rw [List.append_assoc]
    exact opensAt_of_last hx

/-- A token in a text of pieces is one that was found and stays, or its core stands in the outcome
where it can join. -/
theorem token_in_render (hσ : ∀ t, σ t = t ∨ σ t = ρ t) (hps : ∀ t, .token t ∈ ps → IsToken t)
    {x y : Text} (h : render σ ps = x ++ token n ++ y) : FoundAt σ ps n x ∨ Joint ρ ps n := by
  have hcore : render σ ps = (x ++ ['_', '_']) ++ (core n ++ '_' :: '_' :: y) := by
    rw [h, token_eq_core]
    simp
  rcases core_in_render hσ hps hcore with ⟨x', hx, hfound⟩ | hrun
  · rw [List.append_cancel_right hx]
    exact .inl hfound
  · refine .inr (hrun.joint ?_ rfl)
    rw [List.getLast?_append]
    rfl

/-! ### Putting final texts in place of tokens found -/

/-- One token gives way wherever it was found, and nowhere else. -/
theorem replaceAll_render (hσ : ∀ t, σ t = t ∨ σ t = ρ t) (hps : ∀ t, .token t ∈ ps → IsToken t)
    (hstays : σ (token n) = token n) (hjoint : ¬ Joint ρ ps n) (new : Text) :
    Text.replaceAll (token n) new (render σ ps) =
      render (fun t => if t = token n then new else σ t) ps := by
  have hreplace : ∀ t, Text.replaceAll (token n) new t = Text.replaceFrom (token n) new 0 t :=
    fun t => if_neg (by simpa using token_ne_nil n)
  rw [hreplace]
  induction ps with
  | nil => rfl
  | cons p ps ih =>
    have hps' : ∀ t, .token t ∈ ps → IsToken t := fun t ht => hps t (List.mem_cons_of_mem p ht)
    have hrest := ih hps' fun h => hjoint (h.cons p)
    rw [render_cons, render_cons, ← hrest]
    by_cases hp : p = .token (token n)
    · subst hp
      rw [Piece.render, Piece.render, hstays, if_pos rfl,
        Text.replaceFrom_append_self (token_ne_nil n)]
    · -- the token does not begin in another piece
      have hbegin : ∀ x z, p.render σ = x ++ z → z ≠ [] → ¬ token n <+: z ++ render σ ps := by
        rintro x z hxz hz ⟨y, hy⟩
        have hwhole : render σ (p :: ps) = x ++ token n ++ y := by
          rw [render_cons, hxz, List.append_assoc, ← hy, List.append_assoc]
        rcases token_in_render hσ hps hwhole with ⟨before, behind, hsplit, hx⟩ | hfound
        · cases before with
          | nil => exact hp (List.cons.inj hsplit).1
          | cons p' before =>
            obtain ⟨rfl, -⟩ := List.cons.inj hsplit
            have hlength := congrArg List.length hx
            have hpos := List.length_pos_of_ne_nil hz
            rw [render_cons, hxz, List.length_append, List.length_append] at hlength
            omega
        · exact hjoint hfound
      have hpiece : p.render (fun t => if t = token n then new else σ t) = p.render σ := by
        cases p with
        | char c => rfl
        | token t => exact if_neg fun h => hp (congrArg Piece.token h)
      rw [hpiece, Text.replaceFrom_append_of_not_prefix hbegin]

/-- One more token has a final text. -/
theorem finalFor_concat {finals : List (Text × Text)} {t : Text}
    (h : t ∉ Table.keys finals) (final : Text) :
    finalFor (finals ++ [(t, final)]) =
      fun t' => if t' = t then final else finalFor finals t' := by
  funext t'
  rw [finalFor, finalFor, Table.find?_append, Table.find?_cons]
  by_cases heq : t' = t
  · rw [heq, if_pos rfl, if_pos rfl, Table.find?_eq_none_iff.mpr h]
    rfl
  · rw [if_neg (Ne.symm heq), if_neg heq, Table.find?_nil, Option.or_none]

/-- The tokens that have final texts give way one after another, and the outcome is one exchange. -/
theorem restore_render {done rest : List (Text × Text)} (hps : ∀ t, .token t ∈ ps → IsToken t)
    (htokens : ∀ p ∈ rest, ∃ m, p.1 = token m) (hdistinct : (Table.keys (done ++ rest)).Nodup)
    (hjoint : ∀ m, token m ∈ Table.keys rest → ¬ Joint (finalFor (done ++ rest)) ps m) :
    restore (render (finalFor done) ps) rest = render (finalFor (done ++ rest)) ps := by
  induction rest generalizing done with
  | nil => rw [List.append_nil]; rfl
  | cons p rest ih =>
    obtain ⟨t, final⟩ := p
    obtain ⟨n, rfl⟩ : ∃ n, t = token n := htokens (t, final) List.mem_cons_self
    have hnot : token n ∉ Table.keys done := by
      rw [Table.keys, List.map_append] at hdistinct
      exact fun hdone => List.disjoint_of_nodup_append hdistinct hdone List.mem_cons_self
    have hsplit : done ++ (token n, final) :: rest = (done ++ [(token n, final)]) ++ rest := by
      simp
    have hstages : ∀ t, finalFor done t = t ∨
        finalFor done t = finalFor (done ++ (token n, final) :: rest) t := by
      intro t
      rw [finalFor, finalFor, Table.find?_append]
      cases Table.find? done t with
      | none => exact .inl rfl
      | some f => exact .inr rfl
    have hstays : finalFor done (token n) = token n := by
      rw [finalFor, Table.find?_eq_none_iff.mpr hnot]
      rfl
    change restore (Text.replaceAll (token n) final _) rest = _
    rw [replaceAll_render hstages hps hstays (hjoint n List.mem_cons_self), ← finalFor_concat hnot,
      hsplit]
    rw [hsplit] at hdistinct hjoint
    exact ih (fun p hp => htokens p (List.mem_cons_of_mem _ hp)) hdistinct
      fun m hm => hjoint m (List.mem_cons_of_mem _ hm)

theorem finalFor_nil : finalFor [] = id := rfl

/-- Where no core of a token with a final text can join in the outcome, putting the final texts in
place of one token after another is the exchange of all tokens found. -/
theorem restore_eq_exchangeFound {finals : List (Text × Text)} {t : Text}
    (htokens : ∀ p ∈ finals, ∃ m, p.1 = token m) (hdistinct : (Table.keys finals).Nodup)
    (hjoint : ∀ m, token m ∈ Table.keys finals → ¬ Joint (finalFor finals) (pieces t) m) :
    restore t finals = exchangeFound finals t := by
  have h : restore (render (finalFor []) (pieces t)) finals = exchangeFound finals t :=
    restore_render (fun _ => isToken_of_mem_pieces) htokens hdistinct hjoint
  rwa [finalFor_nil, render_pieces] at h

end Localize.Placeholder
