import Localize.Text.Basic

/-!
# Blank characters

White space in the sense of Unicode's separators and of the control characters that have always
counted as blanks. Trimming takes blanks off both ends and nothing else: `strip_strip` says that a
trimmed text stays as it is.
-/

namespace Localize.Text

def isBlank (c : Char) : Bool :=
  let n := c.toNat
  (0x09 ≤ n && n ≤ 0x0d) || (0x1c ≤ n && n ≤ 0x20) || n = 0x85 || n = 0xa0 || n = 0x1680 ||
  (0x2000 ≤ n && n ≤ 0x200a) || n = 0x2028 || n = 0x2029 || n = 0x202f || n = 0x205f || n = 0x3000

/-- No character but blanks; the empty text too. -/
def allBlank (t : Text) : Bool := t.all isBlank

def stripLeft (t : Text) : Text := t.dropWhile isBlank

/-- Without the blanks at the end. -/
def stripRight : Text → Text
  | [] => []
  | c :: rest =>
    match stripRight rest with
    | [] => if isBlank c then [] else [c]
    | kept => c :: kept

/-- Without the blanks at both ends. -/
def strip (t : Text) : Text := stripRight (stripLeft t)

def leadingBlanks (t : Text) : Text := t.takeWhile isBlank

def trailingBlanks (t : Text) : Text := (t.reverse.takeWhile isBlank).reverse

/-- The maximal runs of characters that are not blank. -/
def words : Text → List Text
  | [] => []
  | c :: rest =>
    if isBlank c then words rest
    else
      match rest with
      | [] => [[c]]
      | d :: _ =>
        if isBlank d then [c] :: words rest
        else
          match words rest with
          | [] => [[c]]
          | w :: ws => (c :: w) :: ws

@[simp] theorem stripRight_nil : stripRight [] = [] := rfl

theorem stripRight_cons (c : Char) (t : Text) :
    stripRight (c :: t) =
      if stripRight t = [] then (if isBlank c then [] else [c]) else c :: stripRight t := by
  rw [stripRight]
  split <;> simp_all

theorem stripRight_stripRight (t : Text) : stripRight (stripRight t) = stripRight t := by
  induction t with
  | nil => rfl
  | cons c t ih =>
    rw [stripRight_cons]
    by_cases ht : stripRight t = []
    · by_cases hc : isBlank c <;> simp [ht, hc, stripRight_cons]
    · simp [ht, stripRight_cons, ih]

theorem stripLeft_stripRight_of_head {t : Text} (h : stripLeft t = t) :
    stripLeft (stripRight t) = stripRight t := by
  cases t with
  | nil => rfl
  | cons c t =>
    have hc : isBlank c = false := by
      by_cases hc : isBlank c = true
      · have hl := congrArg List.length h
        have hle := (List.dropWhile_suffix (l := t) isBlank).length_le
        simp only [stripLeft, List.dropWhile_cons, hc, if_true] at hl
        simp only [List.length_cons] at hl
        omega
      · simpa using hc
    rw [stripRight_cons]
    by_cases ht : stripRight t = []
    · simp [ht, hc, stripLeft]
    · simp [ht, hc, stripLeft]

theorem stripLeft_stripLeft (t : Text) : stripLeft (stripLeft t) = stripLeft t := by
  induction t with
  | nil => rfl
  | cons c t ih =>
    by_cases hc : isBlank c = true
    · simpa [stripLeft, List.dropWhile_cons, hc] using ih
    · simp [stripLeft, hc]

theorem strip_strip (t : Text) : strip (strip t) = strip t := by
  unfold strip
  rw [stripLeft_stripRight_of_head (stripLeft_stripLeft t), stripRight_stripRight]

end Localize.Text
