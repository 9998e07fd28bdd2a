import Localize.Text.Basic
import Localize.Text.CaseTable
import Localize.Text.Word

/-!
# Letter case

Small and capital forms of whole texts, and the comparison of single characters that ignores case.
A capital sigma becomes the final small sigma at the end of a word. Ignoring case is an equivalence
between characters: two characters are alike when they have the same folded form, so it never
changes the length of a text.
-/

namespace Localize.Text

/-- The image of a code point under a table of runs. -/
def applyRuns (runs : List (Nat × Nat × Nat × Int)) (n : Nat) : Nat :=
  let covers (run : Nat × Nat × Nat × Int) : Bool :=
    run.1 ≤ n && n ≤ run.2.1 && (n - run.1) % run.2.2.1 = 0
  match runs.find? covers with
  | some (_, _, _, shift) => (Int.ofNat n + shift).toNat
  | none => n

/-- The small letter of a character, one character for one. -/
def lowerChar (c : Char) : Char :=
  if c.toNat < 128 then c.toLower else Char.ofNat (applyRuns lowerRuns c.toNat)

/-- The form all characters share that are alike when case is ignored. -/
def foldChar (c : Char) : Char :=
  let small := lowerChar c
  match variantClasses.find? (·.contains small.toNat) with
  | some (first :: _) => Char.ofNat first
  | _ => small

/-- Alike when case is ignored. -/
def sameLetter (a b : Char) : Bool := foldChar a = foldChar b

/-- All characters alike to a given one when case is ignored. -/
def letterVariants (c : Char) : List Char :=
  let small := (lowerChar c).toNat
  let smalls := (variantClasses.find? (·.contains small)).getD [small]
  smalls.flatMap fun target =>
    Char.ofNat target :: (if target < 128 then [(Char.ofNat target).toUpper] else []) ++
      lowerRuns.filterMap fun (first, last, step, shift) =>
        let source := (Int.ofNat target - shift).toNat
        if first ≤ source && source ≤ last && (source - first) % step = 0 then
          some (Char.ofNat source)
        else none

def isCased (c : Char) : Bool := inRanges casedRanges c.toNat

def isCaseIgnorable (c : Char) : Bool := inRanges caseIgnorableRanges c.toNat

/-- Whether the first character that case does not look through is a cased letter. -/
def startsCased (t : Text) : Bool :=
  match t.dropWhile isCaseIgnorable with
  | [] => false
  | c :: _ => isCased c

/-- Small letters of a text that follows a cased letter or not. -/
def lowerAfter : Bool → Text → Text
  | _, [] => []
  | afterCased, c :: rest =>
    let next := if isCaseIgnorable c then afterCased else isCased c
    let small :=
      if c.toNat = 0x3a3 then
        [if afterCased && !startsCased rest then Char.ofNat 0x3c2 else Char.ofNat 0x3c3]
      else if c.toNat = 0x130 then ['i', Char.ofNat 0x307]
      else [lowerChar c]
    small ++ lowerAfter next rest

def lower (t : Text) : Text :=
  if t.all fun c => c.toNat < 128 then t.map Char.toLower else lowerAfter false t

/-- The capital form of one character. -/
def upperChar (c : Char) : Text :=
  if c.toNat < 128 then [c.toUpper]
  else
    match upperExpansions.find? (·.1 = c.toNat) with
    | some (_, expansion) => expansion.map Char.ofNat
    | none => [Char.ofNat (applyRuns upperRuns c.toNat)]

def upper (t : Text) : Text := t.flatMap upperChar

end Localize.Text
