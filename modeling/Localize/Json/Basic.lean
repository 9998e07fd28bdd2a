import Localize.Number.Binary64
import Localize.Table
import Localize.Text.Basic

/-!
# JSON values

Objects keep their fields in the order of the document, and whole numbers are told apart from
numbers with a point or an exponent. Files and replies may hold any value in any place, so the
library's records keep such a value where they do not look inside it.
-/

namespace Localize

inductive Json where
  | null
  | bool (b : Bool)
  | int (i : Int)
  | float (x : Binary64)
  | str (t : Text)
  | arr (items : List Json)
  | obj (fields : List (Text × Json))
  deriving Repr

/-- The fields of an object. -/
abbrev Fields := Table Text Json

namespace Json

mutual

def decEq : (a b : Json) → Decidable (a = b)
  | .null, b => match b with
    | .null => isTrue rfl
    | .bool _ | .int _ | .float _ | .str _ | .arr _ | .obj _ => isFalse (by simp)
  | .bool x, b => match b with
    | .bool y => decidable_of_iff (x = y) (by simp)
    | .null | .int _ | .float _ | .str _ | .arr _ | .obj _ => isFalse (by simp)
  | .int x, b => match b with
    | .int y => decidable_of_iff (x = y) (by simp)
    | .null | .bool _ | .float _ | .str _ | .arr _ | .obj _ => isFalse (by simp)
  | .float x, b => match b with
    | .float y => decidable_of_iff (x = y) (by simp)
    | .null | .bool _ | .int _ | .str _ | .arr _ | .obj _ => isFalse (by simp)
  | .str x, b => match b with
    | .str y => decidable_of_iff (x = y) (by simp)
    | .null | .bool _ | .int _ | .float _ | .arr _ | .obj _ => isFalse (by simp)
  | .arr xs, b => match b with
    | .arr ys =>
      match decEqItems xs ys with
      | isTrue h => isTrue (by rw [h])
      | isFalse h => isFalse (fun e => h (by injection e))
    | .null | .bool _ | .int _ | .float _ | .str _ | .obj _ => isFalse (by simp)
  | .obj xs, b => match b with
    | .obj ys =>
      match decEqFields xs ys with
      | isTrue h => isTrue (by rw [h])
      | isFalse h => isFalse (fun e => h (by injection e))
    | .null | .bool _ | .int _ | .float _ | .str _ | .arr _ => isFalse (by simp)

def decEqItems : (xs ys : List Json) → Decidable (xs = ys)
  | [], [] => isTrue rfl
  | [], _ :: _ => isFalse (by simp)
  | _ :: _, [] => isFalse (by simp)
  | x :: xs, y :: ys =>
    match decEq x y, decEqItems xs ys with
    | isTrue h, isTrue hs => isTrue (by rw [h, hs])
    | isFalse h, _ => isFalse (fun e => h (by injection e))
    | _, isFalse hs => isFalse (fun e => hs (by injection e))

def decEqFields : (xs ys : List (Text × Json)) → Decidable (xs = ys)
  | [], [] => isTrue rfl
  | [], _ :: _ => isFalse (by simp)
  | _ :: _, [] => isFalse (by simp)
  | (k, x) :: xs, (l, y) :: ys =>
    match (inferInstance : Decidable (k = l)), decEq x y, decEqFields xs ys with
    | isTrue hk, isTrue h, isTrue hs => isTrue (by rw [hk, h, hs])
    | isFalse hk, _, _ => isFalse (fun e => hk (by injection e with e _; injection e))
    | _, isFalse h, _ => isFalse (fun e => h (by injection e with e _; injection e))
    | _, _, isFalse hs => isFalse (fun e => hs (by injection e))

end

instance : DecidableEq Json := decEq

instance : Inhabited Json := ⟨.null⟩

/-- Zero, the empty text, an empty list or object, null and false count as nothing. -/
def isSomething : Json → Bool
  | .null => false
  | .bool b => b
  | .int i => i ≠ 0
  | .float x => !x.isZero
  | .str t => !t.isEmpty
  | .arr items => !items.isEmpty
  | .obj fields => !fields.isEmpty

/-- The value unless it counts as nothing, then another. -/
def orElse (value other : Json) : Json := if value.isSomething then value else other

/-- The field of an object; nothing for a value that is no object. -/
def field? (name : Text) : Json → Option Json
  | .obj fields => Table.find? fields name
  | _ => none

def text? : Json → Option Text
  | .str t => some t
  | _ => none

def ofOption (value : Option Text) : Json :=
  match value with
  | some t => .str t
  | none => .null

/-- A whole number that is a count. -/
def nat (n : Nat) : Json := .int n

/-- A text written as a string literal. -/
def lit (s : String) : Json := .str s.toList

/-- Fields whose names are string literals. -/
def record (fields : List (String × Json)) : Fields := fields.map fun (k, v) => (k.toList, v)

end Json

end Localize
