/-!
# Texts

A text is the list of its characters. Every position and every length of the library counts
characters, and texts are ordered by code point, the first difference deciding. A sorted set of
texts is a strictly increasing list; it is what every listing of strings shows.
-/

namespace Localize

/-- A text is the list of its characters. -/
abbrev Text := List Char

namespace Text

/-- Decimal digits of a natural number. -/
def ofNat (n : Nat) : Text := Nat.toDigits 10 n

/-- Decimal digits of an integer, with a leading minus below zero. -/
def ofInt : Int → Text
  | .ofNat n => ofNat n
  | .negSucc n => '-' :: ofNat (n + 1)

/-- The parts one after another, with a separator between neighbours. -/
def join (separator : Text) : List Text → Text
  | [] => []
  | [part] => part
  | part :: next :: rest => part ++ separator ++ join separator (next :: rest)

/-- Code point order, a shorter text before its extensions. -/
def before : Text → Text → Bool
  | _, [] => false
  | [], _ :: _ => true
  | a :: as, b :: bs => if a = b then before as bs else a.toNat < b.toNat

/-- Inserts into a strictly increasing list; a text that is there already is not repeated. -/
def insertSorted (t : Text) : List Text → List Text
  | [] => [t]
  | u :: rest =>
    if t = u then u :: rest
    else if before t u then t :: u :: rest
    else u :: insertSorted t rest

/-- The strictly increasing list of the given texts. -/
def sortedSet (texts : List Text) : List Text :=
  texts.foldr insertSorted []

theorem mem_insertSorted {t u : Text} {texts : List Text} :
    u ∈ insertSorted t texts ↔ u = t ∨ u ∈ texts := by
  induction texts with
  | nil => simp [insertSorted]
  | cons v rest ih =>
    unfold insertSorted
    split
    · next h => simp [h]
    · split
      · simp
      · simp only [List.mem_cons, ih]
        constructor
        · rintro (h | h | h) <;> simp [h]
        · rintro (h | h | h) <;> simp [h]

theorem mem_sortedSet {t : Text} {texts : List Text} : t ∈ sortedSet texts ↔ t ∈ texts := by
  induction texts with
  | nil => simp [sortedSet]
  | cons u rest ih =>
    rw [List.mem_cons, ← ih]
    exact mem_insertSorted

/-- Words between the occurrences of one character, as many as there are occurrences and one
more. -/
def splitOn (separator : Char) : Text → List Text
  | [] => [[]]
  | c :: rest =>
    match splitOn separator rest with
    | [] => [[c]]
    | word :: words => if c = separator then [] :: word :: words else (c :: word) :: words

end Text

end Localize
