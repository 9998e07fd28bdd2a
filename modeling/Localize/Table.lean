/-!
# Tables in insertion order

A table is a list of pairs with distinct keys in the order in which the keys were first given. A
second value for a key takes the place of the first. The view of a table is `find?`: what an
operation does is said by what it does to every look-up.
-/

namespace Localize

/-- Pairs in the order in which their keys were first given. -/
abbrev Table (κ α : Type) := List (κ × α)

namespace Table

variable {κ α β : Type} [DecidableEq κ]

def find? : Table κ α → κ → Option α
  | [], _ => none
  | (k, v) :: rest, key => if k = key then some v else find? rest key

def has (t : Table κ α) (key : κ) : Bool := (find? t key).isSome

/-- Gives a key a value; a new key goes to the end. -/
def insert : Table κ α → κ → α → Table κ α
  | [], key, value => [(key, value)]
  | (k, v) :: rest, key, value =>
    if k = key then (k, value) :: rest else (k, v) :: insert rest key value

def erase : Table κ α → κ → Table κ α
  | [], _ => []
  | (k, v) :: rest, key => if k = key then rest else (k, v) :: erase rest key

/-- The pairs of the second table over those of the first. -/
def merge (t : Table κ α) (newer : List (κ × α)) : Table κ α :=
  newer.foldl (fun acc p => insert acc p.1 p.2) t

/-- The table of a list of pairs, the last value of a key counting. -/
def ofPairs (pairs : List (κ × α)) : Table κ α := merge [] pairs

def keys (t : Table κ α) : List κ := t.map (·.1)

def values (t : Table κ α) : List α := t.map (·.2)

theorem find?_insert (t : Table κ α) (key k : κ) (value : α) :
    find? (insert t key value) k = if key = k then some value else find? t k := by
  induction t with
  | nil => simp [insert, find?]
  | cons p rest ih =>
    obtain ⟨k', v⟩ := p
    unfold insert
    by_cases h : k' = key
    · subst h
      by_cases hk : k' = k <;> simp [find?, hk]
    · by_cases hk : k' = k
      · subst hk
        have : ¬ key = k' := fun e => h e.symm
        simp [find?, h, this]
      · simp [find?, h, hk, ih]

theorem find?_erase_ne (t : Table κ α) {key k : κ} (h : key ≠ k) :
    find? (erase t key) k = find? t k := by
  induction t with
  | nil => rfl
  | cons p rest ih =>
    obtain ⟨k', v⟩ := p
    unfold erase
    by_cases hk : k' = key
    · subst hk
      simp [find?, h]
    · by_cases hk' : k' = k
      · subst hk'
        simp [find?, hk]
      · simp [find?, hk, hk', ih]

end Table

end Localize
