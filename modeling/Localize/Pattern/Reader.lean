import Localize.Pattern.Basic
import Localize.Table

/-!
# Reading patterns

The written form of search patterns. What has no meaning is refused: a repetition of nothing, a
parenthesis or a bracket without its partner, an escape of a letter that names nothing, a reference
to a group that is not there or not closed, and looking behind at something without one length.
-/

namespace Localize.Pattern

/-- How the characters of a pattern are to be taken. -/
structure Flags where
  ignoreCase : Bool
  lines : Bool
  acrossLines : Bool
  spaced : Bool
  deriving DecidableEq, Repr

/-- What is known of the groups so far: how many were opened, their names, which of them are open,
and the groups that conditions asked for. -/
structure Groups where
  count : Nat
  names : Table Text Nat
  pending : List Nat
  asked : List Nat

def takeDigits (t : Text) : Text := t.takeWhile Char.isDigit

def number (digits : Text) : Nat := digits.foldl (fun n c => n * 10 + (c.toNat - 48)) 0

def isOctal (c : Char) : Bool := '0' ≤ c && c ≤ '7'

def octal (digits : Text) : Nat := digits.foldl (fun n c => n * 8 + (c.toNat - 48)) 0

def hexDigit? (c : Char) : Option Nat :=
  if c.isDigit then some (c.toNat - 48)
  else if 'a' ≤ c.toLower && c.toLower ≤ 'f' then some (c.toLower.toNat - 87)
  else none

/-- A number of exactly so many hexadecimal digits. -/
def hexNumber? : (width value : Nat) → Text → Option (Nat × Text)
  | 0, value, t => some (value, t)
  | _ + 1, _, [] => none
  | width + 1, value, c :: rest =>
    match hexDigit? c with
    | some d => hexNumber? width (value * 16 + d) rest
    | none => none

/-- The character an escape letter stands for everywhere. -/
def controlEscape? (c : Char) : Option Char :=
  if c = 'a' then some '\x07'
  else if c = 'f' then some '\x0c'
  else if c = 'n' then some '\n'
  else if c = 'r' then some '\r'
  else if c = 't' then some '\t'
  else if c = 'v' then some '\x0b'
  else if c = '\\' then some '\\'
  else none

def categoryEscape? (c : Char) : Option SetItem :=
  if c = 'd' then some (.category .digit false)
  else if c = 'D' then some (.category .digit true)
  else if c = 's' then some (.category .blank false)
  else if c = 'S' then some (.category .blank true)
  else if c = 'w' then some (.category .word false)
  else if c = 'W' then some (.category .word true)
  else none

def placeEscape? (c : Char) : Option Pattern :=
  if c = 'A' then some .textStart
  else if c = 'Z' then some .textEnd
  else if c = 'b' then some (.boundary false)
  else if c = 'B' then some (.boundary true)
  else none

/-- How many hexadecimal digits follow an escape letter. -/
def hexWidth? (c : Char) : Option Nat :=
  if c = 'x' then some 2 else if c = 'u' then some 4 else if c = 'U' then some 8 else none

/-- A character given by its number. -/
def charNumbered? (n : Nat) : Option Char := if n < 0x110000 then some (Char.ofNat n) else none

/-- An escape inside brackets, behind its backslash: an item, and whether it is a single
character. -/
def setEscape? : Text → Option (SetItem × Text)
  | [] => none
  | c :: rest =>
    match categoryEscape? c, hexWidth? c with
    | some item, _ => some (item, rest)
    | none, some width => do
      let (n, rest) ← hexNumber? width 0 rest
      let _ ← charNumbered? n
      return (.range n n, rest)
    | none, none =>
      if c = 'b' then some (.range 8 8, rest)
      else
        match controlEscape? c with
        | some d => some (.range d.toNat d.toNat, rest)
        | none =>
          if isOctal c then
            let digits := c :: (rest.take 2).takeWhile isOctal
            let n := octal digits
            if n > 0o377 then none else some (.range n n, rest.drop (digits.length - 1))
          else if c.isAlphanum then none
          else some (.range c.toNat c.toNat, rest)

/-- One item of a set, before a possible range. -/
def setItem? : Text → Option (SetItem × Text)
  | [] => none
  | '\\' :: rest => setEscape? rest
  | c :: rest => some (.range c.toNat c.toNat, rest)

/-- The items of a set up to its closing bracket; a bracket at the very beginning is an item. -/
def setItems : (fuel : Nat) → (atStart : Bool) → Text → Option (List SetItem × Text)
  | 0, _, _ => none
  | fuel + 1, atStart, t =>
    match t, atStart with
    | [], _ => none
    | ']' :: rest, false => some ([], rest)
    | t, _ => do
      let (item, rest) ← setItem? t
      match rest with
      | '-' :: ']' :: rest => some ([item, .range 45 45], rest)
      | '-' :: more => do
        let (last, rest) ← setItem? more
        match item, last with
        | .range a _, .range b _ =>
          if b < a then none
          else do
            let (items, rest) ← setItems fuel false rest
            return (.range a b :: items, rest)
        | _, _ => none
      | rest => do
        let (items, rest) ← setItems fuel false rest
        return (item :: items, rest)

/-- The pattern of an escape outside brackets, behind its backslash. -/
def escape? (flags : Flags) (groups : Groups) : Text → Option (Pattern × Text)
  | [] => none
  | c :: rest =>
    match placeEscape? c, categoryEscape? c, hexWidth? c, controlEscape? c with
    | some p, _, _, _ => some (p, rest)
    | _, some item, _, _ => some (.oneOf false [item] false, rest)
    | _, _, some width, _ => do
      let (n, rest) ← hexNumber? width 0 rest
      let d ← charNumbered? n
      return (.char d flags.ignoreCase, rest)
    | _, _, _, some d => some (.char d flags.ignoreCase, rest)
    | none, none, none, none =>
      if c = '0' then
        let digits := (rest.take 2).takeWhile isOctal
        some (.char (Char.ofNat (octal digits)) flags.ignoreCase, rest.drop digits.length)
      else if c.isDigit then
        let second := (rest.take 1).takeWhile Char.isDigit
        let third := if (c :: second).length = 2 then (rest.drop 1).take 1 else []
        let three := c :: second ++ third
        if three.length = 3 && three.all isOctal then
          if octal three > 0o377 then none
          else some (.char (Char.ofNat (octal three)) flags.ignoreCase, rest.drop 2)
        else
          let index := number (c :: second)
          if index ≤ groups.count && !groups.pending.contains index then
            some (.again index flags.ignoreCase, rest.drop second.length)
          else none
      else if c.isAlpha then none
      else some (.char c flags.ignoreCase, rest)

/-- The bounds of a repetition in braces, behind the opening brace; none when it is no
repetition. -/
def bounds? (t : Text) : Option (Text × Option Text × Text) :=
  let low := takeDigits t
  match t.drop low.length with
  | '\x7d' :: rest => if low.isEmpty then none else some (low, some low, rest)
  | ',' :: more =>
    let high := takeDigits more
    match more.drop high.length with
    | '\x7d' :: rest => some (low, if high.isEmpty then none else some high, rest)
    | _ => none
  | _ => none

/-- Puts a repetition on the last item, whose list is given last first. -/
def repeatLast (least : Nat) (most : Option Nat) (items : List Pattern) (t : Text) :
    Option (List Pattern × Text) :=
  match items with
  | [] => none
  | p :: earlier =>
    if p.isPlace || p.isMany || most.any (· < least) then none
    else
      let (greed, rest) : Greed × Text := match t with
        | '?' :: rest => (.least, rest)
        | '+' :: rest => (.keeping, rest)
        | rest => (.most, rest)
      some (.many least most greed p :: earlier, rest)

/-- The text up to a closing mark, which has to be there. -/
def upTo? (mark : Char) (t : Text) : Option (Text × Text) :=
  let inside := t.takeWhile (· ≠ mark)
  match t.drop inside.length with
  | _ :: rest => if inside.isEmpty then none else some (inside, rest)
  | [] => none

/-- A name for a group. -/
def isGroupName (t : Text) : Bool :=
  match t with
  | [] => false
  | c :: _ => t.all Text.isWord && !Text.isDigit c

def setFlag? (on : Bool) (flags : Flags) (c : Char) : Option Flags :=
  if c = 'i' then some { flags with ignoreCase := on }
  else if c = 'm' then some { flags with lines := on }
  else if c = 's' then some { flags with acrossLines := on }
  else if c = 'x' then some { flags with spaced := on }
  else if (c = 'u' || c = 'a') && on then some flags
  else none

/-- Flags switched on, and off behind a hyphen, up to the mark behind them. -/
def flagLetters? : (on : Bool) → Flags → Text → Option (Flags × Char × Text)
  | _, _, [] => none
  | on, flags, c :: rest =>
    if c = ':' || (c = ')' && on) then some (flags, c, rest)
    else if c = '-' && on then
      match rest with
      | d :: _ => if d.isAlpha then flagLetters? false flags rest else none
      | [] => none
    else (setFlag? on flags c).bind fun flags => flagLetters? on flags rest

/-- The blanks and remarks that a spaced pattern may hold. -/
def skipSpaces : (remark : Bool) → Text → Text
  | _, [] => []
  | true, c :: rest => skipSpaces (c ≠ '\n') rest
  | false, c :: rest =>
    if c = ' ' || ('\t' ≤ c && c ≤ '\r') then skipSpaces false rest
    else if c = '#' then skipSpaces true rest
    else c :: rest

def Groups.opened (g : Groups) (name : Option Text) : Option Groups :=
  let index := g.count + 1
  let named : Option (Table Text Nat) := match name with
    | none => some g.names
    | some n => if Table.has g.names n then none else some (Table.insert g.names n index)
  named.map fun names => { g with count := index, names, pending := index :: g.pending }

def Groups.closed (g : Groups) (index : Nat) : Groups :=
  { g with pending := g.pending.filter (· ≠ index) }

/-- The closing parenthesis of a group. -/
def closing? {α : Type} (p : α) (g : Groups) (t : Text) :
    Option (α × Groups × Text) :=
  match t with
  | ')' :: rest => some (p, g, rest)
  | _ => none

mutual

/-- Alternatives up to a closing parenthesis or the end. -/
def alternatives : (fuel : Nat) → Flags → Groups → Text → Option (Pattern × Groups × Text)
  | 0, _, _, _ => none
  | fuel + 1, flags, groups, t =>
    match items fuel flags groups [] t with
    | none => none
    | some (p, groups, '|' :: rest) =>
      match alternatives fuel flags groups rest with
      | none => none
      | some (q, groups, rest) => some (.alt p q, groups, rest)
    | some read => some read

/-- The items of one alternative; those already read are given last first. -/
def items : (fuel : Nat) → Flags → Groups → List Pattern → Text → Option (Pattern × Groups × Text)
  | 0, _, _, _, _ => none
  | fuel + 1, flags, groups, done, t =>
    match if flags.spaced then skipSpaces false t else t with
    | [] => some (.ofList done.reverse, groups, [])
    | c :: rest =>
      if c = '|' || c = ')' then some (.ofList done.reverse, groups, c :: rest)
      else if c = '\\' then do
        let (p, rest) ← escape? flags groups rest
        items fuel flags groups (p :: done) rest
      else if c = '[' then do
        let (negated, rest) := match rest with
          | '^' :: rest => (true, rest)
          | rest => (false, rest)
        let (members, rest) ← setItems (rest.length + 1) true rest
        items fuel flags groups (.oneOf negated members flags.ignoreCase :: done) rest
      else if c = '*' || c = '+' || c = '?' then do
        let (done, rest) ← repeatLast (if c = '+' then 1 else 0) (if c = '?' then some 1 else none)
          done rest
        items fuel flags groups done rest
      else if c = '\x7b' then
        match bounds? rest with
        | none => items fuel flags groups (.char c flags.ignoreCase :: done) rest
        | some (low, high, rest) => do
          let (done, rest) ← repeatLast (number low) (high.map number) done rest
          items fuel flags groups done rest
      else if c = '.' then items fuel flags groups (.anyChar flags.acrossLines :: done) rest
      else if c = '^' then
        items fuel flags groups ((if flags.lines then .lineStart else .textStart) :: done) rest
      else if c = '$' then
        items fuel flags groups ((if flags.lines then .lineEnd else .lastLineEnd) :: done) rest
      else if c = '(' then
        match rest with
        | '?' :: rest => extension fuel flags groups done rest
        | rest => captured fuel flags groups done none rest
      else items fuel flags groups (.char c flags.ignoreCase :: done) rest

/-- A capturing group behind its parenthesis, then the items behind it. -/
def captured : (fuel : Nat) → Flags → Groups → List Pattern → Option Text → Text →
    Option (Pattern × Groups × Text)
  | 0, _, _, _, _, _ => none
  | fuel + 1, flags, groups, done, name, t => do
    let groups ← groups.opened name
    let index := groups.count
    let (p, groups, rest) ← alternatives fuel flags groups t
    let (p, groups, rest) ← closing? p groups rest
    items fuel flags (groups.closed index) (.capture index p :: done) rest

/-- Whatever begins with a parenthesis and a question mark, then the items behind it. -/
def extension :
    (fuel : Nat) → Flags → Groups → List Pattern → Text → Option (Pattern × Groups × Text)
  | 0, _, _, _, _ => none
  | fuel + 1, flags, groups, done, t =>
    match t with
    | 'P' :: '<' :: rest => do
      let (name, rest) ← upTo? '>' rest
      if isGroupName name then captured fuel flags groups done (some name) rest else none
    | 'P' :: '=' :: rest => do
      let (name, rest) ← upTo? ')' rest
      let index ← Table.find? groups.names name
      if groups.pending.contains index then none
      else items fuel flags groups (.again index flags.ignoreCase :: done) rest
    | ':' :: rest => do
      let (p, groups, rest) ← alternatives fuel flags groups rest
      let (p, groups, rest) ← closing? p groups rest
      items fuel flags groups (.enclosed p :: done) rest
    | '>' :: rest => do
      let (p, groups, rest) ← alternatives fuel flags groups rest
      let (p, groups, rest) ← closing? p groups rest
      items fuel flags groups (.whole p :: done) rest
    | '#' :: rest =>
      match rest.dropWhile (· ≠ ')') with
      | _ :: rest => items fuel flags groups done rest
      | [] => none
    | '=' :: rest => look fuel flags groups done false false rest
    | '!' :: rest => look fuel flags groups done false true rest
    | '<' :: '=' :: rest => look fuel flags groups done true false rest
    | '<' :: '!' :: rest => look fuel flags groups done true true rest
    | '(' :: rest => do
      let (name, rest) ← upTo? ')' rest
      let index ← if name.all Char.isDigit then
          (if number name = 0 || 100000 ≤ number name then none else some (number name))
        else Table.find? groups.names name
      let groups := { groups with asked := index :: groups.asked }
      let (p, groups, rest) ← items fuel flags groups [] rest
      match rest with
      | '|' :: rest => do
        let (q, groups, rest) ← items fuel flags groups [] rest
        let (q, groups, rest) ← closing? q groups rest
        items fuel flags groups (.ifCaptured index p q :: done) rest
      | rest => do
        let (p, groups, rest) ← closing? p groups rest
        items fuel flags groups (.ifCaptured index p .nothing :: done) rest
    | t => do
      let (inner, mark, rest) ← flagLetters? true flags t
      if mark = ')' then none
      else do
        let (p, groups, rest) ← alternatives fuel inner groups rest
        let (p, groups, rest) ← closing? p groups rest
        items fuel flags groups (.enclosed p :: done) rest

/-- A look ahead or behind, then the items behind it. -/
def look : (fuel : Nat) → Flags → Groups → List Pattern → (back negated : Bool) →
    Text → Option (Pattern × Groups × Text)
  | 0, _, _, _, _, _, _ => none
  | fuel + 1, flags, groups, done, back, negated, t => do
    let (p, groups, rest) ← alternatives fuel flags groups t
    let (p, groups, rest) ← closing? p groups rest
    if back then do
      let width ← p.width?
      items fuel flags groups (.behind negated width p :: done) rest
    else items fuel flags groups (.ahead negated p :: done) rest

end

/-- The flags for a whole pattern, which stand in groups of their own before anything else. -/
def leadingFlags : (fuel : Nat) → Flags → Text → Flags × Text
  | fuel + 1, flags, '(' :: '?' :: rest =>
    match flagLetters? true flags rest with
    | some (inner, ')', rest) => leadingFlags fuel inner rest
    | _ => (flags, '(' :: '?' :: rest)
  | _, flags, t => (flags, t)

/-- The pattern of a written form with the number of its groups; none for a form without meaning. -/
def ofText? (ignoreCase : Bool) (t : Text) : Option (Pattern × Nat) :=
  let (flags, rest) := leadingFlags t.length ⟨ignoreCase, false, false, false⟩ t
  match alternatives (4 * t.length + 4) flags ⟨0, [], [], []⟩ rest with
  | some (p, groups, []) =>
    if groups.asked.all (· ≤ groups.count) then some (p, groups.count) else none
  | _ => none

end Localize.Pattern
