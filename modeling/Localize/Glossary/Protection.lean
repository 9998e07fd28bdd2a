import Localize.Glossary.Basic
import Localize.Glossary.Placeholder

/-!
# Terms in texts

A term is found where it stands as whole words. Before a translation, strings that are exactly a
term are settled at once, and terms inside other strings give way to placeholders; afterwards the
placeholders give way to the terms' final forms.
-/

namespace Localize.Glossary

/-- The rest of a text behind a term that it begins with. -/
def behindTerm? (same : Char → Char → Bool) : Text → Text → Option Text
  | [], rest => some rest
  | _ :: _, [] => none
  | a :: term, b :: rest => if same a b then behindTerm? same term rest else none

/-- Reads a term at the beginning of a text where both its ends are word boundaries. -/
def termMatcher (same : Char → Char → Bool) (term : Text) : Text.Matcher Text := fun left t =>
  if Text.isBoundary left t.head? then
    match behindTerm? same term t with
    | some rest =>
      let matched := t.take term.length
      if Text.isBoundary (matched.getLast?.or left) rest.head? then some (matched, term.length)
      else none
    | none => none
  else none

/-- A place where a term stands. -/
structure Occurrence where
  entry : Entry
  position : Nat
  matched : Text

def Occurrence.span (m : Occurrence) : Span := ⟨m.position, m.matched⟩

/-- The places where the term of an entry stands. -/
def Entry.occurrences (e : Entry) (t : Text) : Except Fault (List Occurrence) :=
  match e.term with
  | .str term =>
    let same : Char → Char → Bool :=
      if e.caseSensitive then fun a b => a = b else Text.sameLetter
    .ok ((Text.scan (termMatcher same term) t).map fun f => ⟨e, f.start, f.value⟩)
  | _ => .error .wrongType

/-- The places where terms stand, from left to right. -/
def find (g : Glossary) (t : Text) : Except Fault (List Occurrence) := do
  let found ← g.terms.values.mapM fun e => e.occurrences t
  return sortBy (fun m n => m.position < n.position) found.flatten

/-- The final form of a string that is exactly a term. -/
def wholeTerm? (g : Glossary) (language t : Text) : Option Json :=
  let trimmed := Text.strip t
  match Table.find? g.terms (.str trimmed) with
  | some e => e.final? language
  | none =>
    match Table.find? g.terms (.str (Text.lower trimmed)) with
    | some e => e.final? language
    | none => none

/-- Strings to translate, and the final forms of those that are exactly a term. -/
structure Settled where
  pending : List Text
  finals : Table Text Json

def settleNext (g : Glossary) (language : Text) (s : Settled) (t : Text) : Settled :=
  match g.wholeTerm? language t with
  | some final => { s with finals := Table.insert s.finals t final }
  | none => { s with pending := s.pending ++ [t] }

def settle (g : Glossary) (language : Text) (strings : List Text) : Settled :=
  strings.foldl (g.settleNext language) ⟨[], []⟩

/-- What a placeholder stands for. -/
structure Reserved where
  matched : Text
  term : Json
  final : Json
  position : Nat
  caseSensitive : Bool

/-- Placeholders and what they stand for. -/
abbrev Reservations := List (Text × Reserved)

/-- The occurrences in a text that have a final form, with that form. -/
def reservable (g : Glossary) (language t : Text) : Except Fault (List (Occurrence × Json)) := do
  let found ← g.find t
  return found.filterMap fun m => (m.entry.final? language).map fun final => (m, final)

/-- What a span stands for: of several occurrences at one place with the same text the last. -/
def reservation? (candidates : List (Occurrence × Json)) (s : Span) : Option Reserved :=
  (candidates.reverse.find? fun c => s = c.1.span).map fun c =>
    ⟨c.1.matched, c.1.entry.term, c.2, c.1.position, c.1.entry.caseSensitive⟩

/-- Strings with placeholders, what these stand for, and the next number. -/
structure Prepared where
  strings : List Text
  reservations : Reservations
  next : Nat

def prepareNext (g : Glossary) (language : Text) (p : Prepared) (t : Text) :
    Except Fault Prepared := do
  let candidates ← g.reservable language t
  let result := Placeholder.protect t (candidates.map fun c => c.1.span) p.next
  let new := result.replaced.filterMap fun p =>
    (reservation? candidates p.2).map fun r => (p.1, r)
  return ⟨p.strings ++ [result.text], p.reservations ++ new, result.next⟩

/-- Puts placeholders in place of the terms in strings, numbered through all of them. -/
def protect (g : Glossary) (language : Text) (strings : List Text) : Except Fault Prepared :=
  strings.foldlM (g.prepareNext language) ⟨[], [], 0⟩

/-- Strings ready for translation: those settled, the others as given and as sent. -/
structure Preparation where
  finals : Table Text Json
  pending : List Text
  sent : List Text
  reservations : Reservations

/-- Settles strings that are a term and puts placeholders into the others. -/
def prepare (g : Glossary) (language : Text) (strings : List Text) :
    Except Fault Preparation := do
  let settled := g.settle language strings
  let prepared ← g.protect language settled.pending
  return ⟨settled.finals, settled.pending, prepared.strings, prepared.reservations⟩

/-- Puts final forms in place of their placeholders. A form that is no text is a fault where its
placeholder occurs. -/
def restore (reservations : Reservations) (t : Text) : Except Fault Text :=
  reservations.foldlM (fun t (token, r) =>
    match r.final with
    | .str final => .ok (Placeholder.restore t [(token, final)])
    | _ => if Text.occursIn token t then .error .wrongType else .ok t) t

def restoreAll (reservations : Reservations) (translations : Table Text Text) :
    Except Fault (Table Text Text) :=
  translations.mapM fun (source, t) => do return (source, ← restore reservations t)

end Localize.Glossary
