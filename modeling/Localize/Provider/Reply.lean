import Localize.Json.Reader
import Localize.Text.Blank
import Localize.Text.Search

/-!
# Objects in replies

A model asked for a JSON object may put it into a code fence or between other words. The object is
looked for in the whole reply, then in what the fence holds, then in the stretch between the first
opening brace and the brace that closes it.
-/

namespace Localize.Provider

/-- Goes through a text, inside a quoted string or not, behind a backslash or not, with a number of
open braces and the characters since the first of them, the latest first. -/
def balancedFrom (inQuotes escaped : Bool) (depth : Nat) (taken : Text) : Text → Option Text
  | [] => none
  | c :: rest =>
    let taken := if depth = 0 then [] else c :: taken
    if escaped then balancedFrom inQuotes false depth taken rest
    else if c = '\\' then balancedFrom inQuotes true depth taken rest
    else if c = '\x22' then balancedFrom (!inQuotes) false depth taken rest
    else if inQuotes then balancedFrom true false depth taken rest
    else if c = '\x7b' then
      balancedFrom false false (depth + 1) (if depth = 0 then [c] else taken) rest
    else if c = '\x7d' then
      match depth with
      | 0 => balancedFrom false false 0 [] rest
      | 1 => some taken.reverse
      | depth + 2 => balancedFrom false false (depth + 1) taken rest
    else balancedFrom false false depth taken rest

/-- The first stretch from an opening brace to the one that closes it, quoted braces apart. -/
def balanced? (t : Text) : Option Text := balancedFrom false false 0 [] t

/-- The line that opens or closes a code block. -/
def fence : Text := List.replicate 3 '\x60'

/-- Without a first line that opens a code block and a last line that closes it. -/
def insideFence (t : Text) : Text :=
  let lines := Text.splitOn '\n' t
  let lines := match lines with
    | first :: rest => if Text.startsWith fence first then rest else lines
    | [] => []
  let lines := match lines.getLast? with
    | some last => if Text.strip last = fence then lines.dropLast else lines
    | none => lines
  Text.strip (Text.join ['\n'] lines)

/-- The fields of a text that is a JSON object. -/
def fields? (t : Text) : Option Fields :=
  match Json.read? t with
  | some (.obj fields) => some fields
  | _ => none

/-- The object that a reply holds. -/
def objectIn? (reply : Text) : Option Fields :=
  let t := Text.strip reply
  (fields? t).or <|
    (if Text.startsWith fence t then fields? (insideFence t) else none).or <|
      (balanced? t).bind fields?

end Localize.Provider
