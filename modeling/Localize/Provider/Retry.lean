import Localize.Text.Case
import Localize.Text.Search

/-!
# Trying again

Whether a failed attempt is worth another one, and how long to wait before it, is read off the
message of the failure. Too many requests call for long waits, a refusal of the key or of the
request for none, and a reply without an object for one more attempt.
-/

namespace Localize.Provider

/-- Whether to try again, and after how many milliseconds. -/
structure Verdict where
  retry : Bool
  wait : Nat
  deriving DecidableEq, Repr

def seconds (n : Nat) : Nat := 1000 * n

/-- The verdict on a failure of an attempt, the first one counted as zero. -/
def verdict (message : Text) (attempt : Nat) : Verdict :=
  let small := Text.lower message
  let has (part : String) : Bool := Text.occursIn part.toList message
  let hasWord (part : String) : Bool := Text.occursIn part.toList small
  if has "429" || hasWord "rate limit" || hasWord "too many requests" then
    ⟨true, seconds (min (30 * Nat.pow 2 attempt) 300)⟩
  else if has "401" || has "403" || hasWord "unauthorized" || hasWord "forbidden" then ⟨false, 0⟩
  else if has "(400)" then ⟨false, 0⟩
  else if has "500" || has "502" || has "503" || has "504" then ⟨true, seconds (Nat.pow 2 attempt)⟩
  else if hasWord "timeout" then ⟨true, seconds (5 * Nat.pow 2 attempt)⟩
  else if hasWord "parse" || hasWord "json" then ⟨attempt = 0, seconds 1⟩
  else ⟨true, seconds (Nat.pow 2 attempt)⟩

end Localize.Provider
