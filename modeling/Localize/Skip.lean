import Localize.Pattern.Matching
import Localize.Pattern.Reader

/-!
# Strings left as they are

Patterns of strings that are not to be translated. A pattern is searched anywhere in a string,
letter case ignored; a pattern without meaning is left out.
-/

namespace Localize.Skip

def patternsOf (written : List Text) : List Pattern :=
  written.filterMap fun t => (Pattern.ofText? true t).map (·.1)

def skips (patterns : List Pattern) (t : Text) : Bool := patterns.any (·.occursIn t)

/-- The strings to translate and those to leave, both in the order given. -/
def split (written : List Text) (strings : List Text) : List Text × List Text :=
  strings.partition fun t => !skips (patternsOf written) t

end Localize.Skip
