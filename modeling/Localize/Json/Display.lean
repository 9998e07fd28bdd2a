import Localize.Json.Basic
import Localize.Number.Shortest
import Localize.Text.Literal

/-!
# Values in messages

How a value is shown inside a message. A text stands for itself; everything else, and every text
inside a list or an object, is shown in its quoted form, truth values and null with a capital.
-/

namespace Localize.Json

mutual

/-- The quoted form of a value. -/
def shown : Json → Text
  | .null => "None".toList
  | .bool true => "True".toList
  | .bool false => "False".toList
  | .int i => Text.ofInt i
  | .float x => x.text
  | .str t => Text.quoted t
  | .arr items => '[' :: shownItems items ++ [']']
  | .obj fields => '\x7b' :: shownFields fields ++ ['\x7d']

def shownItems : List Json → Text
  | [] => []
  | [item] => shown item
  | item :: next :: rest => shown item ++ ", ".toList ++ shownItems (next :: rest)

def shownFields : List (Text × Json) → Text
  | [] => []
  | [(key, value)] => Text.quoted key ++ ": ".toList ++ shown value
  | (key, value) :: next :: rest =>
    Text.quoted key ++ ": ".toList ++ shown value ++ ", ".toList ++ shownFields (next :: rest)

end

/-- A text as it is, any other value in its quoted form. -/
def display : Json → Text
  | .str t => t
  | value => shown value

end Localize.Json
