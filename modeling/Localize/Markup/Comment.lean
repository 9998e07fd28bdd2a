import Localize.Text.Search

/-!
# Comments

Block comments are taken out first and line comments after them. A block comment that is not closed
is no comment. Neither rule looks at quotes, so the address `http://a` ends at its colon.
-/

namespace Localize.Markup

/-- The length of the block comment at the beginning of a text, 0 for none. -/
def blockCommentLength : Text → Nat
  | '/' :: '*' :: rest =>
    match Text.cutAt? ['*', '/'] rest with
    | some (inside, _) => inside.length + 4
    | none => 0
  | _ => 0

/-- The length of the line comment at the beginning of a text, 0 for none. -/
def lineCommentLength : Text → Nat
  | '/' :: '/' :: rest => (rest.takeWhile (· ≠ '\n')).length + 2
  | _ => 0

def stripComments (code : Text) : Text :=
  Text.eraseFrom lineCommentLength 0 (Text.eraseFrom blockCommentLength 0 code)

end Localize.Markup
