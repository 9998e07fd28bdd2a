import Localize.Text.Blank
import Localize.Text.Search

/-!
# Literals of an expression

The quoted literals of an expression, each kind of quote looked for on its own. A backslash takes
the next character with it unless that is a line break. Template literals give their static parts
once more, cut at the interpolations.
-/

namespace Localize.Markup

/-- The content of a literal up to its closing quote. -/
def literalContent? (quote : Char) : Text → Option Text
  | [] => none
  | c :: rest =>
    if c = quote then some []
    else if c = '\\' then
      match rest with
      | [] => none
      | d :: rest => if d = '\n' then none else (literalContent? quote rest).map (c :: d :: ·)
    else (literalContent? quote rest).map (c :: ·)

/-- The literal at the beginning of a text, with its length. -/
def literal? (quote : Char) : Text → Option (Text × Nat)
  | [] => none
  | c :: rest =>
    if c = quote then (literalContent? quote rest).map fun content => (content, content.length + 2)
    else none

/-- The template at the beginning of a text up to the next backtick, with its length. -/
def template? : Text → Option (Text × Nat)
  | [] => none
  | c :: rest =>
    let content := rest.takeWhile (· ≠ '\x60')
    if c = '\x60' && content.length < rest.length then some (content, content.length + 2) else none

/-- The length of the interpolation at the beginning of a text, 0 for none. -/
def interpolationLength : Text → Nat
  | '$' :: '\x7b' :: rest =>
    let inside := rest.takeWhile (· ≠ '\x7d')
    if inside.isEmpty || inside.length = rest.length then 0 else inside.length + 3
  | _ => 0

/-- The parts of a template between its interpolations. -/
def staticParts (content : Text) : List Text := Text.splitFrom interpolationLength 0 content

/-- The content of every literal of one kind of quote. -/
def literals (quote : Char) (expression : Text) : List Text :=
  (Text.scan (fun _ t => literal? quote t) expression).map (·.value)

/-- What backtick literals contribute: their content, and the static parts of templates. -/
def templateLiterals (expression : Text) : List Text :=
  literals '\x60' expression ++
    (Text.scan (fun _ t => template? t) expression).flatMap fun found => staticParts found.value

/-- Everything the literals of an expression contribute. -/
def expressionLiterals (expression : Text) : List Text :=
  literals '\x22' expression ++ literals '\x27' expression ++ templateLiterals expression

end Localize.Markup
