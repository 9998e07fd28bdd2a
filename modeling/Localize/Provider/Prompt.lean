import Localize.Json.Display
import Localize.Language

/-!
# The system prompt

What the model is told before the strings: the language, and the requirements that the request calls
for.
-/

namespace Localize.Provider

/-- The prompt with its two gaps, and what is known about it. -/
def promptRecord : Fields := Json.record [
  ("version", Json.lit "1.0"),
  ("description", Json.lit "System prompt for translating one chunk of UI strings"),
  ("prompt", Json.lit <|
    "You are a professional translator. Translate the following strings to " ++
    "\x7btarget_language_name\x7d.\n\nRequirements:\n" ++
    "- Maintain the same tone and style as the original\n" ++
    "- Keep the translation natural and idiomatic\n" ++
    "- Return ONLY a JSON object where keys are original strings and values are " ++
    "translations\x7brequirements\x7d")]

def fillPrompt (language requirements : Text) : Text :=
  ("You are a professional translator. Translate the following strings to ".toList ++ language ++
    ".\n\nRequirements:\n".toList ++
    "- Maintain the same tone and style as the original\n".toList ++
    "- Keep the translation natural and idiomatic\n".toList ++
    "- Return ONLY a JSON object where keys are original strings and values are ".toList ++
    "translations".toList ++ requirements)

def keepFormatting : Text :=
  ("\n- Preserve all placeholders, variables, and special formatting " ++
    "(e.g., \x7bname\x7d, $\x7bvariable\x7d, %s, __GLOSSARY_N__)").toList

def keepTokens : Text :=
  "\n- Keep every __GLOSSARY_N__ token exactly as written, do not translate or modify it".toList

/-- What a request asks of the wording. -/
structure Wording where
  preserveFormatting : Json := .bool true
  tone : Json := Json.lit "neutral"
  context : Json := .str []

/-- The requirements of a request, each on a line of its own. -/
def requirements (w : Wording) (tokens : Bool) : Text :=
  (if w.preserveFormatting.isSomething then keepFormatting else []) ++
  (if tokens then keepTokens else []) ++
  (if w.tone.isSomething && w.tone ≠ Json.lit "neutral" then
    "\n- Use a ".toList ++ w.tone.display ++ " tone".toList else []) ++
  (if w.context.isSomething then "\n- Context: ".toList ++ w.context.display else [])

/-- The system prompt for a language, which is named by its code where it has no name. -/
def systemPrompt (language : Text) (w : Wording) (tokens : Bool) : Text :=
  fillPrompt ((Language.name? language).getD language) (requirements w tokens)

end Localize.Provider
