import Localize.Json.Basic

/-!
# Settings

Settings are the fields of a document, laid over the fields that hold when nothing is given. Objects
are laid over objects field by field; any other value takes the place of what was there.
-/

namespace Localize

/-- The settings of a project. -/
abbrev Settings := Fields

namespace Settings

mutual

def overlay (base : Fields) : List (Text × Json) → Fields
  | [] => base
  | (name, value) :: rest =>
    overlay (Table.insert base name (overlayValue (Table.find? base name) value)) rest

/-- A value laid over what was there. -/
def overlayValue : Option Json → Json → Json
  | some (.obj base), .obj newer => .obj (overlay base newer)
  | _, value => value

end

/-- The mark that stands where a key is to be filled in. -/
def keyToFillIn : Text := "YOUR_API_KEY_HERE".toList

def texts (items : List String) : Json := .arr (items.map Json.lit)

def providerDefaults (models : List String) (address : String) : Json :=
  .obj (Json.record [("api_key", .str keyToFillIn), ("models", texts models),
    ("max_retries", .nat 3), ("timeout", .nat 120), ("api_url", Json.lit address)])

def defaultModel : Text := "gpt-4o-mini".toList

def half : Json := .float (Binary64.ofFraction 1 2)

/-- What holds when nothing is given. -/
def default : Settings := Json.record [
  ("project", .obj (Json.record [("source", Json.lit "src"), ("output", Json.lit "locales"),
    ("languages", texts ["es", "fr"]), ("model", .str []), ("glossary", .arr []),
    ("glossary_file", .str [])])),
  ("ai_provider", Json.lit "openai"),
  ("openai", providerDefaults ["gpt-4o-mini", "gpt-4o"]
    "https://api.openai.com/v1/chat/completions"),
  ("deepseek", providerDefaults ["deepseek-chat"] "https://api.deepseek.com/chat/completions"),
  ("gemini", providerDefaults ["gemini-2.5-flash"]
    "https://generativelanguage.googleapis.com/v1beta/openai/chat/completions"),
  ("translation", .obj (Json.record [("source_language", Json.lit "en"), ("chunk_size", .nat 50),
    ("chunk_delay", half), ("preserve_formatting", .bool true), ("tone", Json.lit "neutral"),
    ("context", .str [])])),
  ("parser", .obj (Json.record [
    ("visible_attributes", texts ["title", "alt", "placeholder", "aria*"]),
    ("exclude_tags", texts ["script", "style"]), ("skip_patterns", .arr [])])),
  ("storage", .obj (Json.record [("memory_dir", Json.lit ".polygot/memory"),
    ("glossary_path", Json.lit ".polygot/glossary.json"), ("memory_autosave_every", .nat 50)])),
  ("log_mode", Json.lit "info")]

/-- The settings with given fields laid over the defaults. -/
def ofFields (fields : Fields) : Settings := overlay default fields

end Settings

end Localize
