import Localize.Settings.File

/-!
# Keys of providers

A key given outright comes first, then the one in the environment under the provider's name in
capitals, then the one in the settings unless it is still the mark to be filled in.
-/

namespace Localize.Settings

/-- A field of the settings or another value. -/
def get (s : Settings) (name : Text) (missing : Json) : Json :=
  (Table.find? s name).getD missing

/-- A field of a field that has to be an object; nothing where there is no such section. -/
def inSection (s : Settings) (group : Text) (name : String) : Except Fault (Option Json) :=
  match Table.find? s group with
  | none => .ok none
  | some (.obj fields) => .ok (Table.find? fields name.toList)
  | some _ => .error .noMember

/-- The provider in force. -/
def provider (s : Settings) : Json := s.get "ai_provider".toList (Json.lit "openai")

/-- The variable that holds the key of a provider. -/
def keyVariable (provider : Text) : Text :=
  (Text.upper provider).map (fun c => if c = '-' then '_' else c) ++ "_API_KEY".toList

/-- The key for a provider, or for the one in force. -/
def key? (s : Settings) (env : Environment) (given provider : Json) : Except Fault (Option Json) :=
  if given.isSomething then .ok (some given)
  else
    match provider.orElse s.provider with
    | .str name =>
      match env.value? (keyVariable name) with
      | some key => .ok (some (.str key))
      | none => do
        let key := (← s.inSection name "api_key").getD .null
        return if key.isSomething && key ≠ .str keyToFillIn then some key else none
    | _ => .error .noMember

end Localize.Settings
