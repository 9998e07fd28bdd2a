import Localize.Json.Display
import Localize.Json.Reader
import Localize.Language
import Localize.Text.Case
import Localize.Volume.Path

/-!
# Errors

An `Error` is a cause that the library reports: each has a class, a message, a code and details. A
`Fault` is met where a value read from a file or a reply has not the shape its use needs; it is not
reported but ends the operation. A `Failure` is one or the other.
-/

namespace Localize

/-- The use of a value that has not the shape for it. -/
inductive Fault where
  /-- The use needs a value of another type. -/
  | wrongType
  | noMember
  /-- The value is of the right type and still of no use. -/
  | badValue
  /-- A chunk is to hold less than one string. -/
  | emptyChunks
  /-- A value stands where a piece of displayed content is needed. -/
  | notContent (given : Json)
  | tooLarge
  | noField (name : Text)
  | notText
  /-- A file stands where a folder is needed. -/
  | notFolder
  /-- A folder stands where a file is needed. -/
  | isFolder
  /-- A file has the name that a new folder is to have. -/
  | nameTaken
  /-- A style that is not on is turned off. -/
  | styleNotOn
  /-- A value that is no text stands where one is printed. -/
  | notPrintable
  deriving DecidableEq, Repr

/-- What is told of a fault beyond its kind. -/
def Fault.message? : Fault → Option Text
  | .emptyChunks => some "max_chunk_size must be >= 1".toList
  | .notContent given => some ("Unknown content reference: ".toList ++ given.shown)
  | _ => none

inductive ErrorClass where
  | general
  | invalidInput
  | unsupportedLanguage
  | missingCredential
  | translation
  | persistence
  deriving DecidableEq, Repr

/-- The two stores that live in a file of their own. -/
inductive StoreKind where
  | memory
  | glossary
  deriving DecidableEq, Repr

inductive Error where
  | emptyTerm
  | emptySourceText
  | noStrings
  | badChunkSize (given : Json)
  | emptyArgument (name : String)
  | notUiFile (path : Path)
  | noSource (given : Text)
  | noTargetLanguage
  | unsupportedLanguage (shown : Text) (given : Json)
  | noKey
  | noProviderKey (provider : Text)
  | providerNotConfigured (provider : Json) (builtin : Bool)
  | modelNotConfigured (provider : Text)
  | addressNotConfigured (provider : Text)
  | refusedByProvider (provider : Text) (status : Nat) (reason : Text)
  | providerTimeout (provider : Text)
  | providerUnreachable (provider : Text) (reason : Text)
  | replyNotJson (provider reason : Text)
  | replyWithoutContent (provider : Text)
  | replyWithoutObject
  | attemptsExhausted (attempts : Nat) (last : Error) (provider : Text) (strings : Nat)
  | writeNotPrepared (path : Path)
  | writeFailed (path : Path)
  | notJson (path : Path) (reason : Json.ReadError)
  | unreadable (path : Path)
  | localeNotObject (path : Path)
  | storeNotObject (kind : StoreKind) (path : Path)
  | malformedItem (kind : StoreKind) (path : Path) (missing : Option Text)
  | folderNotMade (kind : StoreKind) (path : Path)
  | importMissing (kind : StoreKind) (given : Text)
  | sourceUnreadable (path : Path)
  | folderUnreadable (path : Path)
  | badTranslationArgument (given : Text)
  | termNotFound (term : Text)
  deriving Repr

namespace Error

def category : Error → ErrorClass
  | emptyTerm | emptySourceText | noStrings | badChunkSize _ | emptyArgument _ | notUiFile _
  | noSource _ | noTargetLanguage => .invalidInput
  | unsupportedLanguage _ _ => .unsupportedLanguage
  | noKey | noProviderKey _ => .missingCredential
  | providerNotConfigured _ _ | modelNotConfigured _ | addressNotConfigured _
  | refusedByProvider _ _ _ | providerTimeout _ | providerUnreachable _ _ | replyNotJson _ _
  | replyWithoutContent _ | replyWithoutObject | attemptsExhausted _ _ _ _ => .translation
  | writeNotPrepared _ | writeFailed _ | notJson _ _ | unreadable _ | localeNotObject _
  | storeNotObject _ _ | malformedItem _ _ _ | folderNotMade _ _ | importMissing _ _
  | sourceUnreadable _ | folderUnreadable _ => .persistence
  | badTranslationArgument _ | termNotFound _ => .general

/-- The code of a class whose errors have no code of their own. -/
def defaultCode : ErrorClass → String
  | .general => "polygot_error"
  | .invalidInput => "invalid_input"
  | .unsupportedLanguage => "unsupported_language"
  | .missingCredential => "missing_credential"
  | .translation => "translation_failed"
  | .persistence => "persistence_failed"

/-- A short name for programs. -/
def code : Error → Text
  | providerNotConfigured _ _ | modelNotConfigured _ | addressNotConfigured _ =>
    "ai_config_missing".toList
  | refusedByProvider _ _ _ => "provider_http_error".toList
  | providerTimeout _ => "provider_timeout".toList
  | providerUnreachable _ _ => "provider_unreachable".toList
  | replyNotJson _ _ | replyWithoutContent _ | replyWithoutObject => "provider_bad_response".toList
  | attemptsExhausted _ last _ _ => last.code
  | e => (defaultCode e.category).toList

def storeName : StoreKind → Text
  | .memory => "memory".toList
  | .glossary => "glossary".toList

def storeTitle : StoreKind → Text
  | .memory => "Memory".toList
  | .glossary => "Glossary".toList

def itemName : StoreKind → Text
  | .memory => "entry".toList
  | .glossary => "term".toList

/-- The message; `detailed` adds the place of a flaw in a provider's reply. -/
def messageWith (detailed : Bool) : Error → Text
  | emptyTerm => "Glossary term must be a non-empty string".toList
  | emptySourceText => "source_text must be a non-empty string".toList
  | noStrings => "Strings must be a non-empty list".toList
  | badChunkSize given => "max_chunk_size must be a positive integer, got ".toList ++ given.shown
  | emptyArgument name => name.toList ++ " must be a non-empty string".toList
  | notUiFile path =>
    "File ".toList ++ path.text ++
      " is not a valid UI file. Only .tsx, .jsx, .html files are supported.".toList
  | noSource given => "Invalid source path: ".toList ++ given
  | noTargetLanguage => "At least one target language is required".toList
  | unsupportedLanguage shown _ =>
    "Unsupported language: ".toList ++ shown ++ ". Supported languages: ".toList ++
      Language.codeList
  | noKey => "API key is required".toList
  | noProviderKey provider =>
    "No API key for provider '".toList ++ provider ++ "'. Pass one or set ".toList ++
      Text.upper provider ++ "_API_KEY.".toList
  | providerNotConfigured provider builtin =>
    (if builtin then "AI provider '".toList else "Custom AI provider '".toList) ++
      provider.display ++ "' configuration not found".toList
  | modelNotConfigured provider => provider ++ " model not configured".toList
  | addressNotConfigured provider =>
    "Provider '".toList ++ provider ++ "' API URL not configured".toList
  | refusedByProvider provider status reason =>
    provider ++ " API error (".toList ++ Text.ofNat status ++ "): ".toList ++ reason
  | providerTimeout provider => provider ++ " API request timeout".toList
  | providerUnreachable provider reason => provider ++ " API call failed: ".toList ++ reason
  | replyNotJson provider reason =>
    provider ++ " API returned invalid JSON".toList ++
      (if detailed then ": ".toList ++ reason else [])
  | replyWithoutContent provider => "No content in ".toList ++ provider ++ " response".toList
  | replyWithoutObject => "Could not parse JSON object from response".toList
  | attemptsExhausted attempts last _ _ =>
    "Translation failed after ".toList ++ Text.ofNat attempts ++ " attempts: ".toList ++
      last.messageWith detailed
  | writeNotPrepared path => "Cannot prepare write of ".toList ++ path.text
  | writeFailed path => "Atomic write failed for ".toList ++ path.text
  | notJson path _ => "Invalid JSON in ".toList ++ path.text
  | unreadable path => "Error reading ".toList ++ path.text
  | localeNotObject path =>
    "Locale file ".toList ++ path.text ++ " is not a JSON object".toList
  | storeNotObject kind path =>
    storeTitle kind ++ " file ".toList ++ path.text ++ " is not a JSON object".toList
  | malformedItem kind path missing =>
    "Malformed ".toList ++ itemName kind ++ " in ".toList ++ storeName kind ++ " file ".toList ++
      path.text ++ (match missing with
        | some field => ": ".toList ++ Text.quoted field
        | none => [])
  | folderNotMade kind path =>
    "Cannot create ".toList ++ storeName kind ++ " directory ".toList ++ path.text
  | importMissing kind given => storeTitle kind ++ " import file not found: ".toList ++ given
  | sourceUnreadable path => "Error reading file ".toList ++ path.text
  | folderUnreadable path => "Error scanning directory ".toList ++ path.text
  | badTranslationArgument given =>
    "Invalid translation ".toList ++ Text.quoted given ++ ", expected lang=text".toList
  | termNotFound term => "Term not found: ".toList ++ term

def message (e : Error) : Text := e.messageWith false

/-- The message with the place of a flaw in a provider's reply. -/
def detailedMessage (e : Error) : Text := e.messageWith true

def details : Error → Fields
  | notUiFile path | writeNotPrepared path | writeFailed path | notJson path _ | unreadable path
  | localeNotObject path | sourceUnreadable path | folderUnreadable path =>
    Json.record [("path", .str path.text)]
  | noSource given => Json.record [("path", .str given)]
  | unsupportedLanguage _ given =>
    Json.record [("language", given), ("supported", .arr (Language.codes.map .str))]
  | noProviderKey provider => Json.record [("provider", .str provider)]
  | providerNotConfigured provider _ => Json.record [("provider", provider)]
  | modelNotConfigured provider =>
    Json.record [("provider", .str provider), ("missing_field", Json.lit "models")]
  | addressNotConfigured provider =>
    Json.record [("provider", .str provider), ("missing_field", Json.lit "api_url")]
  | refusedByProvider provider status _ =>
    Json.record [("provider", .str provider), ("status_code", .nat status)]
  | attemptsExhausted _ _ provider strings =>
    Json.record [("provider", .str provider), ("strings", .nat strings)]
  | _ => []

end Error

/-- What ends an operation. -/
inductive Failure where
  | error (e : Error)
  | fault (f : Fault)
  deriving Repr

instance : Coe Error Failure := ⟨.error⟩

instance : Coe Fault Failure := ⟨.fault⟩

end Localize
