import Localize.Json.Shape
import Localize.Provider.Exchange
import Localize.Provider.Reply
import Localize.Provider.Retry
import Localize.Settings.Key

/-!
# The translation service

A service asks one provider for the translations of a chunk of strings, tries again where that is
worth it, and adds up the tokens that the provider reports.
-/

namespace Localize

open Provider

/-- The tokens of one exchange as the provider reports them. -/
structure ReportedUsage where
  prompt : Json
  completion : Json
  total : Json
  deriving DecidableEq, Repr

namespace ReportedUsage

def zero : ReportedUsage := ⟨.nat 0, .nat 0, .nat 0⟩

def toJson (u : ReportedUsage) : Json :=
  .obj (Json.record [("prompt_tokens", u.prompt), ("completion_tokens", u.completion),
    ("total_tokens", u.total)])

/-- The report in a reply, which may be missing. -/
def ofReply (reply : Fields) : Except Fault ReportedUsage :=
  let report := (Table.find? reply "usage".toList).getD .null
  if report.isSomething then
    match report with
    | .obj fields =>
      let get (name : String) : Json := (Table.find? fields name.toList).getD (.nat 0)
      .ok ⟨get "prompt_tokens", get "completion_tokens", get "total_tokens"⟩
    | _ => .error .noMember
  else .ok zero

end ReportedUsage

/-- A provider with its key and the tokens used so far. -/
structure Service where
  settings : Settings
  provider : Text
  key : Json
  givenModel : Json
  ownConnection : Bool
  lastUsage : ReportedUsage
  promptTotal : Quantity
  completionTotal : Quantity

namespace Service

/-! ### Set-up -/

/-- The providers that come with settings of their own. -/
def builtinProviders : List Text := ["openai", "deepseek", "gemini"].map String.toList

/-- The settings of a provider: an object with something in it. -/
def profile? (s : Settings) (provider : Text) : Option Fields :=
  match Table.find? s provider with
  | some (.obj (f :: rest)) => some (f :: rest)
  | _ => none

/-- Whether some model is configured. -/
def hasModel (profile : Fields) : Bool :=
  let listed := match Table.find? profile "models".toList with
    | some (.arr models) => models.any fun
      | .str m => !m.isEmpty
      | _ => false
    | _ => false
  listed || ((Table.find? profile "model".toList).getD (.str [])).isSomething

/-- Checks that a provider is configured and has a model. -/
def check (s : Settings) (provider : Json) : Except Failure Text :=
  match provider with
  | .str name =>
    match profile? s name with
    | none => .error (Error.providerNotConfigured provider (builtinProviders.contains name))
    | some profile =>
      if hasModel profile then .ok name else .error (Error.modelNotConfigured name)
  | _ =>
    if provider.canName then .error (Error.providerNotConfigured provider false)
    else .error Fault.wrongType

/-- Sets up a service for the provider given or the one in force. -/
def ofSettings (s : Settings) (env : Environment) (key model provider : Json)
    (ownConnection : Bool) : Except Failure Service :=
  match check s (provider.orElse s.provider) with
  | .error failure => .error failure
  | .ok name =>
    match s.key? env key (.str name) with
    | .error fault => .error fault
    | .ok none => .error (Error.noProviderKey name)
    | .ok (some key) =>
      .ok ⟨s, name, key, model, ownConnection, .zero, .whole 0, .whole 0⟩

def setting? (s : Service) (name : String) : Option Json :=
  (profile? s.settings s.provider).bind fun profile => Table.find? profile name.toList

/-- The model asked: the one given, the first of the list, the single one, or the default. -/
def model (s : Service) : Json :=
  let single := ((s.setting? "model").getD .null).orElse (.str Settings.defaultModel)
  if s.givenModel.isSomething then s.givenModel
  else
    match s.setting? "models" with
    | some (.arr (first :: _)) => if first.isSomething then first else single
    | _ => single

/-! ### One attempt -/

/-- Takes note of the tokens of an exchange. -/
def account (s : Service) (u : ReportedUsage) : Except Fault Unit × Service :=
  let s := { s with lastUsage := u }
  match u.prompt.quantity?.bind s.promptTotal.add? with
  | none => (.error .wrongType, s)
  | some promptTotal =>
    let s := { s with promptTotal }
    match u.completion.quantity?.bind s.completionTotal.add? with
    | none => (.error .wrongType, s)
    | some completionTotal => (.ok (), { s with completionTotal })

/-- The content of the first choice in a reply. -/
def content (s : Service) (reply : Fields) : Except Failure Json :=
  let choices := (Table.find? reply "choices".toList).getD .null
  if choices.isSomething then
    match choices with
    | .arr (.obj first :: _) =>
      let message := (Table.find? first "message".toList).getD .null
      let content := if message.isSomething then message.field? "content".toList else none
      match message.isSomething, message with
      | true, .obj _ | false, _ =>
        match (content.getD .null).orElse (.str []) with
        | .bool _ | .int _ | .float _ | .null => .error Fault.wrongType
        | content => .ok content
      | true, _ => .error Fault.noMember
    | .arr _ | .str _ => .error Fault.noMember
    | .obj _ => .error (Fault.noField ['0'])
    | _ => .error Fault.wrongType
  else .error (Error.replyWithoutContent s.provider)

/-- What is told of a limit that is no number. -/
def limitFailure (s : Service) (limit : Json) : Fault → Failure
  | .badValue =>
    Error.replyNotJson s.provider ("could not convert string to float: ".toList ++ limit.shown)
  | fault => fault

/-- The limits of the connection made for an exchange, unless one is there already. -/
def connectionTimeout (s : Service) : Except Failure (Option Timeout) :=
  if s.ownConnection then .ok none
  else
    let limit := (s.setting? "timeout").getD (.nat 120)
    match Timeout.ofSetting limit with
    | .ok timeout => .ok (some timeout)
    | .error fault => .error (s.limitFailure limit fault)

def readReply (s : Service) : Reply → Except Failure Json
  | .timedOut => .error (Error.providerTimeout s.provider)
  | .unreachable reason => .error (Error.providerUnreachable s.provider reason)
  | .response status body =>
    if Reply.isGood status then
      match readBody body with
      | .ok value => .ok value
      | .error e => .error (Error.replyNotJson s.provider e.message)
    else .error (Error.refusedByProvider s.provider status (refusalReason body))

def request (s : Service) (system user : Text) : Except Failure Request :=
  let address := (s.setting? "api_url").getD (.str [])
  if address.isSomething then
    match s.connectionTimeout, address with
    | .error failure, _ => .error failure
    | .ok timeout, .str address => .ok {
        address
        authorization := "Bearer ".toList ++ s.key.display
        body := chatBody s.model system user
        timeout }
    | .ok _, _ => .error Fault.wrongType
  else .error (Error.addressNotConfigured s.provider)

/-- Takes the tokens and the content out of a reply. -/
def digest (s : Service) (value : Json) : Except Failure Json × Service :=
  match value with
  | .obj reply =>
    match ReportedUsage.ofReply reply with
    | .error fault => (.error fault, s)
    | .ok usage =>
      match s.account usage with
      | (.error fault, s) => (.error fault, s)
      | (.ok (), s) => (s.content reply, s)
  | _ => (.error Fault.noMember, s)

/-- One exchange: the content of the reply. -/
def ask {σ : Type} (post : Endpoint σ) (s : Service) (e : σ) (system user : Text) :
    Except Failure Json × Service × σ :=
  match s.request system user with
  | .error failure => (.error failure, s, e)
  | .ok request =>
    let (reply, e) := post e request
    match s.readReply reply with
    | .error failure => (.error failure, s, e)
    | .ok value =>
      let (result, s) := s.digest value
      (result, s, e)

/-- The object in the content of a reply. -/
def objectOf (content : Json) : Except Failure Fields :=
  match content with
  | .str t =>
    match objectIn? t with
    | some fields => .ok fields
    | none => .error Error.replyWithoutObject
  | _ => .error Fault.noMember

/-- One attempt: the object in the reply. -/
def attempt {σ : Type} (post : Endpoint σ) (s : Service) (e : σ) (system user : Text) :
    Except Failure Fields × Service × σ :=
  match s.ask post e system user with
  | (.error failure, s, e) => (.error failure, s, e)
  | (.ok content, s, e) => (objectOf content, s, e)

/-! ### A chunk -/

/-- The result of a chunk: translations or a failure, and the waits between the attempts. -/
structure Outcome where
  result : Except Failure (Fields × ReportedUsage)
  waits : List Nat

/-- Goes on with attempts while there are some left and the last failure is worth another one. -/
def tryFrom {σ : Type} (post : Endpoint σ) (system user : Text) (attempts strings : Nat) :
    (left number : Nat) → Service → σ → Outcome × Service × σ
  | 0, _, s, e => (⟨.error Error.replyWithoutObject, []⟩, s, e)
  | left + 1, number, s, e =>
    match s.attempt post e system user with
    | (.ok fields, s, e) => (⟨.ok (fields, s.lastUsage), []⟩, s, e)
    | (.error (.fault fault), s, e) => (⟨.error fault, []⟩, s, e)
    | (.error (.error last), s, e) =>
      let v := verdict last.detailedMessage number
      if v.retry && left ≠ 0 then
        let (outcome, s, e) := tryFrom post system user attempts strings left (number + 1) s e
        (⟨outcome.result, v.wait :: outcome.waits⟩, s, e)
      else (⟨.error (Error.attemptsExhausted attempts last s.provider strings), []⟩, s, e)

/-- How often a chunk is tried; at least once. -/
def attempts (s : Service) : Except Fault Nat := do
  return (max 1 (← ((s.setting? "max_retries").getD (.nat 3)).toWhole)).toNat

def translateChunk {σ : Type} (post : Endpoint σ) (s : Service) (e : σ) (strings : List Text)
    (system : Text) : Outcome × Service × σ :=
  if strings.isEmpty then (⟨.ok ([], .zero), []⟩, s, e)
  else
    match s.attempts with
    | .error fault => (⟨.error fault, []⟩, s, e)
    | .ok attempts =>
      let user := (Json.arr (strings.map .str)).written
      tryFrom post system user attempts strings.length attempts 0 s e

end Service

end Localize
