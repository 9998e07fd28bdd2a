import Localize.Error
import Localize.Number.Reading

/-!
# Exchanges with a provider

A request is sent to the provider's address with its key; the answer is a status with a body, unless
the exchange fails. What stands on the other side is a function with a state of its own, so an
exchange can be run against anything.
-/

namespace Localize.Provider

/-- How many seconds each part of an exchange may take; null for no limit. -/
structure Timeout where
  connect : Json
  read : Json
  write : Json
  pool : Json
  deriving DecidableEq, Repr

/-- The limits of the settings: one number for reading, or a value for each part. -/
def Timeout.ofSetting (value : Json) : Except Fault Timeout :=
  let real (n : Nat) : Json := .float (.ofInt n)
  match value with
  | .obj fields =>
    let get (name : String) (missing : Nat) : Json :=
      (Table.find? fields name.toList).getD (real missing)
    .ok ⟨get "connect" 10, get "read" 120, get "write" 60, get "pool" 10⟩
  | value =>
    if value.isSomething then do return ⟨real 10, .float (← value.toReal), real 60, real 10⟩
    else .ok ⟨real 10, real 120, real 60, real 10⟩

/-- What is sent. An exchange over a connection of its own has limits of its own. -/
structure Request where
  address : Text
  authorization : Text
  body : Json
  timeout : Option Timeout
  deriving Repr

inductive Reply where
  | timedOut
  | unreachable (reason : Text)
  | response (status : Nat) (body : Text)
  deriving Repr

/-- The other side of exchanges. -/
abbrev Endpoint (σ : Type) := σ → Request → Reply × σ

def Reply.isGood (status : Nat) : Bool := 200 ≤ status && status < 300

/-- The value of a body; a mark of the byte order in front is no part of it. -/
def readBody (body : Text) : Except Json.ReadError Json :=
  match body with
  | c :: rest => Json.read (if c.toNat = 0xfeff then rest else body)
  | [] => Json.read []

/-- What a refusal says about its reason. -/
def refusalReason (body : Text) : Text :=
  match readBody body with
  | .ok (.obj fields) =>
    match Table.find? fields "error".toList with
    | some (.obj inner) =>
      ((Table.find? inner "message".toList).getD (.str (Json.obj inner).shown)).display
    | some other => other.display
    | none => "Unknown error".toList
  | .ok _ => "Unknown error".toList
  | .error _ => if body.isEmpty then "No details".toList else body.take 500

def chatBody (model : Json) (system user : Text) : Json :=
  let message (role : String) (content : Text) : Json :=
    .obj (Json.record [("role", Json.lit role), ("content", .str content)])
  .obj (Json.record [("model", model),
    ("messages", .arr [message "system" system, message "user" user]),
    ("response_format", .obj (Json.record [("type", Json.lit "json_object")])),
    ("temperature", .float (.ofFraction 3 10))])

end Localize.Provider
