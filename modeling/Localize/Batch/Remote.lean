import Localize.Batch.Chunk
import Localize.Provider.Service

/-!
# The service as a translator

A translation service with the other side of its exchanges translates chunks. It is either set up
beforehand, or anew for every run that has something to send.
-/

namespace Localize.Batch

/-- A service, if it is set up, and the other side of its exchanges. -/
structure Remote (ε : Type) where
  service : Option Service
  endpoint : ε

namespace Remote

def answer (o : Service.Outcome) : Answer :=
  match o.result with
  | .ok (fields, usage) => .gave (.obj fields) usage.toJson
  | .error _ => .failed

def ask {ε : Type} (post : Provider.Endpoint ε) (r : Remote ε) (texts : List Text) (prompt : Text) :
    Answer × List Nat × Remote ε :=
  match r.service with
  | none => (.failed, [], r)
  | some s =>
    let (outcome, s, e) := s.translateChunk post r.endpoint texts prompt
    (answer outcome, outcome.waits, ⟨some s, e⟩)

/-- A service that is set up for every run. -/
def fresh {ε : Type} (post : Provider.Endpoint ε) (setUp : Except Failure Service) :
    Translator (Remote ε) where
  prepare r :=
    match setUp with
    | .ok s => (.ok (), { r with service := some s })
    | .error failure => (.error failure, r)
  translate r texts _ prompt := r.ask post texts prompt

/-- A service that is set up already. -/
def standing {ε : Type} (post : Provider.Endpoint ε) : Translator (Remote ε) where
  prepare r := (.ok (), r)
  translate r texts _ prompt := r.ask post texts prompt

end Remote

end Localize.Batch
