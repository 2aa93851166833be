import Egress.Endpoint.Decode
import Egress.Health
import Egress.Service.Request

/-!
Using a service in the course of time.

A session is a service at a point in time. Requests that are made together run side by side, and the
session goes on when the last of them is answered.
-/

set_option autoImplicit false

namespace Egress

/-- A service and its way to the outside at a point in time, in milliseconds. -/
structure Session (ω : Type) where
  now : Nat
  world : World ω

/-- One request of a batch. -/
structure BatchItem where
  id : String
  options : CallOptions
  deriving Inhabited

def BatchItem.decode : Json.Decoder BatchItem :=
  Json.readRecord "struct BatchItem"
    [.needed "endpointId" Json.decodeString fun v r => { r with id := v },
      .optional "options" CallOptions.decode fun v r => { r with options := v }]
    ⟨"", CallOptions.plain⟩

/-- What comes of a batch: the last successful response of each endpoint, and all failures in the order
of the items. -/
structure BatchResult where
  responses : Dict Envelope
  failures : List (String × Failure)
  attempted : Nat
  succeeded : Nat
  failed : Nat

namespace BatchResult

/-- The result of no item. -/
def empty : BatchResult := ⟨∅, [], 0, 0, 0⟩

def add (r : BatchResult) (id : String) : Answer → BatchResult
  | .ok envelope =>
    { r with
      responses := r.responses.insert id envelope
      attempted := r.attempted + 1
      succeeded := r.succeeded + 1 }
  | .error failure =>
    { r with
      failures := r.failures ++ [(id, failure)]
      attempted := r.attempted + 1
      failed := r.failed + 1 }

def ofAnswers (answers : List (String × Answer)) : BatchResult :=
  answers.foldl (fun r a => r.add a.1 a.2) empty

end BatchResult

namespace Session

variable {ω : Type}

/-- The session in which nothing happened yet. -/
def start (service : Service) (state : ω) : Session ω := ⟨0, ⟨service, ⟨state, []⟩⟩⟩

/-- Changes the service at once. -/
def modify (s : Session ω) (f : Service → Service) : Session ω :=
  { s with world := { s.world with service := f s.world.service } }

def advance (s : Session ω) (ms : Nat) : Session ω :=
  { s.modify (·.pass s.now (s.now + ms)) with now := s.now + ms }

/-- Makes requests side by side; each answer comes with its time. `none` if `fuel` turns are not
enough. -/
def requests (s : Session ω) (transport : Transport ω) (fuel : Nat)
    (calls : List (String × CallOptions)) : Option (List (Nat × Answer) × Session ω) :=
  (Schedule.run (World.workshop transport) fuel s.now s.world
      (calls.map fun call => .pending s.now (.arriving call.1 call.2))).map fun outcome =>
    (Schedule.results outcome.courses, ⟨outcome.now, outcome.shared⟩)

def request (s : Session ω) (transport : Transport ω) (fuel : Nat) (id : String)
    (options : CallOptions) : Option (Answer × Session ω) := do
  let (answers, s) ← s.requests transport fuel [(id, options)]
  let (_, answer) ← answers.head?
  return (answer, s)

def batch (s : Session ω) (transport : Transport ω) (fuel : Nat) (items : List BatchItem) :
    Option (BatchResult × Session ω) := do
  let (answers, s) ← s.requests transport fuel (items.map fun item => (item.id, item.options))
  return (.ofAnswers ((items.zip answers).map fun (item, _, answer) => (item.id, answer)), s)

/-- Checks endpoints side by side. -/
def checks (s : Session ω) (transport : Transport ω) (fuel : Nat) (ids : List String) :
    Option (List HealthReport × Session ω) := do
  let (answers, after) ← s.requests transport fuel (ids.map fun id => (id, CallOptions.fresh))
  return ((ids.zip answers).map fun (id, time, answer) =>
    .ofResult id ((time - s.now) * nanosPerMilli) answer, after)

def check (s : Session ω) (transport : Transport ω) (fuel : Nat) (id : String) :
    Except Failure (Option (HealthReport × Session ω)) :=
  if s.world.service.registry.contains id then
    .ok do
      let (reports, s) ← s.checks transport fuel [id]
      let report ← reports.head?
      return (report, s)
  else .error (.registry (.notFound id))

/-- Checks all endpoints, ascending by id. -/
def checkAll (s : Session ω) (transport : Transport ω) (fuel : Nat) :
    Option (List HealthReport × Session ω) :=
  s.checks transport fuel s.world.service.registry.ids

end Session

end Egress
