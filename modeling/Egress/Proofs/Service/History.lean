import Egress.Proofs.Schedule
import Egress.Service.Document
import Egress.Service.Session

/-!
# The history of a service

A session is `Reached` by operations that are complete, one after the other; requests may be made side
by side. Along with it goes what happened to kept responses, the latest first: every request with its
answer and the time of the answer, and each time that responses were dropped. `lastResponse?` reads
from it, without a look at the cache, what was last answered to a request of the same key.
-/

set_option autoImplicit false

namespace Egress

/-- What is done to a service at once. -/
inductive Operation
  | register (e : Endpoint)
  | update (id : String) (u : EndpointUpdate)
  | unregister (id : String)
  | clearCache (id : Option String)
  | importText (text : String)
  | setToken (id : String) (token : Option String)
  | sweep
  | startMaintenance (periods : SweepPeriods)
  | stopMaintenance

/-- Something that happened to a service and matters to kept responses. -/
inductive Happening
  | answered (time : Nat) (id : String) (options : CallOptions) (answer : Answer)
  /-- The responses kept from one endpoint were dropped. -/
  | dropped (id : String)
  /-- All responses were dropped. -/
  | emptied

namespace Request

/-- The endpoint that a request is for. -/
def id : Request → String
  | .arriving id _ => id
  | .queueing job => job.endpoint.id
  | .working job _ => job.endpoint.id

/-- What a request asks for. -/
def options : Request → CallOptions
  | .arriving _ options => options
  | .queueing job => job.options
  | .working job _ => job.options

end Request

/-- The note of an answer. -/
def Happening.ofAnswer (time : Nat) (request : Request) (answer : Answer) : Happening :=
  .answered time request.id request.options answer

namespace Service

/-- Whether an import of the text comes to the point where everything is cleared. -/
def importClears (text : String) : Bool :=
  match Document.read text with
  | .error _ => false
  | .ok document => (firstFlaw? document.endpoints).isNone

/-- The service after an operation, with what happened to kept responses. One that fails changes nothing,
apart from an import that fails late. -/
def operate (s : Service) (now : Nat) : Operation → Service × List Happening
  | .register e =>
    match s.register e with
    | .error _ => (s, [])
    | .ok s => (s, [])
  | .update id u =>
    match s.update id u with
    | .error _ => (s, [])
    | .ok (_, s) => (s, [.dropped id])
  | .unregister id =>
    match s.unregister id with
    | .error _ => (s, [])
    | .ok s => (s, [.dropped id])
  | .clearCache id => (s.clearCache id, [id.elim .emptied .dropped])
  | .importText text => ((s.importText text).2, if importClears text then [.emptied] else [])
  | .setToken id token => (s.setToken id token, [])
  | .sweep => (s.sweep now, [])
  | .startMaintenance periods => (s.startMaintenance periods now, [])
  | .stopMaintenance => (s.stopMaintenance, [])

end Service

/-- An id that is named in order to clear the cache holds no separator. -/
def Operation.Plain : Operation → Prop
  | .clearCache (some id) => keySeparator ∉ id.toList
  | _ => True

namespace Session

variable {ω : Type}

/-- The session after an operation, with what happened to kept responses. -/
def operate (s : Session ω) (op : Operation) : Session ω × List Happening :=
  (s.modify fun service => (service.operate s.now op).1, (s.world.service.operate s.now op).2)

/-- Makes requests side by side as `requests` does, and notes each answer in the history. -/
def requestsNoting (s : Session ω) (transport : Transport ω) (fuel : Nat) (past : List Happening)
    (calls : List (String × CallOptions)) :
    Option (List (Nat × Answer) × Session ω × List Happening) :=
  (Schedule.run ((World.workshop transport).noting Happening.ofAnswer) fuel s.now (s.world, past)
      (calls.map fun call => .pending s.now (.arriving call.1 call.2))).map fun outcome =>
    (Schedule.results outcome.courses, ⟨outcome.now, outcome.shared.1⟩, outcome.shared.2)

/-- Noting the answers changes nothing. -/
theorem requestsNoting_eq (s : Session ω) (transport : Transport ω) (fuel : Nat)
    (past : List Happening) (calls : List (String × CallOptions)) :
    (s.requestsNoting transport fuel past calls).map (fun r => (r.1, r.2.1)) =
      s.requests transport fuel calls := by
  unfold requestsNoting requests
  rw [← Schedule.run_noting (World.workshop transport) Happening.ofAnswer fuel s.now s.world past,
    Option.map_map, Option.map_map]
  rfl

/-- The sessions that complete operations lead to, each with its history. -/
inductive Reached (transport : Transport ω) : Session ω → List Happening → Prop
  | start (strategy : KeyStrategy) (tokens : Tokens) (events : Channel) (state : ω) :
      Reached transport (.start (.create strategy tokens events) state) []
  | operate {s : Session ω} {past : List Happening} (h : Reached transport s past) (op : Operation)
      (hop : op.Plain) : Reached transport (s.operate op).1 ((s.operate op).2 ++ past)
  | advance {s : Session ω} {past : List Happening} (h : Reached transport s past) (ms : Nat) :
      Reached transport (s.advance ms) past
  | requests {s after : Session ω} {past past' : List Happening} (h : Reached transport s past)
      {fuel : Nat} {calls : List (String × CallOptions)} {answers : List (Nat × Answer)}
      (hrun : s.requestsNoting transport fuel past calls = some (answers, after, past')) :
      Reached transport after past'

end Session

/-- The last response in the history to a request for `id` of the same key, with the time of its answer,
unless it was dropped since. Responses from the cache do not count. -/
def lastResponse? (strategy : KeyStrategy) (id key : String) : List Happening → Option (Nat × Envelope)
  | [] => none
  | .answered time id' options answer :: past =>
    match answer with
    | .ok envelope =>
      if id' = id ∧ strategy.key id' options = key ∧ envelope.cached = false then some (time, envelope)
      else lastResponse? strategy id key past
    | .error _ => lastResponse? strategy id key past
  | .dropped id' :: past => if id' = id then none else lastResponse? strategy id key past
  | .emptied :: _ => none

end Egress
