import Egress.Retry
import Egress.Schedule
import Egress.Transport.Wire

/-!
Errands: the attempts of one request.

An errand makes a call, waits for its result, and as long as its policy says so pauses and makes the
next one. A call that cannot be prepared has failed at once, without being sent.
-/

set_option autoImplicit false

namespace Egress

/-- A request to an endpoint with the policy that its attempts follow. -/
structure Errand where
  endpoint : Endpoint
  options : CallOptions
  policy : Option RetryPolicy

namespace Errand

/-- What an errand waits for. Attempts are counted from 1. -/
inductive Stage
  /-- Time for attempt `n`. -/
  | pausing (n : Nat)
  /-- The result of attempt `n`, which is on its way. -/
  | calling (n : Nat) (result : Except Failure Envelope)

variable {ω : Type}

/-- Makes one call: how long it takes and what comes of it. -/
def call (e : Errand) (transport : Transport ω) (tokens : Tokens) (now : Nat) (wire : Wire ω) :
    Wire ω × Nat × Except Failure Envelope :=
  match Call.prepare tokens e.endpoint e.options with
  | .error failure => (wire, 0, .error failure)
  | .ok call =>
    let (reply, wire) := wire.send transport now call
    (wire, call.settle e.endpoint.id reply)

def act (e : Errand) (transport : Transport ω) (tokens : Tokens) (now : Nat) (wire : Wire ω) :
    Stage → Wire ω × Turn Stage (Except Failure Envelope)
  | .pausing n =>
    let (wire, duration, result) := e.call transport tokens now wire
    (wire, .wait duration (.calling n result))
  | .calling n result =>
    match judge e.policy e.endpoint.id n result with
    | .finished result => (wire, .finish result)
    | .again delay => (wire, .wait delay (.pausing (n + 1)))

/-- An errand on its own. -/
def workshop (e : Errand) (transport : Transport ω) (tokens : Tokens) :
    Workshop (Wire ω) Stage (Except Failure Envelope) where
  act now wire stage := e.act transport tokens now wire stage
  pass _ _ wire := wire

/-- Runs an errand from its first attempt on. -/
def run (e : Errand) (transport : Transport ω) (tokens : Tokens) (fuel now : Nat) (wire : Wire ω) :
    Option (Schedule.Outcome (Wire ω) Stage (Except Failure Envelope)) :=
  Schedule.run (e.workshop transport tokens) fuel now wire [.pending now (.pausing 1)]

end Errand

end Egress
