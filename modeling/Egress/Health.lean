import Egress.Call.Envelope
import Egress.Duration

/-!
Health of endpoints.

A check is a request for a fresh response. One that succeeds in less than a second is healthy, a slower
success is degraded, and any failure is unhealthy.
-/

set_option autoImplicit false

namespace Egress

/-- The health of an endpoint. -/
inductive Health
  | healthy
  | degraded
  | unhealthy
  deriving DecidableEq

def Health.name : Health → String
  | .healthy => "healthy"
  | .degraded => "degraded"
  | .unhealthy => "unhealthy"

/-- From this duration in nanoseconds on a success is slow. -/
def Health.slow : Nat := nanosPerSecond

/-- What one check found. -/
structure HealthReport where
  id : String
  health : Health
  /-- Milliseconds the check took. -/
  responseTime : Nat
  status : Option Nat
  error : Option String
  deriving DecidableEq

namespace HealthReport

/-- The report of a check that took `nanos` nanoseconds. -/
def ofResult (id : String) (nanos : Nat) (result : Except Failure Envelope) : HealthReport :=
  let (health, status, error) :=
    match result with
    | .ok envelope =>
      if isSuccessStatus envelope.status then
        ((if nanos < Health.slow then Health.healthy else .degraded), some envelope.status, none)
      else
        (.unhealthy, some envelope.status,
          some (Failure.http envelope.status envelope.statusText).message)
    | .error failure => (.unhealthy, failure.status?, some failure.message)
  ⟨id, health, nanos / nanosPerMilli, status, error⟩

/-- The report as a record. -/
def toJson (r : HealthReport) : Json :=
  .ofFields ([("endpointId", .string r.id), ("status", .string r.health.name),
      ("responseTimeMs", .nat r.responseTime)] ++
    (r.status.toList.map fun status => ("statusCode", .nat status)) ++
    (r.error.toList.map fun error => ("error", .string error)))

end HealthReport

end Egress
