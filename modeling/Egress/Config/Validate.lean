import Egress.Config.Basic
import Egress.Endpoint.Validate

/-!
Which configurations can be used.

Periods must not be zero, every endpoint must be one that can be served, and no two may have the same id.
-/

set_option autoImplicit false

namespace Egress

/-- Why a configuration cannot be used. -/
inductive ConfigFlaw
  | noConnectTimeout
  | noCachePeriod
  | noLimiterPeriod
  | endpoint (index : Nat) (flaw : Flaw)
  | repeatedId (index : Nat) (id : String)
  deriving DecidableEq

namespace ConfigFlaw

/-- A field of the endpoint at a position. -/
def endpointField (index : Nat) (field : String) : String :=
  "endpoints[" ++ toString index ++ "]." ++ field

/-- The setting at fault. -/
def field : ConfigFlaw → String
  | .noConnectTimeout => "client.connect_timeout_seconds"
  | .noCachePeriod => "maintenance.cache_sweep_seconds"
  | .noLimiterPeriod => "maintenance.rate_limit_sweep_seconds"
  | .endpoint index flaw => endpointField index flaw.field
  | .repeatedId index _ => endpointField index "id"

def reason : ConfigFlaw → String
  | .noConnectTimeout => "must be non-zero"
  | .noCachePeriod => "must be non-zero"
  | .noLimiterPeriod => "must be non-zero"
  | .endpoint _ flaw => flaw.message
  | .repeatedId _ id => "duplicate endpoint id '" ++ id ++ "'"

def message (f : ConfigFlaw) : String := "Invalid value for '" ++ f.field ++ "': " ++ f.reason

end ConfigFlaw

namespace Config

/-- The first flaw of the endpoints from position `index` on, after those with the ids `seen`. -/
def endpointsFlaw? (index : Nat) (seen : List String) : List Endpoint → Option ConfigFlaw
  | [] => none
  | e :: rest =>
    match e.flaw? with
    | some flaw => some (.endpoint index flaw)
    | none =>
      if seen.contains e.id then some (.repeatedId index e.id)
      else endpointsFlaw? (index + 1) (e.id :: seen) rest

/-- The first flaw of a configuration. -/
def flaw? (c : Config) : Option ConfigFlaw :=
  if c.client.connectTimeout = 0 then some .noConnectTimeout
  else if c.sweeps.cache = 0 then some .noCachePeriod
  else if c.sweeps.limiter = 0 then some .noLimiterPeriod
  else endpointsFlaw? 0 [] c.endpoints

end Config

end Egress
