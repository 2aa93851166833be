import Egress.Config.Basic

/-!
Settings from the environment.

Variables override what the configuration says. A value that cannot be read is passed over.
-/

set_option autoImplicit false

namespace Egress

/-- The strategy of a name, in any case of its letters and with hyphens for underscores. -/
def KeyStrategy.parse (text : String) : Except String KeyStrategy :=
  let name := String.ofList ((Text.lower text).toList.map fun c => if c = '-' then '_' else c)
  if name = "endpoint_id" || name = "endpoint" then .ok .endpoint
  else if name = "request" then .ok .request
  else .error ("Invalid cache key strategy: " ++ text)

/-- A natural number of at most 64 bits in decimal digits, perhaps after a plus sign. -/
def parseWord (text : String) : Option Nat :=
  let digits :=
    match text.toList with
    | '+' :: digits => digits
    | digits => digits
  if digits.isEmpty || !digits.all Json.isDigit then none
  else
    let n := Json.digitsValue digits
    if n < UInt64.size then some n else none

namespace Config

/-- The variables that say something about a configuration. -/
def variableNames : List String :=
  ["CONDUIT_LOG_LEVEL", "CONDUIT_LOG_FORMAT", "CONDUIT_USER_AGENT", "CONDUIT_CONNECT_TIMEOUT",
    "CONDUIT_CACHE_KEY_STRATEGY", "CONDUIT_CACHE_SWEEP_SECONDS",
    "CONDUIT_RATE_LIMIT_SWEEP_SECONDS"]

/-- Sets what a variable that can be read says. -/
def override {α : Type} (env : Dict String) (name : String) (read : String → Option α)
    (set : α → Config → Config) (c : Config) : Config :=
  match (env.get? name).bind read with
  | some value => set value c
  | none => c

def withEnvironment (c : Config) (env : Dict String) : Config :=
  c |> override env "CONDUIT_LOG_LEVEL" some (fun v c =>
      { c with logging := { c.logging with level := v } })
    |> override env "CONDUIT_LOG_FORMAT" (fun s => (LogFormat.parse s).toOption) (fun v c =>
      { c with logging := { c.logging with format := v } })
    |> override env "CONDUIT_USER_AGENT" some (fun v c =>
      { c with client := { c.client with userAgent := v } })
    |> override env "CONDUIT_CONNECT_TIMEOUT" parseWord (fun v c =>
      { c with client := { c.client with connectTimeout := v } })
    |> override env "CONDUIT_CACHE_KEY_STRATEGY" (fun s => (KeyStrategy.parse s).toOption)
      (fun v c => { c with keyStrategy := v })
    |> override env "CONDUIT_CACHE_SWEEP_SECONDS" parseWord (fun v c =>
      { c with sweeps := { c.sweeps with cache := v } })
    |> override env "CONDUIT_RATE_LIMIT_SWEEP_SECONDS" parseWord (fun v c =>
      { c with sweeps := { c.sweeps with limiter := v } })

end Config

end Egress
