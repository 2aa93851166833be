import Egress.Endpoint.Encode

/-!
The summary of an endpoint that lists show.
-/

set_option autoImplicit false

namespace Egress

/-- One line of a list of endpoints. -/
structure EndpointView where
  id : String
  name : String
  method : String
  url : String
  auth : String
  timeout : Nat
  /-- Requests and window, with a mark when callers wait. -/
  rateLimit : Option String
  cacheTtl : Option Nat
  maxAttempts : Nat
  deriving DecidableEq

def RateLimit.summary (r : RateLimit) : String :=
  toString r.requests ++ "/" ++ toString r.window ++ "ms" ++ (if r.queue then "+queue" else "")

def Endpoint.view (e : Endpoint) : EndpointView where
  id := e.id
  name := e.name
  method := e.method.name
  url := e.url
  auth := e.auth.kind
  timeout := e.timeout
  rateLimit := e.rateLimit.map RateLimit.summary
  cacheTtl := e.cacheTtl?
  maxAttempts := (e.effectiveRetryPolicy?.map (·.maxAttempts)).getD 1

/-- The summary as a record. -/
def EndpointView.toJson (v : EndpointView) : Json :=
  .ofFields [("id", .string v.id), ("name", .string v.name), ("method", .string v.method),
    ("url", .string v.url), ("auth", .string v.auth), ("timeout_ms", .nat v.timeout),
    ("rate_limit", .ofOption .string v.rateLimit), ("cache_ttl_ms", .ofOption .nat v.cacheTtl),
    ("max_attempts", .nat v.maxAttempts)]

end Egress
