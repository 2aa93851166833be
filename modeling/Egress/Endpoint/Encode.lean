import Egress.Endpoint.Basic

/-!
Writing endpoints and call options as JSON.

What an endpoint does not set is left out; policies are written with all their fields except for
delays that are not set.
-/

set_option autoImplicit false

namespace Egress

/-- A member that is left out without a value. -/
def Json.optionalField {α : Type} (key : String) (f : α → Json) :
    Option α → List (String × Json)
  | none => []
  | some a => [(key, f a)]

/-- A dictionary of texts as an object. -/
def Json.ofTexts (d : Dict String) : Json := .object (d.entries.map fun e => (e.1, .string e.2))

/-- A dictionary as a member that is left out when it is empty. -/
def Json.textsField (key : String) (d : Dict String) : List (String × Json) :=
  if d.isEmpty then [] else [(key, .ofTexts d)]

/-- The body as it is written into records: a text body as a string. -/
def Body.toJson : Body → Json
  | .text s => .string s
  | .json j => j

def Auth.toJson : Auth → Json
  | .none => .ofFields [("type", .string "none")]
  | .bearer token =>
    .ofFields [("type", .string "bearer"),
      ("credentials", .ofFields [("token", .ofOption .string token)])]
  | .apiKey key header =>
    .ofFields [("type", .string "apikey"),
      ("credentials", .ofFields [("key", .string key), ("header", .string header)])]
  | .basic username password =>
    .ofFields [("type", .string "basic"),
      ("credentials",
        .ofFields [("username", .string username), ("password", .string password)])]
  | .oauth2 client refreshToken expiresAt =>
    .ofFields ([("type", .string "oauth2"),
      ("credentials",
        .ofFields [("clientId", .ofOption .string client.clientId),
          ("tokenUrl", .ofOption .string client.tokenUrl),
          ("scopes", .array (client.scopes.map .string))])] ++
      Json.optionalField "refreshToken" .string refreshToken ++
      Json.optionalField "expiresAt" (fun t => .string t.format) expiresAt)

/-- The limit as a record. -/
def RateLimit.toJson (r : RateLimit) : Json :=
  .ofFields ([("requests", .nat r.requests), ("window", .nat r.window), ("queue", .bool r.queue)] ++
    Json.optionalField "throttleDelay" .nat r.throttleDelay)

/-- The policy as a record. -/
def CachePolicy.toJson (c : CachePolicy) : Json :=
  .ofFields [("enabled", .bool c.enabled), ("ttl", .nat c.ttl), ("strategy", .string c.storage.name)]

/-- The policy as a record. -/
def RetryPolicy.toJson (p : RetryPolicy) : Json :=
  .ofFields ([("maxAttempts", .nat p.maxAttempts), ("backoffStrategy", .string p.backoff.name),
    ("baseDelay", .nat p.baseDelay),
    ("retryableStatusCodes", .array (p.retryableStatuses.map .nat))] ++
    Json.optionalField "maxDelay" .nat p.maxDelay)

/-- The endpoint as a record. -/
def Endpoint.toJson (e : Endpoint) : Json :=
  .ofFields ([("id", .string e.id), ("name", .string e.name), ("url", .string e.url),
    ("method", .string e.method.name), ("timeout", .nat e.timeout), ("auth", e.auth.toJson)] ++
    Json.textsField "headers" e.headers ++
    Json.textsField "queryParams" e.queryParams ++
    Json.optionalField "body" Body.toJson e.body ++
    Json.optionalField "retries" .nat e.retries ++
    Json.optionalField "rateLimit" RateLimit.toJson e.rateLimit ++
    Json.optionalField "cache" CachePolicy.toJson e.cache ++
    Json.optionalField "retryPolicy" RetryPolicy.toJson e.retryPolicy)

/-- The options as a record with every field. -/
def CallOptions.toJson (o : CallOptions) : Json :=
  .ofFields [("query", .ofTexts o.query), ("headers", .ofTexts o.headers),
    ("body", .ofOption Body.toJson o.body), ("timeout", .ofOption .nat o.timeout),
    ("forceRefresh", .bool o.forceRefresh)]

end Egress
