import Egress.Endpoint.Basic
import Egress.Endpoint.Update
import Egress.Json.Decode

/-!
Reading endpoints, their updates and call options from JSON.
-/

set_option autoImplicit false

namespace Egress

open Json

def Method.variants : Variants Method := Method.all.map fun m => (m.name, m)

def CacheStorage.variants : Variants CacheStorage :=
  [("memory", .memory), ("local", .localStore), ("localStorage", .localStore),
    ("session", .sessionStore), ("sessionStorage", .sessionStore)]

def Backoff.variants : Variants Backoff :=
  [("exponential", .exponential), ("linear", .linear), ("fixed", .fixed)]

/-- A text is a text body, any other value a JSON body. -/
def Body.decode : Decoder Body
  | _, .string s => .ok (.text s)
  | d, t => (decodeValue d t).map .json

def RateLimit.decode : Decoder RateLimit :=
  readRecord "struct RateLimitConfig"
    [.needed "requests" (decodeNat 32) fun v r => { r with requests := v },
      .needed "window" (decodeNat 64) fun v r => { r with window := v },
      .optional "queue" decodeBool fun v r => { r with queue := v },
      .optional "throttleDelay" (decodeOption (decodeNat 64)) fun v r => { r with throttleDelay := v }]
    ⟨0, 0, false, none⟩

def CachePolicy.decode : Decoder CachePolicy :=
  readRecord "struct CacheConfig"
    [.needed "enabled" decodeBool fun v r => { r with enabled := v },
      .needed "ttl" (decodeNat 64) fun v r => { r with ttl := v },
      .optional "strategy" (decodeVariant CacheStorage.variants) fun v r => { r with storage := v }]
    ⟨false, 0, .memory⟩

def RetryPolicy.decode : Decoder RetryPolicy :=
  readRecord "struct RetryPolicy"
    [.needed "maxAttempts" (decodeNat 32) fun v r => { r with maxAttempts := v },
      .optional "backoffStrategy" (decodeVariant Backoff.variants) fun v r => { r with backoff := v },
      .needed "baseDelay" (decodeNat 64) fun v r => { r with baseDelay := v },
      .optional "maxDelay" (decodeOption (decodeNat 64)) fun v r => { r with maxDelay := v },
      .optional "retryableStatusCodes" (decodeList (decodeNat 16)) fun v r =>
        { r with retryableStatuses := v }]
    ⟨0, .exponential, 0, none, []⟩

namespace Auth

/-- The schemes. -/
inductive Scheme
  | none
  | bearer
  | apiKey
  | basic
  | oauth2
  deriving DecidableEq

def Scheme.variants : Variants Scheme :=
  [("none", .none), ("bearer", .bearer), ("api-key", .apiKey), ("api_key", .apiKey),
    ("apikey", .apiKey), ("basic", .basic), ("oauth2", .oauth2)]

def Scheme.decode : Decoder Scheme
  | _, .string name => Scheme.variants.find name
  | _, t => mismatch "variant identifier" t

def decodeBearer : Decoder (Option String) :=
  readRecord "struct BearerCredentials"
    [.optional "token" (decodeOption decodeString) fun v _ => v] Option.none

def decodeApiKey : Decoder (String × String) :=
  readRecord "struct ApiKeyCredentials"
    [.orNamed (.needed "key" decodeString fun v r => (v, r.2)) ["apiKey"],
      .orNamed (.optional "header" decodeString fun v r => (r.1, v)) ["headerName"]]
    ("", defaultKeyHeader)

def decodeBasic : Decoder (String × String) :=
  readRecord "struct BasicCredentials"
    [.needed "username" decodeString fun v r => (v, r.2),
      .needed "password" decodeString fun v r => (r.1, v)] ("", "")

/-- The client of an OAuth 2 scheme. -/
def decodeClient : Decoder OAuthClient :=
  readRecord "struct OAuth2Credentials"
    [.optional "clientId" (decodeOption decodeString) fun v r => { r with clientId := v },
      .optional "tokenUrl" (decodeOption decodeString) fun v r => { r with tokenUrl := v },
      .optional "scopes" (decodeList decodeString) fun v r => { r with scopes := v }]
    ⟨Option.none, Option.none, []⟩

/-- The content of a scheme: the object or array without the scheme's name. What is kept before it is
read follows the rules for JSON. -/
def decodeContent : Scheme → Tree → Except DecodeError Auth
  | .none, .array (t :: rest) => .error (.surplusItems (rest.length + [t].length) 0 true)
  | .none, _ => .ok .none
  | .bearer, t =>
    readRecord "struct variant AuthConfig::Bearer"
      [.optional "credentials" decodeBearer fun v _ => .bearer v] (.bearer Option.none) .json t
  | .apiKey, t =>
    readRecord "struct variant AuthConfig::ApiKey"
      [.needed "credentials" decodeApiKey fun v _ => .apiKey v.1 v.2] (.apiKey "" "") .json t
  | .basic, t =>
    readRecord "struct variant AuthConfig::Basic"
      [.needed "credentials" decodeBasic fun v _ => .basic v.1 v.2] (.basic "" "") .json t
  | .oauth2, t => do
    let (client, refreshToken, expiresAt) ← readRecord "struct variant AuthConfig::OAuth2"
      [.optional "credentials" decodeClient fun v r => (v, r.2),
        .optional "refreshToken" (decodeOption decodeString) fun v r => (r.1, v, r.2.2),
        .optional "expiresAt" (decodeOption decodeTimestamp) fun v r => (r.1, r.2.1, v)]
      ((⟨Option.none, Option.none, []⟩ : OAuthClient), (Option.none : Option String),
        (Option.none : Option Timestamp)) .json t
    return .oauth2 client refreshToken expiresAt

/-- Finds the scheme's name among the members and keeps the others, whose values have to exist. -/
def takeScheme (scheme : Option Scheme) :
    List (Option String × Tree) → Except DecodeError (Scheme × List (Option String × Tree))
  | [] =>
    match scheme with
    | some scheme => .ok (scheme, [])
    | Option.none => .error (.missingField "type")
  | (Option.none, _) :: _ => .error .unkept
  | (some key, t) :: rest =>
    if key = "type" then
      if scheme.isSome then .error (.duplicateField "type")
      else do takeScheme (some (← Scheme.decode .json t)) rest
    else do
      discard (decodeValue .json t)
      let (scheme, others) ← takeScheme scheme rest
      return (scheme, (some key, t) :: others)

/-- What is kept before it is read is measured as a whole. -/
def kept (e : DecodeError) : DecodeError :=
  match e with
  | .surplusItems length fields _ => .surplusItems length fields true
  | e => e

/-- An authentication scheme: an object with the scheme's name under `type`, or an array that starts
with it. -/
def decode : Decoder Auth
  | _, .object members => do
    let (scheme, others) ← takeScheme Option.none members
    (decodeContent scheme (.object others)).mapError kept
  | _, .array [] => .error (.missingField "type")
  | _, .array (t :: rest) => do
    let scheme ← Scheme.decode .json t
    discard (rest.mapM (decodeValue .json))
    (decodeContent scheme (.array rest)).mapError kept
  | _, t => mismatch "internally tagged enum AuthConfig" t

end Auth

def Endpoint.decode : Decoder Endpoint :=
  readRecord "struct Endpoint"
    [.needed "id" decodeString fun v r => { r with id := v },
      .needed "name" decodeString fun v r => { r with name := v },
      .needed "url" decodeString fun v r => { r with url := v },
      .optional "method" (decodeVariant Method.variants) fun v r => { r with method := v },
      .optional "headers" (decodeDict decodeString) fun v r => { r with headers := v },
      .optional "queryParams" (decodeDict decodeString) fun v r => { r with queryParams := v },
      .optional "body" (decodeOption Body.decode) fun v r => { r with body := v },
      .optional "timeout" (decodeNat 64) fun v r => { r with timeout := v },
      .optional "retries" (decodeOption (decodeNat 32)) fun v r => { r with retries := v },
      .optional "auth" Auth.decode fun v r => { r with auth := v },
      .optional "rateLimit" (decodeOption RateLimit.decode) fun v r => { r with rateLimit := v },
      .optional "cache" (decodeOption CachePolicy.decode) fun v r => { r with cache := v },
      .optional "retryPolicy" (decodeOption RetryPolicy.decode) fun v r =>
        { r with retryPolicy := v }]
    (Endpoint.plain "" "" "")

def EndpointUpdate.decode : Decoder EndpointUpdate :=
  readRecord "struct EndpointUpdate"
    [.optional "name" (decodeOption decodeString) fun v r => { r with name := v },
      .optional "url" (decodeOption decodeString) fun v r => { r with url := v },
      .optional "method" (decodeOption (decodeVariant Method.variants)) fun v r =>
        { r with method := v },
      .optional "headers" (decodeOption (decodeDict decodeString)) fun v r => { r with headers := v },
      .optional "queryParams" (decodeOption (decodeDict decodeString)) fun v r =>
        { r with queryParams := v },
      .optional "body" (decodeOption Body.decode) fun v r => { r with body := v },
      .optional "timeout" (decodeOption (decodeNat 64)) fun v r => { r with timeout := v },
      .optional "retries" (decodeOption (decodeNat 32)) fun v r => { r with retries := v },
      .optional "auth" (decodeOption Auth.decode) fun v r => { r with auth := v },
      .optional "rateLimit" (decodeOption RateLimit.decode) fun v r => { r with rateLimit := v },
      .optional "cache" (decodeOption CachePolicy.decode) fun v r => { r with cache := v },
      .optional "retryPolicy" (decodeOption RetryPolicy.decode) fun v r =>
        { r with retryPolicy := v }]
    EndpointUpdate.empty

def CallOptions.decode : Decoder CallOptions :=
  readRecord "struct RequestOptions"
    [.optional "query" (decodeDict decodeString) fun v r => { r with query := v },
      .optional "headers" (decodeDict decodeString) fun v r => { r with headers := v },
      .optional "body" (decodeOption Body.decode) fun v r => { r with body := v },
      .optional "timeout" (decodeOption (decodeNat 64)) fun v r => { r with timeout := v },
      .optional "forceRefresh" decodeBool fun v r => { r with forceRefresh := v }]
    CallOptions.plain

end Egress
