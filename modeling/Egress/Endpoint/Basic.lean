import Egress.Json.Basic
import Egress.Timestamp

/-!
Endpoints: the targets of outbound calls and the policies attached to them.
-/

set_option autoImplicit false

namespace Egress

/-- The method of a call. -/
inductive Method
  | get
  | post
  | put
  | patch
  | delete
  | head
  | options
  deriving DecidableEq, Inhabited

namespace Method

/-- The name of the method on the wire. -/
def name : Method → String
  | .get => "GET"
  | .post => "POST"
  | .put => "PUT"
  | .patch => "PATCH"
  | .delete => "DELETE"
  | .head => "HEAD"
  | .options => "OPTIONS"

/-- All methods. -/
def all : List Method := [.get, .post, .put, .patch, .delete, .head, .options]

/-- Whether calls with this method carry a body. -/
def allowsBody : Method → Bool
  | .get => false
  | .head => false
  | _ => true

end Method

/-- The body of a call. -/
inductive Body
  | text (s : String)
  | json (j : Json)
  deriving Inhabited

/-- The client of a token exchange; kept for configuration only. -/
structure OAuthClient where
  clientId : Option String
  tokenUrl : Option String
  scopes : List String
  deriving DecidableEq, Inhabited

/-- How calls to an endpoint prove who sends them. -/
inductive Auth
  | none
  | bearer (token : Option String)
  | apiKey (key header : String)
  | basic (username password : String)
  | oauth2 (client : OAuthClient) (refreshToken : Option String) (expiresAt : Option Timestamp)
  deriving DecidableEq, Inhabited

def Auth.kind : Auth → String
  | .none => "none"
  | .bearer _ => "bearer"
  | .apiKey .. => "apikey"
  | .basic .. => "basic"
  | .oauth2 .. => "oauth2"

/-- The header that carries an API key unless another one is named. -/
def Auth.defaultKeyHeader : String := "X-API-Key"

/-- At most `requests` admissions in a window of `window` milliseconds. -/
structure RateLimit where
  requests : Nat
  window : Nat
  /-- Callers over the limit wait, if there is a delay to wait for. -/
  queue : Bool
  /-- Milliseconds between two checks of a waiting caller. -/
  throttleDelay : Option Nat
  deriving DecidableEq, Inhabited

/-- Milliseconds a caller over the limit sleeps before the next check; without a value it fails. -/
def RateLimit.throttle? (limit : RateLimit) : Option Nat :=
  limit.throttleDelay.filter fun delay => limit.queue && 0 < limit.requests && 0 < delay

/-- Where responses are meant to be kept. The tag is carried along: every response is kept in the
same store. -/
inductive CacheStorage
  | memory
  | localStore
  | sessionStore
  deriving DecidableEq, Inhabited

def CacheStorage.name : CacheStorage → String
  | .memory => "memory"
  | .localStore => "local"
  | .sessionStore => "session"

/-- Successful responses are kept for `ttl` milliseconds. -/
structure CachePolicy where
  enabled : Bool
  ttl : Nat
  storage : CacheStorage
  deriving DecidableEq, Inhabited

/-- How delays between attempts grow. -/
inductive Backoff
  | exponential
  | linear
  | fixed
  deriving DecidableEq, Inhabited

def Backoff.name : Backoff → String
  | .exponential => "exponential"
  | .linear => "linear"
  | .fixed => "fixed"

/-- When a failed call is tried again. -/
structure RetryPolicy where
  /-- Attempts in total. -/
  maxAttempts : Nat
  backoff : Backoff
  /-- Milliseconds before the second attempt. -/
  baseDelay : Nat
  /-- No delay is longer than this. -/
  maxDelay : Option Nat
  /-- Statuses worth another attempt. -/
  retryableStatuses : List Nat
  deriving DecidableEq, Inhabited

/-- The greatest number of attempts. -/
def RetryPolicy.attemptLimit : Nat := 4294967295

/-- The policy that a plain number of further attempts stands for. -/
def RetryPolicy.ofRetries (retries : Nat) : RetryPolicy :=
  ⟨min (retries + 1) attemptLimit, .exponential, 1000, none, [408, 429, 500, 502, 503, 504]⟩

/-- A target of outbound calls. -/
structure Endpoint where
  id : String
  name : String
  url : String
  method : Method
  headers : Dict String
  queryParams : Dict String
  body : Option Body
  /-- Milliseconds a call may take. -/
  timeout : Nat
  /-- Further attempts, used without a retry policy. -/
  retries : Option Nat
  auth : Auth
  rateLimit : Option RateLimit
  cache : Option CachePolicy
  retryPolicy : Option RetryPolicy
  deriving Inhabited

namespace Endpoint

/-- Milliseconds a call may take unless the endpoint says otherwise. -/
def defaultTimeout : Nat := 30000

/-- An endpoint without any policy, asked with `GET`. -/
def plain (id name url : String) : Endpoint :=
  { id, name, url, method := .get, headers := ∅, queryParams := ∅, body := none,
    timeout := defaultTimeout, retries := none, auth := .none, rateLimit := none, cache := none,
    retryPolicy := none }

/-- How long successful responses are kept, if at all. -/
def cacheTtl? (e : Endpoint) : Option Nat :=
  match e.cache with
  | some c => if c.enabled && 0 < c.ttl then some c.ttl else none
  | none => none

/-- Whether successful responses are kept. -/
def cacheEnabled (e : Endpoint) : Bool := e.cacheTtl?.isSome

/-- The retry policy in force. -/
def effectiveRetryPolicy? (e : Endpoint) : Option RetryPolicy :=
  match e.retryPolicy, e.retries with
  | some policy, _ => some policy
  | none, some retries => if 0 < retries then some (RetryPolicy.ofRetries retries) else none
  | none, none => none

end Endpoint

/-- What a caller asks for in one request. -/
structure CallOptions where
  query : Dict String
  headers : Dict String
  body : Option Body
  /-- Milliseconds a call may take, instead of what the endpoint says. -/
  timeout : Option Nat
  /-- Do not answer from the cache. -/
  forceRefresh : Bool
  deriving Inhabited

/-- The request that asks for nothing in particular. -/
def CallOptions.plain : CallOptions := ⟨∅, ∅, none, none, false⟩

/-- A request for a response that is not from the cache. -/
def CallOptions.fresh : CallOptions := { CallOptions.plain with forceRefresh := true }

end Egress
