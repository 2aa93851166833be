import Egress.Endpoint.Validate
import Egress.Json.Decode

/-!
What can go wrong.

Every error is a cause with the data it is about; the wording is in one function for each type.
-/

set_option autoImplicit false

namespace Egress

/-- Why the registry refuses an operation. -/
inductive RegistryError
  | duplicate (id : String)
  | notFound (id : String)
  | invalid (id : String) (flaw : Flaw)
  deriving DecidableEq

def RegistryError.message : RegistryError → String
  | .duplicate id => "endpoint already exists: " ++ id
  | .notFound id => "endpoint not found: " ++ id
  | .invalid id flaw => "invalid endpoint '" ++ id ++ "': " ++ flaw.field ++ " " ++ flaw.message

/-- Why a call got no response. -/
inductive TransportError
  | timeout (ms : Nat)
  | network (message : String)
  /-- The request could not be built. -/
  | invalid (message : String)
  deriving DecidableEq

def TransportError.message : TransportError → String
  | .timeout ms => "request timeout after " ++ toString ms ++ "ms"
  | .network message => "network error: " ++ message
  | .invalid message => "invalid request: " ++ message

/-- Why a configuration is not imported. -/
inductive ImportError
  | undecodable (error : Json.TextError)
  | refused (error : RegistryError)

/-- The wording of the error, as far as it has one. -/
def ImportError.message? : ImportError → Option String
  | .undecodable error => error.message
  | .refused error => some error.message

/-- Why an operation of the service fails. -/
inductive Failure
  | registry (error : RegistryError)
  /-- The window is used up and the caller does not wait. -/
  | rateLimited (id : String) (retryAfter : Nat)
  | timedOut (id : String) (ms : Nat)
  /-- A response with a status outside 200 to 299. -/
  | http (status : Nat) (statusText : String)
  /-- The last of the attempts failed too. -/
  | exhausted (id : String) (attempts : Nat) (last : Failure)
  | importFailed (error : ImportError)
  | transport (id : String) (message : String)
  | noToken (id : String)
  | badUrl (id : String) (url : String) (error : UrlError)
  | refused (id : String) (message : String)

namespace Failure

def message : Failure → String
  | .registry error => error.message
  | .rateLimited id ms =>
    "rate limit exceeded for endpoint '" ++ id ++ "', retry after " ++ toString ms ++ "ms"
  | .timedOut id ms => "request to '" ++ id ++ "' timed out after " ++ toString ms ++ "ms"
  | .http status text => "HTTP " ++ toString status ++ ": " ++ text
  | .exhausted id attempts last =>
    "all " ++ toString attempts ++ " attempts to '" ++ id ++ "' failed, last error: " ++ last.message
  | .importFailed error => "configuration import failed: " ++ error.message?.getD "malformed text"
  | .transport id text => "transport error for '" ++ id ++ "': " ++ text
  | .noToken id =>
    "no OAuth2 access token available for endpoint '" ++ id ++
      "'; token exchange is not performed by this layer"
  | .badUrl id url error => "invalid request for '" ++ id ++ "': " ++ badUrlMessage url error
  | .refused id text => "invalid request for '" ++ id ++ "': " ++ text

/-- The status of a response that was no success. -/
def status? : Failure → Option Nat
  | .http status _ => some status
  | _ => none

/-- Whether another attempt may succeed although nothing else changed. -/
def isTransient : Failure → Bool
  | .timedOut .. => true
  | .transport .. => true
  | _ => false

/-- The failure of a call to the endpoint that got no response. -/
def ofTransport (id : String) : TransportError → Failure
  | .timeout ms => .timedOut id ms
  | .network text => .transport id text
  | .invalid text => .refused id text

end Failure

end Egress
