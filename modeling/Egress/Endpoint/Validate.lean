import Egress.Endpoint.Basic
import Egress.Text.Blank
import Egress.Url.Reader

/-!
Which endpoints can be served.

`Endpoint.flaw?` names the first field that is in the way. The id must not hold the character that
separates it from the rest of a cache key.
-/

set_option autoImplicit false

namespace Egress

/-- What stands between the id and the rest of a cache key. -/
def keySeparator : Char := '#'

/-- Why an endpoint cannot be served. -/
inductive Flaw
  | blankId
  | separatorInId
  | blankName
  | badUrl (url : String) (error : UrlError)
  | noTimeout
  | noRequests
  | noWindow
  | noThrottleDelay
  | noAttempts
  | delaysReversed
  deriving DecidableEq

/-- The field at fault. -/
def Flaw.field : Flaw → String
  | .blankId => "id"
  | .separatorInId => "id"
  | .blankName => "name"
  | .badUrl .. => "url"
  | .noTimeout => "timeout"
  | .noRequests => "rateLimit.requests"
  | .noWindow => "rateLimit.window"
  | .noThrottleDelay => "rateLimit.throttleDelay"
  | .noAttempts => "retryPolicy.maxAttempts"
  | .delaysReversed => "retryPolicy.maxDelay"

/-- The wording of a URL that cannot be read. -/
def badUrlMessage (url : String) (error : UrlError) : String :=
  "invalid URL '" ++ url ++ "': " ++ error.message

def Flaw.message : Flaw → String
  | .blankId => "cannot be empty"
  | .separatorInId => "must not contain '" ++ String.singleton keySeparator ++ "'"
  | .blankName => "cannot be empty"
  | .badUrl url error => badUrlMessage url error
  | .noTimeout => "must be non-zero"
  | .noRequests => "must allow at least one request per window"
  | .noWindow => "must be non-zero"
  | .noThrottleDelay => "must be non-zero"
  | .noAttempts => "must be at least 1"
  | .delaysReversed => "must not be smaller than baseDelay"

def RateLimit.flaw? (r : RateLimit) : Option Flaw :=
  if r.requests = 0 then some .noRequests
  else if r.window = 0 then some .noWindow
  else if r.throttleDelay = some 0 then some .noThrottleDelay
  else none

def RetryPolicy.flaw? (p : RetryPolicy) : Option Flaw :=
  if p.maxAttempts = 0 then some .noAttempts
  else if p.maxDelay.any (· < p.baseDelay) then some .delaysReversed
  else none

namespace Endpoint

def urlFlaw? (e : Endpoint) : Option Flaw :=
  match Url.parse e.url with
  | .ok _ => none
  | .error error => some (.badUrl e.url error)

/-- The first flaw of an endpoint, in the order of its fields. -/
def flaw? (e : Endpoint) : Option Flaw :=
  if Text.isBlankText e.id then some .blankId
  else if e.id.toList.contains keySeparator then some .separatorInId
  else if Text.isBlankText e.name then some .blankName
  else
    e.urlFlaw?.or <|
      (if e.timeout = 0 then some .noTimeout else none).or <|
        (e.rateLimit.bind RateLimit.flaw?).or (e.retryPolicy.bind RetryPolicy.flaw?)

/-- An endpoint that can be served. This includes a URL that `Url.parse` reads: one at a domain name in another
script has to be given with the encoded form of the name. -/
def Valid (e : Endpoint) : Prop := e.flaw? = none

instance (e : Endpoint) : Decidable e.Valid := inferInstanceAs (Decidable (e.flaw? = none))

end Endpoint

end Egress
