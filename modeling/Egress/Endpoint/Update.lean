import Egress.Endpoint.Basic

/-!
Updates of endpoints.

An update sets some fields of an endpoint and never its id. Two updates combine into one by
`EndpointUpdate.overlay`, in which the second one wins.
-/

set_option autoImplicit false

namespace Egress

/-- The fields to set; the others keep their value. -/
structure EndpointUpdate where
  name : Option String
  url : Option String
  method : Option Method
  headers : Option (Dict String)
  queryParams : Option (Dict String)
  body : Option Body
  timeout : Option Nat
  retries : Option Nat
  auth : Option Auth
  rateLimit : Option RateLimit
  cache : Option CachePolicy
  retryPolicy : Option RetryPolicy
  deriving Inhabited

namespace EndpointUpdate

/-- The update that sets nothing. -/
def empty : EndpointUpdate :=
  ⟨none, none, none, none, none, none, none, none, none, none, none, none⟩

/-- Sets what either update sets, as `second` has it where both do. -/
def overlay (first second : EndpointUpdate) : EndpointUpdate where
  name := second.name.or first.name
  url := second.url.or first.url
  method := second.method.or first.method
  headers := second.headers.or first.headers
  queryParams := second.queryParams.or first.queryParams
  body := second.body.or first.body
  timeout := second.timeout.or first.timeout
  retries := second.retries.or first.retries
  auth := second.auth.or first.auth
  rateLimit := second.rateLimit.or first.rateLimit
  cache := second.cache.or first.cache
  retryPolicy := second.retryPolicy.or first.retryPolicy

end EndpointUpdate

/-- The endpoint with the fields that the update sets. -/
def Endpoint.apply (e : Endpoint) (u : EndpointUpdate) : Endpoint where
  id := e.id
  name := u.name.getD e.name
  url := u.url.getD e.url
  method := u.method.getD e.method
  headers := u.headers.getD e.headers
  queryParams := u.queryParams.getD e.queryParams
  body := u.body.or e.body
  timeout := u.timeout.getD e.timeout
  retries := u.retries.or e.retries
  auth := u.auth.getD e.auth
  rateLimit := u.rateLimit.or e.rateLimit
  cache := u.cache.or e.cache
  retryPolicy := u.retryPolicy.or e.retryPolicy

@[simp] theorem Endpoint.id_apply (e : Endpoint) (u : EndpointUpdate) : (e.apply u).id = e.id := rfl

end Egress
