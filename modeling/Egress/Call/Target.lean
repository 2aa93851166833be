import Egress.Failure
import Egress.Url.Reader

/-!
The URL that a call goes to.

Without parameters of the endpoint or of the call it is the endpoint's URL. Otherwise its query holds
each name once, in ascending order: the value of the call, else that of the endpoint, else the last one
in the endpoint's URL. An endpoint's URL has a domain name in ASCII (`Url.parseHost`), or there is none to call.
-/

set_option autoImplicit false

namespace Egress.Endpoint

/-- The parameters of a call to `url`. -/
def parameters (e : Endpoint) (options : CallOptions) (url : Url) : Dict String :=
  ((Dict.ofList url.queryPairs).overlay e.queryParams).overlay options.query

def target (e : Endpoint) (options : CallOptions) : Except Failure Url :=
  match Url.parse e.url with
  | .error error => .error (.badUrl e.id e.url error)
  | .ok url =>
    if e.queryParams.isEmpty && options.query.isEmpty then .ok url
    else .ok (url.withQueryPairs (e.parameters options url).entries)

end Egress.Endpoint
