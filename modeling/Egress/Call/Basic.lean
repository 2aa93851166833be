import Egress.Call.Body
import Egress.Call.Headers
import Egress.Call.Target

/-!
Calls: what is sent, and what comes back.

`Call.prepare` makes the call of an endpoint and the options of one request; it fails before anything is
sent. A transport answers each call by a `Reply`, which says how long it takes.
-/

set_option autoImplicit false

namespace Egress

/-- One call as it is sent. -/
structure Call where
  method : Method
  url : Url
  headers : Dict String
  body : Option (List UInt8)
  /-- Milliseconds it may take. -/
  timeout : Nat
  deriving Inhabited

/-- What a server sends back. -/
structure Response where
  status : Nat
  statusText : String
  /-- In the order received, with repetitions. -/
  headers : List (String × String)
  body : List UInt8
  deriving Inhabited

/-- The answer to a call: after `delay` milliseconds a response or an error. -/
structure Reply where
  delay : Nat
  outcome : Except TransportError Response

/-- Answers calls, each of them at the time it is sent; `ω` is what the answers depend on. -/
structure Transport (ω : Type) where
  send : ω → Nat → Call → Reply × ω

/-- The body of a call, if its method carries one. -/
def Endpoint.callBody (e : Endpoint) (options : CallOptions) : Option Body :=
  (Body.merged e.body options.body).filter fun _ => e.method.allowsBody

def Call.prepare (tokens : Tokens) (e : Endpoint) (options : CallOptions) : Except Failure Call := do
  let url ← e.target options
  let headers ← e.auth.apply tokens e.id (e.mergedHeaders options)
  return { method := e.method, url, headers, body := (e.callBody options).map Body.encode,
           timeout := options.timeout.getD e.timeout }

end Egress
