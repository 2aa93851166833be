import Egress.Endpoint.Update
import Egress.Failure

/-!
The registry of endpoints.

Endpoints are listed by id. An operation that fails leaves the registry as it was.
-/

set_option autoImplicit false

namespace Egress

/-- The known endpoints by id. -/
structure Registry where
  endpoints : Dict Endpoint
  deriving Inhabited

namespace Registry

/-- The registry without endpoints. -/
def empty : Registry := ⟨∅⟩

def get? (r : Registry) (id : String) : Option Endpoint := r.endpoints.get? id

def contains (r : Registry) (id : String) : Bool := r.endpoints.contains id

/-- All endpoints, ascending by id. -/
def list (r : Registry) : List Endpoint := r.endpoints.values

/-- All ids, ascending. -/
def ids (r : Registry) : List String := r.endpoints.keys

def size (r : Registry) : Nat := r.endpoints.size

/-- Adds an endpoint that can be served and whose id is new. -/
def register (r : Registry) (e : Endpoint) : Except RegistryError Registry :=
  match e.flaw? with
  | some flaw => .error (.invalid e.id flaw)
  | none =>
    if r.contains e.id then .error (.duplicate e.id)
    else .ok ⟨r.endpoints.insert e.id e⟩

def unregister (r : Registry) (id : String) : Except RegistryError (Endpoint × Registry) :=
  match r.get? id with
  | none => .error (.notFound id)
  | some e => .ok (e, ⟨r.endpoints.erase id⟩)

/-- Sets fields of an endpoint, unless it could not be served then. -/
def update (r : Registry) (id : String) (u : EndpointUpdate) :
    Except RegistryError (Endpoint × Registry) :=
  match r.get? id with
  | none => .error (.notFound id)
  | some e =>
    let merged := e.apply u
    match merged.flaw? with
    | some flaw => .error (.invalid merged.id flaw)
    | none => .ok (merged, ⟨r.endpoints.insert id merged⟩)

end Registry

end Egress
