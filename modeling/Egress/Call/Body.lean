import Egress.Endpoint.Basic
import Egress.Json.Printer
import Egress.Text.Utf8

/-!
Bodies of calls.

The body of an endpoint and that of a call make one (`Body.merged`): two JSON objects are joined member
by member, in all other cases the call's body stands alone. On the wire a JSON string and a text of the
same characters are the same bytes (`Body.encode_string`).
-/

set_option autoImplicit false

namespace Egress.Body

/-- The members of both objects, those of `above` where both have the key. -/
def joinFields (base above : List (String × Json)) : List (String × Json) :=
  above.foldl (fun fields m => Fields.insert m.1 m.2 fields) base

/-- The body of a call over that of its endpoint. -/
def merged : Option Body → Option Body → Option Body
  | some (.json (.object base)), some (.json (.object above)) =>
    some (.json (.object (joinFields base above)))
  | base, call => call.or base

/-- The bytes on the wire. -/
def encode : Body → List UInt8
  | .text s => Text.Utf8.encode s
  | .json (.string s) => Text.Utf8.encode s
  | .json j => Text.Utf8.encode j.render

theorem encode_string (s : String) : encode (.json (.string s)) = encode (.text s) := rfl

end Egress.Body
