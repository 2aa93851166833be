import Egress.Call.Body
import Egress.Endpoint.Validate
import Egress.Json.Decode

/-!
Keys of kept responses.

By endpoint, all calls share one entry. By request, the key also tells query, headers and body of the
call, in a form that does not depend on the order in which they were given.
-/

set_option autoImplicit false

namespace Egress

/-- What responses are kept by. -/
inductive KeyStrategy
  | endpoint
  | request
  deriving DecidableEq, Inhabited

namespace KeyStrategy

def name : KeyStrategy → String
  | .endpoint => "endpoint_id"
  | .request => "request"

def variants : Json.Variants KeyStrategy := [("endpoint_id", .endpoint), ("request", .request)]

/-- Pairs of names and values as they stand in a key. -/
def pairsText (d : Dict String) : String :=
  "&".intercalate (d.entries.map fun e => e.1 ++ "=" ++ e.2)

/-- The body as it stands in a key. -/
def bodyText : Body → String
  | .text s => s
  | .json j => j.render

/-- The parts of a key that tell the options of a call. -/
def parts (options : CallOptions) : List String :=
  (if options.query.isEmpty then [] else ["q:" ++ pairsText options.query]) ++
    (if options.headers.isEmpty then []
      else ["h:" ++ pairsText (Dict.ofList (options.headers.entries.map fun h =>
        (Text.lower h.1, h.2)))]) ++
    (options.body.toList.map fun body => "b:" ++ bodyText body)

def fingerprint (options : CallOptions) : String := "|".intercalate (parts options)

/-- The key of a call to the endpoint `id`. -/
def key (strategy : KeyStrategy) (id : String) (options : CallOptions) : String :=
  match strategy with
  | .endpoint => id
  | .request =>
    let text := fingerprint options
    if text.isEmpty then id else id ++ String.singleton keySeparator ++ text

end KeyStrategy

end Egress
