import Egress.Failure
import Egress.Text.Base64

/-!
The headers of a call.

Names are in lower case. The authentication scheme has the last word on the one header it sets, before
it the call, then the endpoint, and without any of them the content type is JSON.
-/

set_option autoImplicit false

namespace Egress

/-- The content type of a call that names none. -/
def defaultContentType : String := "application/json"

/-- Sets the headers under their names in lower case. -/
def withHeaders (headers given : Dict String) : Dict String :=
  headers.insertMany (given.entries.map fun h => (Text.lower h.1, h.2))

def Endpoint.mergedHeaders (e : Endpoint) (options : CallOptions) : Dict String :=
  withHeaders (withHeaders (Dict.empty.insert "content-type" defaultContentType) e.headers)
    options.headers

/-- The access tokens by endpoint, if there is a source of tokens. -/
abbrev Tokens := Option (Dict String)

def Tokens.get? (tokens : Tokens) (id : String) : Option String :=
  Option.bind tokens fun known => known.get? id

/-- User name and password in the form of basic authentication. -/
def basicCredentials (username password : String) : String :=
  String.ofList (Text.Base64.encode (Text.Utf8.encode (username ++ ":" ++ password)))

/-- The header that proves who sends a call to the endpoint `id`. -/
def Auth.header? (tokens : Tokens) (id : String) : Auth → Except Failure (Option (String × String))
  | .none => .ok Option.none
  | .bearer token =>
    .ok ((token.filter (!·.isEmpty)).map fun token => ("authorization", "Bearer " ++ token))
  | .apiKey key header => .ok (some (Text.lower header, key))
  | .basic username password =>
    .ok (some ("authorization", "Basic " ++ basicCredentials username password))
  | .oauth2 .. =>
    match tokens.get? id with
    | some token => .ok (some ("authorization", "Bearer " ++ token))
    | Option.none => .error (.noToken id)

/-- The headers with the one of the authentication scheme. -/
def Auth.apply (tokens : Tokens) (id : String) (auth : Auth) (headers : Dict String) :
    Except Failure (Dict String) :=
  match auth.header? tokens id with
  | .error failure => .error failure
  | .ok Option.none => .ok headers
  | .ok (some (name, value)) => .ok (headers.insert name value)

end Egress
