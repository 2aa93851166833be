import Egress.Call.Basic
import Egress.Endpoint.Encode
import Egress.Json.Reader

/-!
Envelopes: decoded responses of successful calls.

The content type that a response declares first decides how its body is read: as JSON, as text or as
bytes. A body that is no JSON although declared so is text.
-/

set_option autoImplicit false

namespace Egress

/-- A decoded body. -/
inductive Payload
  | json (j : Json)
  | text (s : String)
  | binary (bytes : List UInt8)
  deriving Inhabited

/-- What a successful request yields. -/
structure Envelope where
  data : Payload
  status : Nat
  statusText : String
  headers : Dict String
  /-- Where the call went. -/
  url : String
  /-- Whether it was kept from an earlier request. -/
  cached : Bool
  deriving Inhabited

/-- The body as a record of its kind and value. -/
def Payload.toJson : Payload → Json
  | .json j => .ofFields [("kind", .string "json"), ("value", j)]
  | .text s => .ofFields [("kind", .string "text"), ("value", .string s)]
  | .binary bytes =>
    .ofFields [("kind", .string "binary"), ("value", .array (bytes.map fun b => .nat b.toNat))]

/-- The envelope as a record. -/
def Envelope.toJson (e : Envelope) : Json :=
  .ofFields [("data", e.data.toJson), ("status", .nat e.status),
    ("statusText", .string e.statusText), ("headers", .ofTexts e.headers), ("url", .string e.url),
    ("cached", .bool e.cached)]

/-- The envelope as it is served from the cache. -/
def Envelope.asCached (e : Envelope) : Envelope := { e with cached := true }

def isSuccessStatus (status : Nat) : Bool := 200 ≤ status && status < 300

namespace Response

/-- The first value of a header; the case of the name makes no difference. -/
def header? (r : Response) (name : String) : Option String :=
  (r.headers.find? fun h => Text.sameIgnoringCase h.1 name).map (·.2)

/-- Adds a value to those already collected under its name. -/
def addHeader (collected : Dict String) (h : String × String) : Dict String :=
  let name := Text.lower h.1
  collected.insert name ((collected.get? name).elim h.2 (· ++ ", " ++ h.2))

/-- The headers by name in lower case; the values of one name are separated by commas. -/
def collectHeaders (headers : List (String × String)) : Dict String :=
  headers.foldl addHeader Dict.empty

/-- The kinds of content. -/
inductive ContentKind
  | json
  | text
  | binary
  deriving DecidableEq

/-- The kind of content that a content type declares. -/
def ContentKind.ofType (contentType : String) : ContentKind :=
  let type := (Text.lower contentType).toList
  if Text.contains type "application/json".toList || Text.contains type "+json".toList then .json
  else if "text/".toList.isPrefixOf type then .text
  else .binary

def contentKind (r : Response) : ContentKind := .ofType ((r.header? "content-type").getD "")

/-- The body in the form that its kind of content asks for. -/
def payload (r : Response) : Payload :=
  match r.contentKind with
  | .json =>
    if r.body.isEmpty then .json .null
    else
      match Json.readBytes? r.body with
      | some j => .json j
      | none => .text (Text.Utf8.decodeLossy r.body)
  | .text => .text (Text.Utf8.decodeLossy r.body)
  | .binary => .binary r.body

/-- The envelope of a successful response to a call. -/
def envelope (r : Response) (call : Call) : Envelope where
  data := r.payload
  status := r.status
  statusText := r.statusText
  headers := collectHeaders r.headers
  url := call.url.render
  cached := false

end Response

/-- The result of a call to the endpoint `id` that was answered in time. -/
def Call.classify (call : Call) (id : String) : Except TransportError Response →
    Except Failure Envelope
  | .error error => .error (.ofTransport id error)
  | .ok response =>
    if isSuccessStatus response.status then .ok (response.envelope call)
    else .error (.http response.status response.statusText)

/-- How long a call to the endpoint `id` takes and what comes of it: an answer counts if it is there
when the time is up, not later. -/
def Call.settle (call : Call) (id : String) (reply : Reply) : Nat × Except Failure Envelope :=
  if reply.delay ≤ call.timeout then (reply.delay, call.classify id reply.outcome)
  else (call.timeout, .error (.timedOut id call.timeout))

end Egress
