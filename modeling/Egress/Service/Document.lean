import Egress.Endpoint.Decode
import Egress.Endpoint.Encode
import Egress.Service.Basic

/-!
Taking the endpoints of a service elsewhere.

A document lists endpoints. Importing one replaces everything the service knows; nothing is touched
unless the document can be read and every endpoint in it could be served. An id that is listed twice
stops the import where it occurs again, with the endpoints before it in place.
-/

set_option autoImplicit false

namespace Egress

/-- A list of endpoints, with the time of the export. -/
structure Document where
  endpoints : List Endpoint
  exportedAt : Option Timestamp
  deriving Inhabited

namespace Document

def decode : Json.Decoder Document :=
  Json.readRecord "struct ConfigurationDocument"
    [.needed "endpoints" (Json.decodeList Endpoint.decode) fun v r => { r with endpoints := v },
      .optional "exportedAt" (Json.decodeOption Json.decodeTimestamp) fun v r =>
        { r with exportedAt := v }]
    ⟨[], none⟩

/-- The document as a record. -/
def toJson (d : Document) : Json :=
  .ofFields (("endpoints", .array (d.endpoints.map Endpoint.toJson)) ::
    Json.optionalField "exportedAt" (fun t => .string t.format) d.exportedAt)

def render (d : Document) : String := d.toJson.pretty

def read (text : String) : Except Json.TextError Document := Json.decodeText decode text

end Document

namespace Service

/-- The document of all endpoints. -/
def document (s : Service) : Document := ⟨s.registry.list, none⟩

/-- The first endpoint that cannot be served, as an error. -/
def firstFlaw? : List Endpoint → Option RegistryError
  | [] => none
  | e :: rest =>
    match e.flaw? with
    | some flaw => some (.invalid e.id flaw)
    | none => firstFlaw? rest

/-- Registers the endpoints up to the first one that is refused. -/
def registerAll (s : Service) : List Endpoint → Option RegistryError × Service
  | [] => (none, s)
  | e :: rest =>
    match s.register e with
    | .error error => (some error, s)
    | .ok s => registerAll s rest

/-- The service without endpoints and without anything kept about calls. -/
def cleared (s : Service) : Service :=
  { s with registry := .empty, cache := .empty, limiter := .empty, metrics := s.metrics.clear }

/-- Replaces the endpoints by those of a document; how many there are, and the service after it. -/
def importText (s : Service) (text : String) : Except ImportError Nat × Service :=
  match Document.read text with
  | .error error => (.error (.undecodable error), s)
  | .ok document =>
    match firstFlaw? document.endpoints with
    | some error => (.error (.refused error), s)
    | none =>
      match s.cleared.registerAll document.endpoints with
      | (some error, s) => (.error (.refused error), s)
      | (none, s) =>
        let count := document.endpoints.length
        (.ok count, s.publish (.imported count))

end Service

end Egress
