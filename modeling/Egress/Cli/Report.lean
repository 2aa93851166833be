import Egress.Cli.Command
import Egress.Endpoint.View
import Egress.Health
import Egress.Json.Printer
import Egress.Text.Table

/-!
What commands show: lists of endpoints and reports on their health.

Both come as tables, with a sentence in place of an empty one, or as JSON with one item a line.
-/

set_option autoImplicit false

namespace Egress.Cli

/-- What stands in place of an empty table. -/
def noEndpoints : String := "No endpoints configured."

def millisText (ms : Nat) : String := toString ms ++ "ms"

def endpointHeader : List String :=
  ["ID", "Method", "URL", "Auth", "Timeout", "Rate Limit", "Cache", "Attempts"]

def endpointCells (v : EndpointView) : List String :=
  [v.id, v.method, v.url, v.auth, millisText v.timeout, v.rateLimit.getD "-",
    v.cacheTtl.elim "-" millisText, toString v.maxAttempts]

/-- The summaries of endpoints, ascending by id; of one id in their order. -/
def views (endpoints : List Endpoint) : List EndpointView :=
  (endpoints.map Endpoint.view).mergeSort fun a b => !(b.id < a.id)

def listing (endpoints : List Endpoint) (asJson : Bool) : String :=
  let views := views endpoints
  if asJson then
    (Json.ofFields [("endpoints", .array (views.map EndpointView.toJson))]).pretty
  else if views.isEmpty then noEndpoints
  else (Text.Table.mk endpointHeader (views.map endpointCells)).render

def healthWord : Health → String
  | .healthy => "Healthy"
  | .degraded => "Degraded"
  | .unhealthy => "Unhealthy"

def healthHeader : List String := ["Endpoint", "Status", "Code", "Latency", "Error"]

def healthCells (r : HealthReport) : List String :=
  [r.id, healthWord r.health, r.status.elim "-" toString, millisText r.responseTime,
    r.error.getD ""]

def healthyCount (reports : List HealthReport) : Nat :=
  (reports.filter fun r => r.health = .healthy).length

/-- The reports as a record with their count. -/
def healthJson (reports : List HealthReport) : Json :=
  .ofFields [("endpoints", .array (reports.map HealthReport.toJson)),
    ("summary", .ofFields [("total", .nat reports.length),
      ("healthy", .nat (healthyCount reports))])]

/-- The reports as a table with their count below. -/
def healthTable (reports : List HealthReport) : String :=
  (Text.Table.mk healthHeader (reports.map healthCells)).render ++ "\n" ++
    toString (healthyCount reports) ++ "/" ++ toString reports.length ++ " endpoints healthy"

/-- The reports in the form asked for; `metrics` is the text of the metrics. -/
def HealthForm.present (form : HealthForm) (metrics : String) (reports : List HealthReport) : String :=
  match form with
  | .prometheus => metrics
  | .json => (healthJson reports).pretty
  | .table => if reports.isEmpty then noEndpoints else healthTable reports

end Egress.Cli
