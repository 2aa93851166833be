import Egress.Dict
import Egress.Metrics.Stats

/-!
Counters and histograms in the text format of Prometheus.

Series belong to labels and only ever grow, whatever happens to the statistics they were counted along
with. A series that was never counted has no lines.
-/

set_option autoImplicit false

namespace Egress

/-- What is counted under one label. -/
structure Series where
  successes : Nat
  failures : Nat
  /-- Requests that were not sent. -/
  others : Nat
  cacheHits : Nat
  limitHits : Nat
  /-- Samples up to each bound of `Series.bounds`. -/
  buckets : List Nat
  samples : Nat
  /-- Sum of the samples in seconds, added up in order. -/
  sum : Float

namespace Series

/-- The bounds of the duration buckets in nanoseconds, and as they are written in seconds. -/
def bounds : List (Nat × String) :=
  [(10000000, "0.01"), (50000000, "0.05"), (100000000, "0.1"), (250000000, "0.25"),
    (500000000, "0.5"), (1000000000, "1"), (2500000000, "2.5"), (5000000000, "5"),
    (10000000000, "10"), (30000000000, "30")]

/-- The series of a label that was never counted. -/
def zero : Series := ⟨0, 0, 0, 0, 0, bounds.map fun _ => 0, 0, 0.0⟩

def countSample (buckets : List Nat) (nanos : Nat) : List Nat :=
  List.zipWith (fun count bound => if nanos ≤ bound.1 then count + 1 else count) buckets bounds

def record (s : Series) (nanos : Nat) (hit : Bool) (result : Option RequestResult) : Series where
  successes := if result = some .success then s.successes + 1 else s.successes
  failures := if result = some .failure then s.failures + 1 else s.failures
  others := if result = none then s.others + 1 else s.others
  cacheHits := if hit then s.cacheHits + 1 else s.cacheHits
  limitHits := s.limitHits
  buckets := countSample s.buckets nanos
  samples := s.samples + 1
  sum := s.sum + Stats.inSeconds nanos

def recordLimitHit (s : Series) : Series := { s with limitHits := s.limitHits + 1 }

end Series

/-- The series by label. -/
structure Exposition where
  series : Dict Series

namespace Exposition

/-- The exposition before the first count. -/
def empty : Exposition := ⟨∅⟩

def modify (x : Exposition) (label : String) (f : Series → Series) : Exposition :=
  ⟨x.series.insert label (f ((x.series.get? label).getD Series.zero))⟩

def labelText (name value : String) : String := name ++ "=\"" ++ value ++ "\""

def seriesText (name : String) (labels : List (String × String)) : String :=
  name ++ "\x7b" ++ ",".intercalate (labels.map fun l => labelText l.1 l.2) ++ "\x7d"

/-- A line of a counter, unless it was never counted. -/
def counterLine (name : String) (labels : List (String × String)) (value : Nat) : List String :=
  if value = 0 then [] else [seriesText name labels ++ " " ++ toString value]

/-- The lines of a metric under the line that tells its type, if there are any. -/
def withType (name type : String) (lines : List String) : List String :=
  if lines.isEmpty then [] else ("# TYPE " ++ name ++ " " ++ type) :: lines

/-- The lines of one metric over all labels. -/
def metric (x : Exposition) (name type : String) (lines : String → Series → List String) :
    List String :=
  withType name type (x.series.entries.flatMap fun e => lines e.1 e.2)

/-- The lines of a duration histogram; `number` writes the sum. -/
def histogramLines (name : String) (number : Float → String) (label : String) (s : Series) :
    List String :=
  if s.samples = 0 then []
  else
    (List.zipWith (fun count bound => seriesText (name ++ "_bucket")
        [("endpoint", label), ("le", bound.2)] ++ " " ++ toString count) s.buckets Series.bounds) ++
      [seriesText (name ++ "_bucket") [("endpoint", label), ("le", "+Inf")] ++ " " ++
          toString s.samples,
        seriesText (name ++ "_sum") [("endpoint", label)] ++ " " ++ number s.sum,
        seriesText (name ++ "_count") [("endpoint", label)] ++ " " ++ toString s.samples]

/-- All lines; `number` writes the sums. -/
def lines (x : Exposition) (number : Float → String) : List String :=
  x.metric "conduit_cache_hits_total" "counter" (fun label s =>
      counterLine "conduit_cache_hits_total" [("endpoint", label)] s.cacheHits) ++
    x.metric "conduit_rate_limit_hits_total" "counter" (fun label s =>
      counterLine "conduit_rate_limit_hits_total" [("endpoint", label)] s.limitHits) ++
    x.metric "conduit_request_duration_seconds" "histogram"
      (histogramLines "conduit_request_duration_seconds" number) ++
    x.metric "conduit_requests_total" "counter" (fun label s =>
      counterLine "conduit_requests_total" [("endpoint", label), ("outcome", "success")]
          s.successes ++
        counterLine "conduit_requests_total" [("endpoint", label), ("outcome", "failure")]
          s.failures ++
        counterLine "conduit_requests_total" [("endpoint", label), ("outcome", "unknown")] s.others)

end Exposition

end Egress
