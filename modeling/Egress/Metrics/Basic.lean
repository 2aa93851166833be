import Egress.Metrics.Exposition
import Egress.Metrics.Label

/-!
Statistics of all endpoints.

Each endpoint has statistics of its own, which end with it. Whatever is recorded is also counted for
exposition under the endpoint's label, and stays counted.
-/

set_option autoImplicit false

namespace Egress

/-- Statistics by endpoint, with the labels made for them and what was counted for exposition. -/
structure Metrics where
  stats : Dict (Stats Float)
  labels : LabelMemo
  exposition : Exposition

namespace Metrics

/-- The statistics before any record. -/
def empty : Metrics := ⟨∅, .empty, .empty⟩

instance : Inhabited Metrics := ⟨empty⟩

def modifyStats (m : Metrics) (id : String) (f : Stats Float → Stats Float) : Dict (Stats Float) :=
  m.stats.insert id (f ((m.stats.get? id).getD Stats.zero))

def label (m : Metrics) (text : String) : String × Metrics :=
  let (label, labels) := m.labels.sanitize text
  (label, { m with labels })

/-- Changes what is counted for an endpoint. -/
def count (m : Metrics) (id : String) (f : Series → Series) : Metrics :=
  let (label, m) := m.label id
  { m with exposition := m.exposition.modify label f }

/-- Records one request that took `nanos` nanoseconds. -/
def record (m : Metrics) (id : String) (nanos : Nat) (hit : Bool) (result : Option RequestResult) :
    Metrics :=
  ({ m with stats := m.modifyStats id (·.record nanos hit result) } : Metrics).count id
    (·.record nanos hit result)

def recordLimitHit (m : Metrics) (id : String) : Metrics :=
  ({ m with stats := m.modifyStats id (·.recordLimitHit) } : Metrics).count id (·.recordLimitHit)

def reset (m : Metrics) (id : String) : Metrics := { m with stats := m.stats.insert id Stats.zero }

def remove (m : Metrics) (id : String) : Metrics := { m with stats := m.stats.erase id }

/-- Ends all statistics. -/
def clear (m : Metrics) : Metrics := { m with stats := ∅ }

def get? (m : Metrics) (id : String) : Option (Stats Float) := m.stats.get? id

end Metrics

end Egress
