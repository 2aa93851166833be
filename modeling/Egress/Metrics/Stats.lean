import Egress.Double
import Egress.Duration

/-!
Running statistics of one endpoint.

The rates and the average are kept up to date record by record, so that no history is needed. The
arithmetic is that of any type with the four operations: the service uses doubles.
-/

set_option autoImplicit false

namespace Egress

instance Double.natCast : NatCast Float := ⟨Float.ofNat⟩

/-- How a recorded request ended, where it was sent at all. -/
inductive RequestResult
  | success
  | failure
  deriving DecidableEq

/-- Statistics of one endpoint. Times are milliseconds, rates of failures per cent, rates of cache hits
parts of one. -/
structure Stats (α : Type) where
  total : Nat
  successes : Nat
  failures : Nat
  limitHits : Nat
  averageTime : α
  errorRate : α
  hitRate : α

namespace Stats

variable {α : Type} [NatCast α]

/-- The statistics before the first request. -/
def zero : Stats α := ⟨0, 0, 0, 0, ((0 : Nat) : α), ((0 : Nat) : α), ((0 : Nat) : α)⟩

variable [Add α] [Sub α] [Mul α] [Div α]

/-- A duration in nanoseconds as a number of seconds. -/
def inSeconds (nanos : Nat) : α :=
  ((nanos / nanosPerSecond : Nat) : α) +
    ((nanos % nanosPerSecond : Nat) : α) / ((nanosPerSecond : Nat) : α)

/-- A duration in nanoseconds as a number of milliseconds. -/
def inMilliseconds (nanos : Nat) : α := inSeconds nanos * ((1000 : Nat) : α)

/-- The average of `n` values, the last of which is `value`, from that of the ones before. -/
def nextAverage (average value : α) (n : Nat) : α :=
  (average * ((n : α) - ((1 : Nat) : α)) + value) / (n : α)

/-- The rate of hits after one more hit. -/
def nextHitRate (rate : α) (total : Nat) : α := rate + (((1 : Nat) : α) - rate) / (total : α)

/-- Records one request that took `nanos` nanoseconds. -/
def record (s : Stats α) (nanos : Nat) (hit : Bool) (result : Option RequestResult) : Stats α :=
  let total := s.total + 1
  let successes := if result = some .success then s.successes + 1 else s.successes
  let failures := if result = some .failure then s.failures + 1 else s.failures
  { total, successes, failures, limitHits := s.limitHits
    averageTime :=
      if result = some .success then nextAverage s.averageTime (inMilliseconds nanos) successes
      else s.averageTime
    errorRate := (failures : α) / (total : α) * ((100 : Nat) : α)
    hitRate := if hit then nextHitRate s.hitRate total else s.hitRate }

/-- Records that a request was over the limit. -/
def recordLimitHit (s : Stats α) : Stats α := { s with limitHits := s.limitHits + 1 }

end Stats

end Egress
