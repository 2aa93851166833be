import Egress.Call.Envelope

/-!
Retries.

After a failed attempt `RetryPolicy.delay` says how long to wait, and `judge` whether there is
another attempt at all: only for a failure worth one, and only up to the policy's number of attempts.
Delays are words of 64 bits and stay at the greatest one rather than wrap.
-/

set_option autoImplicit false

namespace Egress

namespace RetryPolicy

/-- The greatest delay in milliseconds. -/
def delayLimit : Nat := 18446744073709551615

/-- Two to the power of `times`, at most the greatest delay. -/
def doubling (times : Nat) : Nat := if times < 64 then Nat.pow 2 times else delayLimit

/-- `base` doubled `times` times, at most the greatest delay. -/
def doubled (base times : Nat) : Nat := min (base * doubling times) delayLimit

/-- The delay after failed attempt `n`, counted from 1, before the policy's own limit. -/
def growth (p : RetryPolicy) (n : Nat) : Nat :=
  match p.backoff with
  | .exponential => doubled p.baseDelay (n - 1)
  | .linear => min (p.baseDelay * max 1 n) delayLimit
  | .fixed => p.baseDelay

/-- The delay after failed attempt `n`, counted from 1. -/
def delay (p : RetryPolicy) (n : Nat) : Nat :=
  match p.maxDelay with
  | some limit => min (p.growth n) limit
  | none => p.growth n

/-- The number of attempts there may be; the first one is always made. -/
def attempts (p : RetryPolicy) : Nat := max 1 p.maxAttempts

def isRetryable (p : RetryPolicy) (failure : Failure) : Bool :=
  match failure.status? with
  | some status => p.retryableStatuses.contains status
  | none => failure.isTransient

end RetryPolicy

/-- What follows an attempt. -/
inductive Verdict
  | finished (result : Except Failure Envelope)
  | again (delay : Nat)

/-- What follows attempt `n`, counted from 1, of a request to the endpoint `id`. -/
def judge (policy : Option RetryPolicy) (id : String) (n : Nat) : Except Failure Envelope → Verdict
  | .ok envelope => .finished (.ok envelope)
  | .error failure =>
    match policy with
    | none => .finished (.error failure)
    | some p =>
      if !p.isRetryable failure then .finished (.error failure)
      else if p.attempts ≤ n then .finished (.error (.exhausted id n failure))
      else .again (p.delay n)

end Egress
