import Egress.Failure

/-!
Rate limiting by fixed windows.

Each source has one window at a time. It opens with the first check after the previous one has elapsed,
and counts the calls admitted since. A caller over the limit is told when the window ends; where the limit
says so it waits and checks again (`Limiter.enter`).
-/

set_option autoImplicit false

namespace Egress

/-- The window of one source. Times are milliseconds. -/
structure Window where
  count : Nat
  start : Nat
  length : Nat
  deriving DecidableEq, Inhabited

def Window.elapsed (w : Window) (now : Nat) : Bool := w.length ≤ now - w.start

/-- The answer of one check. -/
inductive Admission
  | admitted
  /-- The window is used up and ends after `retryAfter` milliseconds. -/
  | limited (retryAfter : Nat)
  deriving DecidableEq

/-- The windows by source. -/
structure Limiter where
  windows : Dict Window
  deriving DecidableEq, Inhabited

namespace Limiter

/-- The limiter that has seen no call. -/
def empty : Limiter := ⟨∅⟩

/-- The window in force for a check at `now`: the one there is, with the length asked for, unless it has
elapsed. -/
def windowAt (l : Limiter) (now : Nat) (id : String) (length : Nat) : Window :=
  let window := { ((l.windows.get? id).getD ⟨0, now, length⟩) with length }
  if window.elapsed now then ⟨0, now, length⟩ else window

/-- Checks one call, and counts it if it is admitted. -/
def check (l : Limiter) (now : Nat) (id : String) (limit : RateLimit) : Admission × Limiter :=
  let window := l.windowAt now id limit.window
  if window.count < limit.requests then
    (.admitted, ⟨l.windows.insert id { window with count := window.count + 1 }⟩)
  else (.limited (limit.window - (now - window.start)), ⟨l.windows.insert id window⟩)

/-- What a caller does after a check. -/
inductive Entry
  | admitted
  | wait (delay : Nat)
  | refused (retryAfter : Nat)
  deriving DecidableEq

/-- Checks a caller that waits if the limit says so. Without a limit everyone is admitted. -/
def enter (l : Limiter) (now : Nat) (id : String) : Option RateLimit → Entry × Limiter
  | none => (.admitted, l)
  | some limit =>
    match l.check now id limit with
    | (.admitted, l) => (.admitted, l)
    | (.limited retryAfter, l) =>
      match limit.throttle? with
      | some delay => (.wait delay, l)
      | none => (.refused retryAfter, l)

/-- The calls counted in the window of a source. -/
def count? (l : Limiter) (id : String) : Option Nat := (l.windows.get? id).map (·.count)

def reset (l : Limiter) (id : String) : Limiter := ⟨l.windows.erase id⟩

/-- Forgets the windows that have elapsed. -/
def sweep (l : Limiter) (now : Nat) : Limiter := ⟨l.windows.filter fun _ w => !w.elapsed now⟩

def size (l : Limiter) : Nat := l.windows.size

end Limiter

end Egress
