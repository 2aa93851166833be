import Egress.Limiter.Basic
import Egress.Schedule

/-!
Callers of one limiter side by side.

Each caller checks, and while it is over the limit waits and checks again; of several that check at the
same time the first one goes first.
-/

set_option autoImplicit false

namespace Egress.Limiter

/-- A turn of a caller: it is admitted, refused with the time to wait, or checks again later. -/
def turn (id : String) (limit : Option RateLimit) (now : Nat) (l : Limiter) :
    Limiter × Turn Unit (Except Nat Unit) :=
  match l.enter now id limit with
  | (.admitted, l) => (l, .finish (.ok ()))
  | (.wait delay, l) => (l, .wait delay ())
  | (.refused retryAfter, l) => (l, .finish (.error retryAfter))

/-- Callers of a source under one limit. -/
def workshop (id : String) (limit : Option RateLimit) : Workshop Limiter Unit (Except Nat Unit) where
  act now l _ := turn id limit now l
  pass _ _ l := l

/-- Lets `n` callers of a source start together; each answer comes with its time. `none` if `fuel` turns
are not enough. -/
def enterAll (l : Limiter) (fuel now : Nat) (id : String) (limit : Option RateLimit) (n : Nat) :
    Option (Schedule.Outcome Limiter Unit (Except Nat Unit)) :=
  Schedule.run (workshop id limit) fuel now l (List.replicate n (.pending now ()))

end Egress.Limiter
