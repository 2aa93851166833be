import Egress.Call.Basic

/-!
The way to the outside: a transport in some state, with a record of what was sent.
-/

set_option autoImplicit false

namespace Egress

/-- A call that was sent, with the time. -/
structure Sent where
  time : Nat
  call : Call

/-- The state of a transport and the calls sent through it, the latest first. -/
structure Wire (ω : Type) where
  state : ω
  sent : List Sent

namespace Wire

variable {ω : Type}

def send (w : Wire ω) (transport : Transport ω) (now : Nat) (call : Call) : Reply × Wire ω :=
  let (reply, state) := transport.send w.state now call
  (reply, ⟨state, ⟨now, call⟩ :: w.sent⟩)

/-- The calls in the order in which they were sent. -/
def log (w : Wire ω) : List Sent := w.sent.reverse

end Wire

end Egress
