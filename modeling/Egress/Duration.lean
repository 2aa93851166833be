/-!
Durations, counted in nanoseconds.
-/

set_option autoImplicit false

namespace Egress

/-- The nanoseconds of a second. -/
def nanosPerSecond : Nat := 1000000000

/-- The nanoseconds of a millisecond. -/
def nanosPerMilli : Nat := 1000000

end Egress
