import Egress.Cache.Basic
import Egress.Limiter.Basic

/-!
Periodic sweeps.

Each of the two sweeps runs once a period, for the first time one period after the start. Sweeps remove
only what has expired by its own time, so that catching up on several missed ones takes only the last.

Times are readings of the clock. Both first sweeps are dated at the start, and there may be no such time: a
period may be any number of seconds below `2 ^ 64`, whereas the clock ends at `2 ^ 63`. The task that sweeps
then ends before it has swept anything, for one period that is too long as for two.
-/

set_option autoImplicit false

namespace Egress

/-- How often to sweep, in seconds; zero counts as one. -/
structure SweepPeriods where
  cache : Nat
  limiter : Nat
  deriving DecidableEq, Inhabited

/-- The periods unless others are asked for. -/
def SweepPeriods.standard : SweepPeriods := ⟨300, 3600⟩

/-- Where the clock ends, in milliseconds: it counts seconds in 63 bits. -/
def clockEnd : Nat := 9223372036854775808000

/-- The times of both first sweeps are on the clock. -/
def SweepPeriods.FitAt (periods : SweepPeriods) (now : Nat) : Prop :=
  now + 1000 * max 1 periods.cache < clockEnd ∧ now + 1000 * max 1 periods.limiter < clockEnd

instance (periods : SweepPeriods) (now : Nat) : Decidable (periods.FitAt now) :=
  inferInstanceAs (Decidable (_ ∧ _))

/-- Sweeps at multiples of two periods, in milliseconds, after a start. No sweep has a period of zero. -/
structure Maintenance where
  cachePeriod : Nat
  limiterPeriod : Nat
  start : Nat
  deriving DecidableEq

namespace Maintenance

/-- A task that has ended and never sweeps. -/
def ended (now : Nat) : Maintenance := ⟨0, 0, now⟩

/-- The sweeps that start now. There are none of either kind if a period is too long for the clock. -/
def begin (periods : SweepPeriods) (now : Nat) : Maintenance :=
  if periods.FitAt now then ⟨1000 * max 1 periods.cache, 1000 * max 1 periods.limiter, now⟩ else ended now

/-- The time of the last sweep after `since` and up to `now`. -/
def lastTick? (start period since now : Nat) : Option Nat :=
  let tick := start + (now - start) / period * period
  if start < tick && since < tick then some tick else none

/-- The cache after the sweeps that fall after `since` and up to `now`. -/
def sweepCache {α : Type} (m : Maintenance) (since now : Nat) (cache : Cache α) : Cache α :=
  (lastTick? m.start m.cachePeriod since now).elim cache cache.sweep

/-- The limiter after the sweeps that fall after `since` and up to `now`. -/
def sweepLimiter (m : Maintenance) (since now : Nat) (limiter : Limiter) : Limiter :=
  (lastTick? m.start m.limiterPeriod since now).elim limiter limiter.sweep

end Maintenance

end Egress
