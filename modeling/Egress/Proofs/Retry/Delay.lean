import Egress.Proofs.Registry
import Egress.Retry
import Mathlib.Algebra.Group.Nat.Defs

/-!
# How long the pauses are

Delays are words of 64 bits: a power of two stays at the greatest word, and so does its product with the base
delay.

* `doubled_eq`: staying there twice comes to the exact product, bounded once.
* `growth_mono`, `delay_mono`: a later pause is not shorter.
* `le_delay`: no pause is shorter than the base delay, unless the policy's own limit is.
* `delay_eq_bounded` puts them together, and says it of the policies that endpoints can be served with.
-/

set_option autoImplicit false

namespace Egress

theorem RetryPolicy.flaw?_eq_none_iff {p : RetryPolicy} :
    p.flaw? = none ↔ 0 < p.maxAttempts ∧ ∀ limit, p.maxDelay = some limit → p.baseDelay ≤ limit := by
  unfold flaw?
  by_cases hattempts : p.maxAttempts = 0
  · simp [hattempts]
  · cases p.maxDelay <;> simp [hattempts, Nat.pos_iff_ne_zero]

namespace RetryPolicy

variable {p : RetryPolicy} {m n : Nat}

/-! ## Words of 64 bits -/

theorem doubling_eq (times : Nat) : doubling times = min (2 ^ times) delayLimit := by
  unfold doubling
  split
  · next hsmall =>
    have hle : 2 ^ times ≤ 2 ^ 63 := Nat.pow_le_pow_right (by decide) (by omega)
    have hlimit : 2 ^ 63 ≤ delayLimit := by decide
    exact (Nat.min_eq_left (Nat.le_trans hle hlimit)).symm
  · next hlarge =>
    have hle : 2 ^ 64 ≤ 2 ^ times := Nat.pow_le_pow_right (by decide) (by omega)
    have hlimit : delayLimit ≤ 2 ^ 64 := by decide
    exact (Nat.min_eq_right (Nat.le_trans hlimit hle)).symm

/-- A power that stays at the greatest word changes nothing: with any base but zero its product stays there
too, and with zero there is nothing to grow. -/
theorem doubled_eq (base times : Nat) : doubled base times = min (base * 2 ^ times) delayLimit := by
  rw [doubled, doubling_eq]
  rcases Nat.eq_zero_or_pos base with rfl | hpos
  · simp
  · have hover : delayLimit ≤ base * delayLimit := Nat.le_mul_of_pos_left _ hpos
    rw [← Nat.mul_min_mul_left, Nat.min_assoc, Nat.min_eq_right hover]

/-! ## Growth -/

theorem growth_mono (p : RetryPolicy) (h : m ≤ n) : p.growth m ≤ p.growth n := by
  unfold growth
  cases p.backoff with
  | exponential =>
    simp only [doubled_eq]
    have hpow : 2 ^ (m - 1) ≤ 2 ^ (n - 1) := Nat.pow_le_pow_right (by decide) (by omega)
    have hmul := Nat.mul_le_mul_left p.baseDelay hpow
    omega
  | linear =>
    have hmul : p.baseDelay * max 1 m ≤ p.baseDelay * max 1 n := Nat.mul_le_mul_left _ (by omega)
    simp only
    omega
  | fixed => exact Nat.le_refl _

theorem le_growth (hword : p.baseDelay ≤ delayLimit) (n : Nat) : p.baseDelay ≤ p.growth n := by
  unfold growth
  cases p.backoff with
  | exponential =>
    rw [doubled_eq]
    have hmul : p.baseDelay ≤ p.baseDelay * 2 ^ (n - 1) := Nat.le_mul_of_pos_right _ (Nat.two_pow_pos _)
    exact Nat.le_min.2 ⟨hmul, hword⟩
  | linear =>
    have hmul : p.baseDelay ≤ p.baseDelay * max 1 n := Nat.le_mul_of_pos_right _ (by omega)
    exact Nat.le_min.2 ⟨hmul, hword⟩
  | fixed => exact Nat.le_refl _

/-! ## The policy's own limit -/

theorem delay_eq (p : RetryPolicy) (n : Nat) :
    p.delay n = p.maxDelay.elim (p.growth n) (min (p.growth n)) := by
  unfold delay
  cases p.maxDelay <;> rfl

theorem delay_mono (p : RetryPolicy) (h : m ≤ n) : p.delay m ≤ p.delay n := by
  have hgrowth := p.growth_mono h
  rw [delay_eq, delay_eq]
  cases p.maxDelay with
  | none => exact hgrowth
  | some limit =>
    simp only [Option.elim_some]
    omega

theorem delay_le {limit : Nat} (h : p.maxDelay = some limit) (n : Nat) : p.delay n ≤ limit := by
  rw [delay_eq, h]
  exact Nat.min_le_right _ _

theorem le_delay (hword : p.baseDelay ≤ delayLimit)
    (hlimit : ∀ limit, p.maxDelay = some limit → p.baseDelay ≤ limit) (n : Nat) :
    p.baseDelay ≤ p.delay n := by
  have hgrowth := le_growth hword n
  rw [delay_eq]
  cases hmax : p.maxDelay with
  | none => exact hgrowth
  | some limit => exact Nat.le_min.2 ⟨hgrowth, hlimit limit hmax⟩

/-- The policy in force for an endpoint that can be served has no limit below its base delay. -/
theorem limit_of_valid {e : Endpoint} (hvalid : e.Valid) (hp : e.effectiveRetryPolicy? = some p)
    {limit : Nat} (hlimit : p.maxDelay = some limit) : p.baseDelay ≤ limit := by
  unfold Endpoint.effectiveRetryPolicy? at hp
  cases hpolicy : e.retryPolicy with
  | some policy =>
    simp only [hpolicy, Option.some.injEq] at hp
    subst hp
    obtain ⟨-, -, -, -, -, -, hpolicies⟩ := Endpoint.valid_iff.1 hvalid
    exact (flaw?_eq_none_iff.1 (hpolicies policy hpolicy)).2 limit hlimit
  | none =>
    -- a policy that a number of attempts stands for has no limit
    cases hretries : e.retries with
    | none => simp [hpolicy, hretries] at hp
    | some retries =>
      simp only [hpolicy, hretries] at hp
      split at hp
      · cases hp
        cases hlimit
      · cases hp

/-- A pause is as long as the exact formula says, bounded by the greatest word where it grows, and by the
policy's own limit. Hence pauses never get shorter, none is longer than the limit, and none is shorter than the
base delay if the policy is one to be served with. -/
theorem delay_eq_bounded (p : RetryPolicy) :
    (∀ n, p.delay n =
      let grown := match p.backoff with
        | .exponential => min (p.baseDelay * 2 ^ (max 1 n - 1)) (2 ^ 64 - 1)
        | .linear => min (p.baseDelay * max 1 n) (2 ^ 64 - 1)
        | .fixed => p.baseDelay
      p.maxDelay.elim grown (min grown)) ∧
    (∀ m n, m ≤ n → p.delay m ≤ p.delay n) ∧
    (∀ limit, p.maxDelay = some limit → ∀ n, p.delay n ≤ limit) ∧
    (p.baseDelay < 2 ^ 64 →
      (p.flaw? = none ∨ ∃ e : Endpoint, e.Valid ∧ e.effectiveRetryPolicy? = some p) →
        ∀ n, p.baseDelay ≤ p.delay n) := by
  refine ⟨fun n => ?_, fun m n => p.delay_mono, fun limit => delay_le, fun hword hserved => ?_⟩
  · have hlimit : delayLimit = 2 ^ 64 - 1 := by decide
    have hexponent : max 1 n - 1 = n - 1 := by omega
    rw [delay_eq, growth, hexponent, ← hlimit]
    cases p.backoff with
    | exponential => rw [doubled_eq]
    | linear => rfl
    | fixed => rfl
  · have hlimit : ∀ limit, p.maxDelay = some limit → p.baseDelay ≤ limit := by
      rcases hserved with hflaw | ⟨e, hvalid, hp⟩
      · exact (flaw?_eq_none_iff.1 hflaw).2
      · intro limit
        exact limit_of_valid hvalid hp
    exact le_delay (Nat.le_of_lt_succ hword) hlimit

/-- The last possible attempt of an endpoint that doubles 3 ms and waits no longer than a second. -/
theorem delay_eq_bounded_lastAttempt :
    let p : RetryPolicy := ⟨4294967295, .exponential, 3, some 1000, [503]⟩
    let e := { Endpoint.plain "a" "A" "http://h/" with retryPolicy := some p }
    e.Valid ∧ e.effectiveRetryPolicy? = some p ∧ p.delay 3 = 12 ∧ p.delay 3 ≤ p.delay 4294967295 ∧
      p.delay 4294967295 ≤ 1000 ∧ 3 ≤ p.delay 4294967295 := by
  intro p e
  have hvalid : e.flaw? = none := by decide +kernel
  obtain ⟨hexact, hmono, hlimit, hbase⟩ := delay_eq_bounded p
  exact ⟨hvalid, rfl, hexact 3, hmono 3 _ (by decide), hlimit 1000 rfl _,
    hbase (by decide) (.inr ⟨e, hvalid, rfl⟩) _⟩

end RetryPolicy

end Egress
