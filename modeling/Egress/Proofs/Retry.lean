import Egress.Proofs.Errand
import Egress.Service.Request
import Mathlib.Algebra.Group.Nat.Defs
import Mathlib.Data.Nat.Init

/-!
# The law of retries

An `Executor` makes the attempts of a request; what it does is open. Its attempts, each at the time the
delay after the one before it is over, are a sequence that does not ask whether one of them settles the
matter (`Executor.attempt`). `retrying` is the loop over an executor, and an errand is the loop over its
calls (`Errand.run_eq_retrying`).

* `judge_of_settles`, `judge_of_left`, `judge_of_spent`: what follows an attempt.
* `alone_of_finished`: the loop makes the attempts of the sequence in turn, up to one after which it ends.
* `attempts_until_settled`: it ends with the first attempt that settles the matter, and if there is none
  with the last one that the policy allows.
-/

set_option autoImplicit false

namespace Egress

open Schedule

/-- Makes the attempt with the number: what it leaves, how long it takes and what comes of it. -/
abbrev Executor (σ : Type) := (number now : Nat) → σ → σ × Nat × Answer

/-- An attempt that was made. -/
structure Attempt where
  number : Nat
  start : Nat
  stop : Nat
  result : Answer

/-- No further attempt follows the result: it is a success, a failure with a status that the policy does
not list, or one without a status that is neither a timeout nor a failure of the transport. Without a
policy every result is of this kind. -/
def Settles (policy : Option RetryPolicy) : Answer → Prop
  | .ok _ => True
  | .error failure => ∀ p, policy = some p →
      (∀ status, failure.status? = some status → status ∉ p.retryableStatuses) ∧
        (failure.status? = none →
          (∀ id ms, failure ≠ .timedOut id ms) ∧ ∀ id text, failure ≠ .transport id text)

/-- The number of attempts there may be. -/
def budget (policy : Option RetryPolicy) : Nat := policy.elim 1 (·.attempts)

/-- The delay after the failed attempt with the number. -/
def pause (policy : Option RetryPolicy) (number : Nat) : Nat := policy.elim 0 (·.delay number)

theorem budget_pos (policy : Option RetryPolicy) : 0 < budget policy := by
  cases policy with
  | none => exact Nat.one_pos
  | some p => exact Nat.le_max_left 1 p.maxAttempts

/-! ## What follows an attempt -/

section

variable {policy : Option RetryPolicy} {p : RetryPolicy} {id : String} {number : Nat}

theorem settles_error_iff {failure : Failure} :
    Settles (some p) (.error failure) ↔ p.isRetryable failure = false := by
  simp only [Settles, Option.some.injEq, forall_eq']
  cases failure <;> simp [RetryPolicy.isRetryable, Failure.status?, Failure.isTransient]

theorem judge_of_settles {result : Answer} (h : Settles policy result) :
    judge policy id number result = .finished result := by
  cases result with
  | ok envelope => rfl
  | error failure =>
    cases policy with
    | none => rfl
    | some p => simp [judge, settles_error_iff.1 h]

theorem exists_of_not_settles {result : Answer} (h : ¬Settles policy result) :
    ∃ p failure, policy = some p ∧ result = .error failure ∧ p.isRetryable failure = true := by
  cases result with
  | ok envelope => exact absurd trivial h
  | error failure =>
    cases policy with
    | none => exact absurd (fun _ hp => by cases hp) h
    | some p => exact ⟨p, failure, rfl, rfl, by simpa [settles_error_iff] using h⟩

theorem judge_of_left {result : Answer} (h : ¬Settles policy result) (hleft : number < budget policy) :
    judge policy id number result = .again (pause policy number) := by
  obtain ⟨p, failure, rfl, rfl, hretryable⟩ := exists_of_not_settles h
  have hle : ¬p.attempts ≤ number := Nat.not_le.2 hleft
  simp [judge, hretryable, hle, pause]

theorem judge_of_spent {result : Answer} (h : ¬Settles policy result) (hspent : number = budget policy) :
    ∃ failure, result = .error failure ∧
      judge policy id number result = .finished (.error (.exhausted id number failure)) := by
  obtain ⟨p, failure, rfl, rfl, hretryable⟩ := exists_of_not_settles h
  have hle : p.attempts ≤ number := Nat.le_of_eq hspent.symm
  exact ⟨failure, rfl, by simp [judge, hretryable, hle]⟩

end

/-! ## The attempts -/

namespace Executor

variable {σ : Type} (execute : Executor σ) (policy : Option RetryPolicy) (now : Nat) (state : σ)

/-- When attempt `i + 1` starts and on what, if no attempt before it settles the matter. -/
def point : Nat → Nat × σ
  | 0 => (now, state)
  | i + 1 =>
    let (start, before) := point i
    let (after, duration, _) := execute (i + 1) start before
    (start + duration + pause policy (i + 1), after)

/-- What attempt `i + 1` leaves. -/
def after (i : Nat) : σ :=
  (execute (i + 1) (execute.point policy now state i).1 (execute.point policy now state i).2).1

/-- Attempt `i + 1`, if no attempt before it settles the matter. -/
def attempt (i : Nat) : Attempt :=
  let (start, before) := execute.point policy now state i
  let (_, duration, result) := execute (i + 1) start before
  ⟨i + 1, start, start + duration, result⟩

/-- The executor that writes its attempts down, the latest last. -/
def noting : Executor (σ × List Attempt) := fun number now state =>
  let (after, duration, result) := execute number now state.1
  ((after, state.2 ++ [⟨number, now, now + duration, result⟩]), duration, result)

theorem point_noting (i : Nat) :
    execute.noting.point policy now (state, []) i =
      ((execute.point policy now state i).1, (execute.point policy now state i).2,
        (List.range i).map (execute.attempt policy now state)) := by
  induction i with
  | zero => rfl
  | succ i ih =>
    simp only [point, ih, noting, List.range_succ, List.map_append, List.map_singleton]
    rfl

theorem attempt_noting :
    execute.noting.attempt policy now (state, []) = execute.attempt policy now state := by
  funext i
  simp only [attempt, point_noting]
  rfl

theorem after_noting (i : Nat) :
    execute.noting.after policy now (state, []) i =
      (execute.after policy now state i, (List.range (i + 1)).map (execute.attempt policy now state)) := by
  simp only [after, point_noting, noting, List.range_succ, List.map_append, List.map_singleton]
  rfl

end Executor

/-! ## The loop -/

section

variable {σ : Type}

/-- The attempts that an executor makes of a request to the endpoint. -/
def retrying (policy : Option RetryPolicy) (id : String) (execute : Executor σ) :
    Workshop σ Errand.Stage Answer where
  act now state
    | .pausing number =>
      let (after, duration, result) := execute number now state
      (after, .wait duration (.calling number result))
    | .calling number result =>
      match judge policy id number result with
      | .finished answer => (state, .finish answer)
      | .again delay => (state, .wait delay (.pausing (number + 1)))
  pass _ _ state := state

/-- Runs the attempts from the first one on. -/
def attemptAll (policy : Option RetryPolicy) (id : String) (execute : Executor σ) (fuel now : Nat)
    (state : σ) : Option (Outcome σ Errand.Stage Answer) :=
  run (retrying policy id execute) fuel now state [.pending now (.pausing 1)]

theorem Errand.run_eq_retrying {ω : Type} (e : Errand) (transport : Transport ω) (tokens : Tokens)
    (fuel now : Nat) (wire : Wire ω) :
    e.run transport tokens fuel now wire =
      attemptAll e.policy e.endpoint.id (fun _ => e.call transport tokens) fuel now wire := by
  have hworkshop : e.workshop transport tokens =
      retrying e.policy e.endpoint.id (fun _ => e.call transport tokens) := by
    simp only [Errand.workshop, retrying, Workshop.mk.injEq, and_true]
    funext now wire stage
    cases stage with
    | pausing number => rfl
    | calling number result => rfl
  rw [Errand.run, attemptAll, hworkshop]

variable (policy : Option RetryPolicy) (id : String) (execute : Executor σ) (now : Nat) (state : σ)

theorem alone_of_finished {k : Nat} {answer : Answer} (hk : k < budget policy)
    (hbefore : ∀ i < k, ¬Settles policy (execute.attempt policy now state i).result)
    (hend : judge policy id (k + 1) (execute.attempt policy now state k).result = .finished answer)
    {i : Nat} (hi : i ≤ k) :
    Alone (retrying policy id execute) (execute.point policy now state i).1
      (execute.point policy now state i).2 (.pausing (i + 1)) (execute.attempt policy now state k).stop
      (execute.after policy now state k) answer := by
  have hcall : ∀ j, (retrying policy id execute).act (execute.point policy now state j).1
      (execute.point policy now state j).2 (.pausing (j + 1)) =
        (execute.after policy now state j, .wait
          (execute (j + 1) (execute.point policy now state j).1 (execute.point policy now state j).2).2.1
          (.calling (j + 1) (execute.attempt policy now state j).result)) := fun j => rfl
  -- downwards from the attempt that ends the loop
  induction hi using Nat.decreasingInduction with
  | self =>
    refine .wait (hcall k) (.finish ?_)
    simp only [retrying, hend]
  | of_succ i hi ih =>
    have hagain : judge policy id (i + 1) (execute.attempt policy now state i).result =
        .again (pause policy (i + 1)) := judge_of_left (hbefore i hi) (Nat.lt_of_le_of_lt hi hk)
    refine .wait (hcall i) (.wait ?_ ih)
    simp only [retrying, hagain]
    rfl

/-- The loop ends when attempt `k + 1` does, with the answer; the attempts made are those up to it. -/
def EndsWith (k : Nat) (answer : Answer) : Prop :=
  let stop := (execute.attempt policy now state k).stop
  let after := execute.after policy now state k
  let made := (List.range (k + 1)).map (execute.attempt policy now state)
  ∃ enough, ∀ fuel, enough ≤ fuel →
    attemptAll policy id execute fuel now state = some ⟨stop, after, [.done stop answer]⟩ ∧
      attemptAll policy id execute.noting fuel now (state, []) =
        some ⟨stop, (after, made), [.done stop answer]⟩

theorem exists_attemptAll_eq {k : Nat} {answer : Answer} (hk : k < budget policy)
    (hbefore : ∀ i < k, ¬Settles policy (execute.attempt policy now state i).result)
    (hend : judge policy id (k + 1) (execute.attempt policy now state k).result = .finished answer) :
    ∃ enough, ∀ fuel, enough ≤ fuel → attemptAll policy id execute fuel now state =
      some ⟨(execute.attempt policy now state k).stop, execute.after policy now state k,
        [.done (execute.attempt policy now state k).stop answer]⟩ :=
  (alone_of_finished policy id execute now state hk hbefore hend (Nat.zero_le k)).run_eq
    (Nat.le_refl now) rfl

theorem endsWith_of_finished {k : Nat} {answer : Answer} (hk : k < budget policy)
    (hbefore : ∀ i < k, ¬Settles policy (execute.attempt policy now state i).result)
    (hend : judge policy id (k + 1) (execute.attempt policy now state k).result = .finished answer) :
    EndsWith policy id execute now state k answer := by
  obtain ⟨enough, hrun⟩ := exists_attemptAll_eq policy id execute now state hk hbefore hend
  have hsame := execute.attempt_noting policy now state
  rw [← hsame] at hbefore hend
  obtain ⟨enough', hrun'⟩ :=
    exists_attemptAll_eq policy id execute.noting now (state, []) hk hbefore hend
  rw [hsame, Executor.after_noting] at hrun'
  exact ⟨max enough enough', fun fuel hfuel =>
    ⟨hrun fuel (Nat.le_trans (Nat.le_max_left ..) hfuel),
      hrun' fuel (Nat.le_trans (Nat.le_max_right ..) hfuel)⟩⟩

/-- How many attempts are made, when, and what comes of them. -/
structure RetryLaw : Prop where
  /-- The first attempt that settles the matter is the last one, and its result is the answer. -/
  settled : ∀ k < budget policy, Settles policy (execute.attempt policy now state k).result →
    (∀ i < k, ¬Settles policy (execute.attempt policy now state i).result) →
      EndsWith policy id execute now state k (execute.attempt policy now state k).result
  /-- If none does, all that the policy allows are made, and the answer names the last failure. -/
  exhausted : (∀ i < budget policy, ¬Settles policy (execute.attempt policy now state i).result) →
    ∃ last failure, budget policy = last + 1 ∧
      (execute.attempt policy now state last).result = .error failure ∧
      EndsWith policy id execute now state last (.error (.exhausted id (budget policy) failure))
  first : (execute.attempt policy now state 0).start = now
  next : ∀ i, (execute.attempt policy now state (i + 1)).start =
    (execute.attempt policy now state i).stop + pause policy (i + 1)
  /-- The attempts are counted from 1, and a count that starts with 32 bits never needs more. -/
  number : ∀ i, (execute.attempt policy now state i).number = i + 1
  number_lt : (∀ p, policy = some p → p.maxAttempts < 2 ^ 32) → ∀ i < budget policy,
    (execute.attempt policy now state i).number < 2 ^ 32

theorem retryLaw : RetryLaw policy id execute now state where
  settled k hk hsettles hbefore :=
    endsWith_of_finished policy id execute now state hk hbefore (judge_of_settles hsettles)
  exhausted hnone := by
    obtain ⟨last, hlast⟩ := Nat.exists_eq_succ_of_ne_zero (Nat.ne_of_gt (budget_pos policy))
    have hlt : last < budget policy := by omega
    obtain ⟨failure, hfailure, hjudge⟩ := @judge_of_spent policy id (last + 1) _ (hnone last hlt) hlast.symm
    refine ⟨last, failure, hlast, hfailure, ?_⟩
    rw [hlast]
    exact endsWith_of_finished policy id execute now state hlt
      (fun i hi => hnone i (Nat.lt_trans hi hlt)) hjudge
  first := rfl
  next _ := rfl
  number _ := rfl
  number_lt hmax i hi := by
    have hbudget : budget policy < 2 ^ 32 := by
      cases policy with
      | none => decide
      | some p => exact Nat.max_lt.2 ⟨by decide, hmax p rfl⟩
    exact Nat.lt_of_le_of_lt (Nat.succ_le_of_lt hi) hbudget

end

/-- Whatever an executor does, its attempts follow the law, and so do those of every errand. A request
goes by the policy of its endpoint, else by the one that its number of retries stands for, and else makes
one attempt and no more. -/
theorem attempts_until_settled :
    (∀ {σ : Type} (policy : Option RetryPolicy) (id : String) (execute : Executor σ) (now : Nat)
      (state : σ), RetryLaw policy id execute now state) ∧
    (∀ {ω : Type} (e : Errand) (transport : Transport ω) (tokens : Tokens) (fuel now : Nat)
      (wire : Wire ω), e.run transport tokens fuel now wire =
        attemptAll e.policy e.endpoint.id (fun _ => e.call transport tokens) fuel now wire) ∧
    ∀ job : Job,
      (∀ p, job.endpoint.retryPolicy = some p → job.errand.policy = some p) ∧
      (∀ retries, job.endpoint.retryPolicy = none → job.endpoint.retries = some retries → 0 < retries →
        job.errand.policy = some (.ofRetries retries)) ∧
      (job.endpoint.retryPolicy = none → (∀ retries, job.endpoint.retries = some retries → retries = 0) →
        budget job.errand.policy = 1 ∧ ∀ result, Settles job.errand.policy result) := by
  refine ⟨retryLaw, Errand.run_eq_retrying, fun job => ⟨fun p hp => ?_, fun retries hp hr hpos => ?_,
    fun hp hr => ?_⟩⟩
  · simp [Job.errand, Endpoint.effectiveRetryPolicy?, hp]
  · simp [Job.errand, Endpoint.effectiveRetryPolicy?, hp, hr, hpos]
  · have hnone : job.errand.policy = none := by
      unfold Job.errand Endpoint.effectiveRetryPolicy?
      cases hretries : job.endpoint.retries with
      | none => simp [hp]
      | some retries => simp [hp, hr retries hretries]
    rw [hnone]
    refine ⟨rfl, fun result => ?_⟩
    cases result with
    | ok envelope => trivial
    | error failure => exact fun p hp => by cases hp

/-- Two answers of a status that the policy lists and a third one of a status that it does not: with three
attempts allowed the third one is the answer, with two the second one exhausts the policy. -/
theorem attempts_until_settled_threeAnswers :
    let policy (attempts : Nat) : Option RetryPolicy := some ⟨attempts, .linear, 100, none, [503]⟩
    let busy : Answer := .error (.http 503 "busy")
    let gone : Answer := .error (.http 404 "gone")
    let execute : Executor Nat := fun number _ calls => (calls + 1, 10, if number < 3 then busy else gone)
    (∃ enough, ∀ fuel, enough ≤ fuel →
      attemptAll (policy 3) "a" execute.noting fuel 0 (0, []) =
        some ⟨330, (3, [⟨1, 0, 10, busy⟩, ⟨2, 110, 120, busy⟩, ⟨3, 320, 330, gone⟩]), [.done 330 gone]⟩) ∧
    ∃ enough, ∀ fuel, enough ≤ fuel →
      attemptAll (policy 2) "a" execute.noting fuel 0 (0, []) =
        some ⟨120, (2, [⟨1, 0, 10, busy⟩, ⟨2, 110, 120, busy⟩]),
          [.done 120 (.error (.exhausted "a" 2 (.http 503 "busy")))]⟩ := by
  intro policy busy gone execute
  have hbusy : ∀ attempts, ¬Settles (policy attempts) busy := by
    intro attempts h
    simpa [RetryPolicy.isRetryable, Failure.status?] using settles_error_iff.1 h
  have hgone : Settles (policy 3) gone := settles_error_iff.2 rfl
  constructor
  · obtain ⟨enough, hrun⟩ := (attempts_until_settled.1 (policy 3) "a" execute 0 0).settled 2 (by decide)
      hgone fun i hi => by
        rcases (by omega : i = 0 ∨ i = 1) with rfl | rfl
        · exact hbusy 3
        · exact hbusy 3
    exact ⟨enough, fun fuel hfuel => (hrun fuel hfuel).2⟩
  · obtain ⟨last, failure, hlast, hfailure, enough, hrun⟩ :=
      (attempts_until_settled.1 (policy 2) "a" execute 0 0).exhausted fun i hi => by
        have hi : i < 2 := hi
        rcases (by omega : i = 0 ∨ i = 1) with rfl | rfl
        · exact hbusy 2
        · exact hbusy 2
    have hsecond : last = 1 := by
      have : 2 = last + 1 := hlast
      omega
    subst hsecond
    cases hfailure
    exact ⟨enough, fun fuel hfuel => (hrun fuel hfuel).2⟩

end Egress
