import Egress.Proofs.Service.Batches
import Mathlib.Data.Prod.Lex

/-!
# Requests side by side come to an end

Whatever else is in flight, and whatever the transport replies, requests that are made together are all
answered. With each turn of one of them either somebody gets on, from arriving to the limiter or from there
to the attempts, or nobody falls behind and less is left to the one whose turn it is: of the window in
which it waits, which the waiting of others does not prolong, or of its attempts.

* `World.Turns.nearer` says so of a turn, and `World.rank` is what is left, so that it falls with each turn.
* `Session.exists_requests`: requests come to one answer for each, with turns enough.
-/

set_option autoImplicit false

namespace Egress

/-! ## What is left of tasks side by side -/

namespace Schedule

variable {τ ρ : Type}

/-- What is left of a task, by a measure of those that wait. -/
def left (measure : Nat → τ → Nat) : Course τ ρ → Nat
  | .pending wake task => measure wake task
  | .done .. => 0

/-- What is left of all of them. -/
def load (measure : Nat → τ → Nat) (courses : List (Course τ ρ)) : Nat :=
  (courses.map (left measure)).sum

variable {measure measure' : Nat → τ → Nat}

theorem load_mono (h : ∀ wake task, measure' wake task ≤ measure wake task) (courses : List (Course τ ρ)) :
    load measure' courses ≤ load measure courses := by
  refine List.sum_le_sum fun course _ => ?_
  cases course with
  | pending wake task => exact h wake task
  | done time result => exact Nat.le_refl 0

/-- Where nobody falls behind, less is left of all if less is left of one. -/
theorem load_lt (h : ∀ wake task, measure' wake task ≤ measure wake task) {course course' : Course τ ρ}
    (hlt : left measure' course' < left measure course) (before after : List (Course τ ρ)) :
    load measure' (before ++ course' :: after) < load measure (before ++ course :: after) := by
  have hbefore := load_mono h before
  have hafter := load_mono h after
  unfold load at hbefore hafter ⊢
  simp only [List.map_append, List.map_cons, List.sum_append, List.sum_cons]
  omega

theorem load_congr {course course' : Course τ ρ} (heq : left measure course' = left measure course)
    (before after : List (Course τ ρ)) :
    load measure (before ++ course' :: after) = load measure (before ++ course :: after) := by
  simp only [load, List.map_append, List.map_cons, heq]

end Schedule

/-! ## What is left of a request -/

/-- When the window closes in which a job has to wait, by the length that its endpoint asks for. -/
def Service.closing (s : Service) (job : Job) : Nat :=
  (s.limiter.windows.get? job.endpoint.id).elim 0 fun w =>
    w.start + job.endpoint.rateLimit.elim 0 (·.window)

namespace Request

/-- How many doors a request has yet to go through: to its endpoint, and past the limiter. -/
def doors : Request → Nat
  | .arriving .. => 2
  | .queueing _ => 1
  | .working .. => 0

/-- What is left of the wait of a request for the limiter, or of its attempts. -/
def remaining (s : Service) (wake : Nat) : Request → Nat
  | .arriving .. => 0
  | .queueing job => s.closing job - wake
  | .working job (.pausing n) => 2 * (job.errand.policy.elim 0 RetryPolicy.attempts - n) + 2
  | .working job (.calling n _) => 2 * (job.errand.policy.elim 0 RetryPolicy.attempts - n) + 1

theorem remaining_mono {s s' : Service} (h : ∀ job, s'.closing job ≤ s.closing job) (wake : Nat)
    (request : Request) : request.remaining s' wake ≤ request.remaining s wake := by
  match request with
  | .arriving .. => exact Nat.le_refl 0
  | .queueing job => exact Nat.sub_le_sub_right (h job) wake
  | .working job (.pausing n) => exact Nat.le_refl _
  | .working job (.calling n result) => exact Nat.le_refl _

end Request

namespace Limiter

/-- The window in which a caller waits has been there before the check. -/
theorem start_of_wait {l after : Limiter} {id : String} {limit : RateLimit} {t delay : Nat}
    (h : l.enter t id (some limit) = (.wait delay, after)) :
    ∃ w w', l.windows.get? id = some w ∧ after.windows.get? id = some w' ∧ w'.start = w.start ∧
      t < w.start + limit.window := by
  obtain ⟨-, -, hrequests, w', rfl, hafter, hlength, hfull, hlt⟩ := waits_in_window h
  cases hopens : l.opens t id limit.window with
  | true =>
    -- a new window has room
    rw [windowAt_of_opens hopens] at hfull
    exact absurd hrequests (Nat.not_lt.2 hfull)
  | false =>
    obtain ⟨w, hw, hwindow⟩ := windowAt_of_not_opens hopens
    refine ⟨w, _, hw, hafter, by rw [hwindow], ?_⟩
    rw [hlength] at hlt
    simpa only [hwindow] using hlt

end Limiter

namespace Service

/-- Sweeps open no window. -/
theorem closing_pass_le (s : Service) (since now : Nat) (job : Job) :
    (s.pass since now).closing job ≤ s.closing job := by
  unfold pass
  cases s.maintenance with
  | none => exact Nat.le_refl _
  | some m =>
    simp only [closing, Maintenance.sweepLimiter]
    cases Maintenance.lastTick? m.start m.limiterPeriod since now with
    | none => exact Nat.le_refl _
    | some tick =>
      simp only [Option.elim_some, Limiter.sweep, Dict.get?_filter]
      cases s.limiter.windows.get? job.endpoint.id with
      | none => exact Nat.le_refl _
      | some w =>
        rw [Option.filter_some]
        split
        · exact Nat.le_refl _
        · exact Nat.zero_le _

/-- A caller that waits prolongs no window. -/
theorem closing_of_wait {s : Service} {now delay : Nat} {id : String} {limit : Option RateLimit}
    {limiter : Limiter} (h : s.limiter.enter now id limit = (.wait delay, limiter)) (job : Job) :
    ({ s with limiter } : Service).closing job = s.closing job := by
  cases limit with
  | none => cases h
  | some limit =>
    unfold closing
    by_cases hid : id = job.endpoint.id
    · subst hid
      obtain ⟨w, w', hw, hw', hstart, -⟩ := Limiter.start_of_wait h
      simp only [hw, hw', Option.elim_some, hstart]
    · have hsame := s.limiter.get?_enter_of_ne now hid (some limit)
      rw [h] at hsame
      simp only [hsame]

end Service

namespace World

variable {ω : Type} {transport : Transport ω}

/-- With a turn a request goes through a door, or nobody is kept longer by the limiter and less is left of
the request itself. -/
theorem Turns.nearer {now wake : Nat} {w w' : World ω} {request : Request} {turn : Turn Request Answer}
    (h : Turns transport now w request w' turn) (hwake : wake ≤ now) :
    Schedule.left (fun _ => Request.doors) (turn.course now) < request.doors ∨
      Schedule.left (fun _ => Request.doors) (turn.course now) = request.doors ∧
        (∀ job, w'.service.closing job ≤ w.service.closing job) ∧
        Schedule.left (Request.remaining w'.service) (turn.course now) <
          request.remaining w.service wake := by
  induction h with
  | unknown hid => exact .inl (Nat.zero_lt_two)
  | found hid _ ih =>
    obtain hlt | ⟨heq, -⟩ := ih
    · exact .inl (Nat.lt_succ_of_lt hlt)
    · exact .inl (heq ▸ Nat.lt_succ_self 1)
  | @wait job delay limiter henter =>
    have hclosing := Service.closing_of_wait (s := w.service) henter
    refine .inr ⟨rfl, fun other => Nat.le_of_eq (hclosing other), ?_⟩
    show Service.closing _ job - (now + delay) < w.service.closing job - wake
    rw [hclosing]
    cases hlimit : job.endpoint.rateLimit with
    | none =>
      rw [hlimit] at henter
      cases henter
    | some limit =>
      rw [hlimit] at henter
      obtain ⟨-, hdelay, -⟩ := Limiter.waits_in_window henter
      obtain ⟨window, -, hwindow, -, -, hopen⟩ := Limiter.start_of_wait henter
      simp only [Service.closing, hwindow, hlimit, Option.elim_some]
      omega
  | refuse henter => exact .inl Nat.one_pos
  | hit henter hlookup => exact .inl Nat.one_pos
  | miss henter hlookup hcall => exact .inl Nat.one_pos
  | call hcall => exact .inr ⟨rfl, fun _ => Nat.le_refl _, Nat.lt_succ_self _⟩
  | @again job n delay result hjudge =>
    refine .inr ⟨rfl, fun _ => Nat.le_refl _, ?_⟩
    obtain ⟨p, hpolicy, hn⟩ := judge_again hjudge
    simp only [Turn.course, Schedule.left, Request.remaining, hpolicy, Option.elim_some]
    omega
  | @answer job n result answer hjudge =>
    refine .inr ⟨rfl, fun other => Nat.le_of_eq ?_, Nat.succ_pos _⟩
    cases answer <;> rfl

/-- What is left of requests side by side: the doors, and then the waits and the attempts. -/
def rank (w : World ω) (courses : List (Course Request Answer)) : Nat ×ₗ Nat :=
  toLex (Schedule.load (fun _ => Request.doors) courses,
    Schedule.load (Request.remaining w.service) courses)

/-- Less is left with each turn. -/
theorem rank_lt (transport : Transport ω) (now : Nat) (w : World ω)
    (before : List (Course Request Answer)) (wake : Nat) (request : Request)
    (after : List (Course Request Answer)) :
    let time := max now wake
    let next := act transport time ((workshop transport).pass now time w) request
    rank next.1 (before ++ next.2.course time :: after) <
      rank w (before ++ .pending wake request :: after) := by
  intro time next
  have hpassed := w.service.closing_pass_le now time
  have hturns := act_turns transport time ((workshop transport).pass now time w) request
  obtain hdoor | ⟨hdoors, hclosing, hless⟩ := hturns.nearer (Nat.le_max_right now wake)
  · exact Prod.Lex.toLex_lt_toLex.2 (.inl (Schedule.load_lt (fun _ _ => Nat.le_refl _) hdoor before after))
  · refine Prod.Lex.toLex_lt_toLex.2 (.inr ⟨Schedule.load_congr hdoors before after, ?_⟩)
    have hall : ∀ job, next.1.service.closing job ≤ w.service.closing job := fun job =>
      Nat.le_trans (hclosing job) (hpassed job)
    refine Schedule.load_lt (Request.remaining_mono hall) ?_ before after
    exact Nat.lt_of_lt_of_le hless (Request.remaining_mono hpassed wake request)

end World

namespace Session

variable {ω : Type}

/-- Requests side by side come to one answer for each, with turns enough. -/
theorem exists_requests (s : Session ω) (transport : Transport ω) (calls : List (String × CallOptions)) :
    ∃ enough answers after, answers.length = calls.length ∧
      ∀ fuel, enough ≤ fuel → s.requests transport fuel calls = some (answers, after) := by
  obtain ⟨enough, outcome, hrun⟩ := Schedule.exists_run_eq wellFounded_lt (World.workshop transport)
    World.rank (World.rank_lt transport) s.now s.world
    (calls.map fun call => .pending s.now (.arriving call.1 call.2))
  refine ⟨enough, Schedule.results outcome.courses, ⟨outcome.now, outcome.shared⟩, ?_, fun fuel hfuel => ?_⟩
  · rw [Schedule.length_results _ (hrun enough (Nat.le_refl enough)), List.length_map]
  · rw [requests, hrun fuel hfuel]
    rfl

/-- More turns than enough change nothing. -/
theorem requests_mono {s : Session ω} {transport : Transport ω} {fuel more : Nat}
    {calls : List (String × CallOptions)} {r : List (Nat × Answer) × Session ω}
    (h : s.requests transport fuel calls = some r) (hle : fuel ≤ more) :
    s.requests transport more calls = some r := by
  obtain ⟨outcome, hrun, rfl⟩ := Option.map_eq_some_iff.1 h
  rw [requests, Schedule.run_mono _ hrun hle]
  rfl

end Session

end Egress
