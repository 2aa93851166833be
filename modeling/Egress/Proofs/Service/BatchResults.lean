import Egress.Proofs.Limiter.Refusal
import Egress.Proofs.Service.Accounts
import Egress.Proofs.Service.Completion
import Egress.Proofs.Service.Ownership

/-!
# What a batch tells of its items

* `BatchResult.Tells`: the result of a batch against the outcomes of its items, in their order. Whatever the
  outcomes are, the result tells of them (`tells_ofAnswers`).
* `Session.Entering`: where the requests of a batch to one endpoint stand that lets nobody wait. Those that
  have started passed the limiter as long as there was room, and the others have yet to start. Each turn
  keeps to it (`Entering.turn`): the requests start one after the other at the same time, whatever those
  before them do in the meantime.
* `Session.batch_tells` puts both together.
-/

set_option autoImplicit false

namespace Egress

/-! ## The result and the outcomes -/

namespace BatchResult

/-- The response that an outcome brings for an id. -/
def brought? (id : String) : String × Answer → Option Envelope
  | (id', .ok envelope) => if id' = id then some envelope else none
  | (_, .error _) => none

/-- The failure of an outcome, with the id of its item. -/
def failure? : String × Answer → Option (String × Failure)
  | (_, .ok _) => none
  | (id, .error failure) => some (id, failure)

/-- The result tells what came of each item, and nothing else. -/
structure Tells (r : BatchResult) (outcomes : List (String × Answer)) : Prop where
  attempted : r.attempted = outcomes.length
  sum : r.succeeded + r.failed = r.attempted
  failed : r.failed = r.failures.length
  failures : r.failures = outcomes.filterMap failure?
  /-- Of several successful items with one id the last one counts. -/
  last : ∀ id, r.responses.get? id = (outcomes.filterMap (brought? id)).getLast?
  keys : ∀ id, id ∈ r.responses.keys ↔ ∃ envelope, (id, .ok envelope) ∈ outcomes
  both : ∀ id, (id ∈ r.responses.keys ∧ id ∈ r.failures.map (·.1)) ↔
    (∃ envelope, (id, .ok envelope) ∈ outcomes) ∧ ∃ failure, (id, .error failure) ∈ outcomes

theorem ofAnswers_concat (outcomes : List (String × Answer)) (outcome : String × Answer) :
    ofAnswers (outcomes ++ [outcome]) = (ofAnswers outcomes).add outcome.1 outcome.2 := by
  simp [ofAnswers, List.foldl_append]

theorem brought?_eq_some_iff {id : String} {outcome : String × Answer} {envelope : Envelope} :
    brought? id outcome = some envelope ↔ outcome = (id, .ok envelope) := by
  obtain ⟨id', failure | envelope'⟩ := outcome
  · simp [brought?]
  · by_cases hid : id' = id <;> simp [brought?, hid]

theorem failure?_eq_some_iff {outcome : String × Answer} {failed : String × Failure} :
    failure? outcome = some failed ↔ outcome = (failed.1, .error failed.2) := by
  obtain ⟨id, failure | envelope⟩ := outcome
  · obtain ⟨id', failure'⟩ := failed
    simp [failure?]
  · simp [failure?]

section

variable (outcomes : List (String × Answer))

theorem attempted_ofAnswers : (ofAnswers outcomes).attempted = outcomes.length := by
  induction outcomes using List.reverseRecOn with
  | nil => rfl
  | append_singleton outcomes outcome ih =>
    obtain ⟨id, failure | envelope⟩ := outcome <;> simp [ofAnswers_concat, add, ih]

theorem failures_ofAnswers : (ofAnswers outcomes).failures = outcomes.filterMap failure? := by
  induction outcomes using List.reverseRecOn with
  | nil => rfl
  | append_singleton outcomes outcome ih =>
    obtain ⟨id, failure | envelope⟩ := outcome <;> simp [ofAnswers_concat, add, ih, failure?]

theorem counts_ofAnswers :
    (ofAnswers outcomes).failed = (ofAnswers outcomes).failures.length ∧
      (ofAnswers outcomes).succeeded + (ofAnswers outcomes).failed = (ofAnswers outcomes).attempted := by
  induction outcomes using List.reverseRecOn with
  | nil => exact ⟨rfl, rfl⟩
  | append_singleton outcomes outcome ih =>
    obtain ⟨hfailed, hsum⟩ := ih
    rw [ofAnswers_concat]
    obtain ⟨id, failure | envelope⟩ := outcome
    · exact ⟨by simp [add, hfailed], by simp only [add]; omega⟩
    · exact ⟨hfailed, by simp only [add]; omega⟩

theorem get?_ofAnswers (id : String) :
    (ofAnswers outcomes).responses.get? id = (outcomes.filterMap (brought? id)).getLast? := by
  induction outcomes using List.reverseRecOn with
  | nil => rfl
  | append_singleton outcomes outcome ih =>
    rw [ofAnswers_concat, List.filterMap_append]
    obtain ⟨id', failure | envelope⟩ := outcome
    · simpa [add, brought?] using ih
    · by_cases hid : id' = id
      · simp [add, brought?, hid, Dict.get?_insert_self]
      · simpa [add, brought?, hid, Dict.get?_insert_of_ne] using ih

theorem mem_keys_ofAnswers (id : String) :
    id ∈ (ofAnswers outcomes).responses.keys ↔ ∃ envelope, (id, .ok envelope) ∈ outcomes := by
  have hkey : id ∈ (ofAnswers outcomes).responses.keys ↔ (ofAnswers outcomes).responses.get? id ≠ none :=
    Fields.get?_ne_none_iff.symm
  rw [hkey, get?_ofAnswers, ne_eq, List.getLast?_eq_none_iff, List.filterMap_eq_nil_iff, not_forall]
  constructor
  · rintro ⟨outcome, h⟩
    obtain ⟨hmem, hsome⟩ := Classical.not_imp.1 h
    obtain ⟨envelope, henvelope⟩ := Option.ne_none_iff_exists'.1 hsome
    exact ⟨envelope, brought?_eq_some_iff.1 henvelope ▸ hmem⟩
  · rintro ⟨envelope, hmem⟩
    refine ⟨(id, .ok envelope), fun h => ?_⟩
    rw [brought?_eq_some_iff.2 rfl] at h
    cases h hmem

/-- The result of a batch tells of its items. -/
theorem tells_ofAnswers : (ofAnswers outcomes).Tells outcomes where
  attempted := attempted_ofAnswers outcomes
  sum := (counts_ofAnswers outcomes).2
  failed := (counts_ofAnswers outcomes).1
  failures := failures_ofAnswers outcomes
  last := get?_ofAnswers outcomes
  keys := mem_keys_ofAnswers outcomes
  both id := by
    refine and_congr (mem_keys_ofAnswers outcomes id) ?_
    rw [failures_ofAnswers, List.mem_map]
    constructor
    · rintro ⟨⟨id', failure⟩, hmem, rfl⟩
      obtain ⟨outcome, houtcome, hfailure⟩ := List.mem_filterMap.1 hmem
      exact ⟨failure, failure?_eq_some_iff.1 hfailure ▸ houtcome⟩
    · rintro ⟨failure, hmem⟩
      exact ⟨(id, failure), List.mem_filterMap.2 ⟨_, hmem, rfl⟩, rfl⟩

end

end BatchResult

/-! ## Room in the window -/

namespace Limiter

/-- The callers that the window in force still has room for. -/
def room (l : Limiter) (now : Nat) (id : String) (limit : RateLimit) : Nat :=
  limit.requests - (l.windowAt now id limit.window).count

/-- At the time of a check its window stays in force, with one more call if there was room. -/
theorem windowAt_check_self (l : Limiter) (t : Nat) (id : String) {limit : RateLimit}
    (hwindow : 0 < limit.window) :
    (l.check t id limit).2.windowAt t id limit.window =
      let w := l.windowAt t id limit.window
      { w with count := if w.count < limit.requests then w.count + 1 else w.count } := by
  have hstill := l.elapsed_windowAt t id hwindow
  rw [(windowAt_check rfl).2 t, Window.renewed_of_not_elapsed]
  exact hstill

end Limiter

/-! ## One request after the other -/

/-- The request has passed the limiter: it waits for an attempt, or is answered and was not turned away. -/
inductive PastLimiter : Course Request Answer → Prop
  | working {wake : Nat} {job : Job} {stage : Errand.Stage} (h : stage.OfCall) :
      PastLimiter (.pending wake (.working job stage))
  | done {time : Nat} {answer : Answer} (h : OfCall answer) : PastLimiter (.done time answer)

namespace World

variable {ω : Type} {transport : Transport ω} {now : Nat} {w w' : World ω} {turn : Turn Request Answer}

/-- Past the limiter a request leaves it as it is. -/
theorem Turns.past_limiter {wake : Nat} {request : Request} (h : Turns transport now w request w' turn)
    (hpast : PastLimiter (.pending wake request)) :
    PastLimiter (turn.course now) ∧ w'.service.limiter = w.service.limiter := by
  cases hpast with
  | @working _ job stage hstage =>
    cases h with
    | @call _ n wire duration result hcall =>
      have hresult := job.errand.ofCall_call transport w.service.tokens now w.wire
      rw [hcall] at hresult
      exact ⟨.working hresult, rfl⟩
    | again hjudge => exact ⟨.working trivial, rfl⟩
    | @answer _ n result answer hjudge =>
      exact ⟨.done (ofCall_of_judge hjudge hstage), by cases answer <;> rfl⟩

/-- The first turn of a request to an endpoint that lets nobody wait: it passes the limiter, or is refused for
as long as the window lasts. -/
theorem Turns.first_of_impatient {e : Endpoint} {options : CallOptions} {limit : RateLimit}
    (h : Turns transport now w (.arriving e.id options) w' turn)
    (he : w.service.registry.get? e.id = some e) (hlimit : e.rateLimit = some limit)
    (hthrottle : limit.throttle? = none) :
    w'.service.limiter = (w.service.limiter.check now e.id limit).2 ∧
      let window := w.service.limiter.windowAt now e.id limit.window
      if window.count < limit.requests then PastLimiter (turn.course now)
      else turn = .finish (.error (.rateLimited e.id (limit.window - (now - window.start)))) := by
  cases h with
  | unknown hid =>
    rw [he] at hid
    cases hid
  | @found _ _ e' _ _ hid hturn =>
    rw [he] at hid
    cases hid
    by_cases hroom : (w.service.limiter.windowAt now e.id limit.window).count < limit.requests
    · have hadmitted : w.service.limiter.enter now e.id e.rateLimit =
          (.admitted, (w.service.limiter.check now e.id limit).2) := by
        rw [hlimit, Limiter.enter_some, Limiter.check_admitted_iff.2 hroom]
        rfl
      dsimp only
      rw [if_pos hroom]
      cases hturn with
      | wait henter => cases hadmitted.symm.trans henter
      | refuse henter => cases hadmitted.symm.trans henter
      | @hit _ limiter envelope s henter hlookup =>
        cases hadmitted.symm.trans henter
        have hlooked := Service.lookup_snd
          { w.service with limiter := (w.service.limiter.check now e.id limit).2 } now ⟨e, options, now⟩
        rw [hlookup] at hlooked
        exact ⟨congrArg Service.limiter hlooked, .done fun _ herror => by cases herror⟩
      | @miss _ limiter s wire duration result henter hlookup hcall =>
        cases hadmitted.symm.trans henter
        have hlooked := Service.lookup_snd
          { w.service with limiter := (w.service.limiter.check now e.id limit).2 } now ⟨e, options, now⟩
        rw [hlookup] at hlooked
        have hresult := Errand.ofCall_call (Job.errand ⟨e, options, now⟩) transport s.tokens now w.wire
        rw [hcall] at hresult
        exact ⟨congrArg Service.limiter hlooked, .working hresult⟩
    · have hlimited := Limiter.check_eq_limited_iff.2 ⟨Nat.le_of_not_lt hroom, rfl⟩
      have hrefused := hlimit ▸ Limiter.enter_of_limited hlimited hthrottle
      dsimp only
      rw [if_neg hroom]
      cases hturn with
      | wait henter => cases hrefused.symm.trans henter
      | refuse henter =>
        cases hrefused.symm.trans henter
        exact ⟨rfl, rfl⟩
      | hit henter hlookup => cases hrefused.symm.trans henter
      | miss henter hlookup hcall => cases hrefused.symm.trans henter

end World

/-! ## Requests that start together -/

namespace Schedule

variable {τ ρ : Type}

/-- Where something stands in two lists one after the other. -/
theorem cons_split {α : Type} {before after first second : List α} {x : α}
    (h : before ++ x :: after = first ++ second) :
    (∃ rest, first = before ++ x :: rest ∧ after = rest ++ second) ∨
      ∃ skipped, before = first ++ skipped ∧ second = skipped ++ x :: after := by
  obtain ⟨skipped, hfirst, hsecond⟩ | ⟨skipped, hbefore, hsecond⟩ := List.append_eq_append_iff.1 h
  · cases skipped with
    | nil => exact .inr ⟨[], by simpa using hfirst.symm, by simpa using hsecond.symm⟩
    | cons y rest =>
      obtain ⟨rfl, hafter⟩ := List.cons.inj hsecond
      exact .inl ⟨rest, hfirst, hafter⟩
  · exact .inr ⟨skipped, hbefore, hsecond⟩

/-- Of some tasks that are under way, some that are done, and some that wait to start, the first one to wake
is under way, or it is the first of those that wait to start. -/
theorem first_split {α : Type} {wake start : Nat} {task : τ} {before after passed : List (Course τ ρ)}
    {ended : List (Nat × ρ)} {waiting : List α} {make : α → τ} (hbefore : NotBefore (wake + 1) before)
    (h : before ++ .pending wake task :: after =
      passed ++ (ended.map (fun result => .done result.1 result.2) ++
        waiting.map fun a => .pending start (make a))) :
    (∃ rest, passed = before ++ .pending wake task :: rest ∧
        after = rest ++ (ended.map (fun result => .done result.1 result.2) ++
          waiting.map fun a => .pending start (make a))) ∨
      ∃ a others, waiting = a :: others ∧ wake = start ∧ task = make a ∧
        before = passed ++ ended.map (fun result => .done result.1 result.2) ∧
        after = others.map fun a => .pending start (make a) := by
  obtain hpassed | ⟨skipped, rfl, hrest⟩ := cons_split h
  · exact .inl hpassed
  · obtain ⟨rest, hended, -⟩ | ⟨late, rfl, hwaiting⟩ := cons_split hrest.symm
    · have hmem : Course.pending wake task ∈ ended.map fun result => (.done result.1 result.2 : Course τ ρ) := by
        simp [hended]
      obtain ⟨result, -, heq⟩ := List.mem_map.1 hmem
      cases heq
    · obtain ⟨earlier, later, rfl, hearlier, hlater⟩ := List.map_eq_append_iff.1 hwaiting
      obtain ⟨a, others, rfl, heq, rfl⟩ := List.map_eq_cons_iff.1 hlater
      cases heq
      cases earlier with
      | nil => exact .inr ⟨a, others, rfl, rfl, rfl, by simp [← hearlier], rfl⟩
      | cons b earlier =>
        have hle := hbefore wake (make b) (by simp [← hearlier])
        omega

end Schedule

namespace Session

variable {ω : Type} {transport : Transport ω}

/-- The refusal of a request in a window, at the time when the batch starts. -/
def refusal (e : Endpoint) (limit : RateLimit) (start : Nat) (window : Window) : Nat × Answer :=
  (start, .error (.rateLimited e.id (limit.window - (start - window.start))))

/-- Where the requests of a batch stand that started at one time with a window in force: some have passed
the limiter, some after them were refused, and the others have yet to start. -/
structure Entering (e : Endpoint) (limit : RateLimit) (start : Nat) (window : Window) (now : Nat)
    (w : World ω) (passed : List (Course Request Answer)) (refused : Nat) (waiting : List CallOptions) :
    Prop where
  registered : w.service.registry.get? e.id = some e
  past : ∀ course ∈ passed, PastLimiter course
  room : window.count + passed.length ≤ max window.count limit.requests
  full : refused ≠ 0 → limit.requests ≤ window.count + passed.length
  inForce : waiting ≠ [] → now = start ∧ w.service.limiter.windowAt start e.id limit.window =
    { window with count := window.count + passed.length }

/-- The courses of these requests. -/
def entering (e : Endpoint) (limit : RateLimit) (start : Nat) (window : Window)
    (passed : List (Course Request Answer)) (refused : Nat) (waiting : List CallOptions) :
    List (Course Request Answer) :=
  passed ++ ((List.replicate refused (refusal e limit start window)).map (fun r => .done r.1 r.2) ++
    waiting.map fun options => .pending start (.arriving e.id options))

section

variable {e : Endpoint} {limit : RateLimit} {start now wake refused : Nat} {window : Window} {w : World ω}
  {passed before after : List (Course Request Answer)} {waiting : List CallOptions}

/-- A request that has passed the limiter takes a turn. -/
theorem Entering.past_turn {request : Request} {rest : List (Course Request Answer)}
    (h : Entering e limit start window now w (before ++ .pending wake request :: rest) refused waiting)
    (hwake : waiting ≠ [] → wake ≤ start) :
    let time := max now wake
    let next := World.act transport time ((World.workshop transport).pass now time w) request
    Entering e limit start window time next.1 (before ++ next.2.course time :: rest) refused waiting := by
  intro time next
  have hturns := World.act_turns transport time ((World.workshop transport).pass now time w) request
  obtain ⟨hpast, hsame⟩ := hturns.past_limiter (h.past _ (List.mem_append_right _ List.mem_cons_self))
  refine ⟨?_, fun course hmem => ?_, by simpa using h.room, by simpa using h.full, fun hwaiting => ?_⟩
  · rw [hturns.registry]
    exact (w.service.pass_alike now time).registry ▸ h.registered
  · simp only [List.mem_append, List.mem_cons] at hmem
    rcases hmem with hmem | rfl | hmem
    · exact h.past course (List.mem_append_left _ hmem)
    · exact hpast
    · exact h.past course (List.mem_append_right _ (List.mem_cons_of_mem _ hmem))
  · obtain ⟨rfl, hin⟩ := h.inForce hwaiting
    have htime : time = now := Nat.max_eq_left (hwake hwaiting)
    have hlimiter : next.1.service.limiter = w.service.limiter := by
      rw [hsame, htime]
      show (w.service.pass now now).limiter = _
      rw [Service.pass_self]
    refine ⟨htime, ?_⟩
    rw [hlimiter, hin]
    simp

/-- The next request takes its first turn. -/
theorem Entering.first_turn {options : CallOptions} (hlimit : e.rateLimit = some limit)
    (hthrottle : limit.throttle? = none) (hwindow : 0 < limit.window)
    (h : Entering e limit start window now w passed refused (options :: waiting)) :
    let time := max now start
    let next := World.act transport time ((World.workshop transport).pass now time w)
      (.arriving e.id options)
    (refused = 0 ∧ Entering e limit start window time next.1 (passed ++ [next.2.course time]) 0 waiting) ∨
      next.2.course time = .done start (refusal e limit start window).2 ∧
        Entering e limit start window time next.1 passed (refused + 1) waiting := by
  obtain ⟨rfl, hin⟩ := h.inForce (List.cons_ne_nil _ _)
  intro time next
  have htime : time = now := Nat.max_self now
  have hworld : (World.workshop transport).pass now time w = w := by
    rw [htime]
    simp only [World.workshop, Service.pass_self]
  have hturns : World.Turns transport now w (.arriving e.id options) next.1 next.2 := by
    simp only [next]
    rw [hworld, htime]
    exact World.act_turns transport now w (.arriving e.id options)
  rw [htime]
  obtain ⟨hlimiter, hfirst⟩ := hturns.first_of_impatient h.registered hlimit hthrottle
  have hafter := w.service.limiter.windowAt_check_self now e.id hwindow
  have hregistered : next.1.service.registry.get? e.id = some e := hturns.registry ▸ h.registered
  rw [← hlimiter, hin] at hafter
  rw [hin] at hfirst
  dsimp only at hfirst hafter
  by_cases hroom : window.count + passed.length < limit.requests
  · rw [if_pos hroom] at hfirst hafter
    have hrefused : refused = 0 := by
      have := h.full
      omega
    refine .inl ⟨hrefused, hregistered, fun course hmem => ?_, ?_, fun hne => absurd rfl hne,
      fun _ => ⟨rfl, ?_⟩⟩
    · rcases List.mem_append.1 hmem with hmem | hmem
      · exact h.past course hmem
      · exact List.mem_singleton.1 hmem ▸ hfirst
    · simp only [List.length_append, List.length_singleton]
      omega
    · rw [hafter, List.length_append, List.length_singleton, Nat.add_assoc]
  · rw [if_neg hroom] at hfirst hafter
    refine .inr ⟨by rw [hfirst]; rfl, hregistered, h.past, h.room, fun _ => Nat.le_of_not_lt hroom,
      fun _ => ⟨rfl, hafter⟩⟩

/-- The turns of requests that started together keep to where they stand. -/
theorem Entering.turn {request : Request} (hlimit : e.rateLimit = some limit)
    (hthrottle : limit.throttle? = none) (hwindow : 0 < limit.window)
    (hbefore : Schedule.NotBefore (wake + 1) before) (hafter : Schedule.NotBefore wake after)
    (h : Entering e limit start window now w passed refused waiting)
    (hcourses : before ++ .pending wake request :: after = entering e limit start window passed refused waiting) :
    let time := max now wake
    let next := World.act transport time ((World.workshop transport).pass now time w) request
    ∃ passed' refused' waiting', Entering e limit start window time next.1 passed' refused' waiting' ∧
      before ++ next.2.course time :: after = entering e limit start window passed' refused' waiting' ∧
      passed'.length + refused' + waiting'.length = passed.length + refused + waiting.length := by
  intro time next
  obtain ⟨rest, rfl, rfl⟩ | ⟨options, others, rfl, rfl, rfl, rfl, rfl⟩ :=
    Schedule.first_split hbefore hcourses
  · have hwake : waiting ≠ [] → wake ≤ start := by
      intro hwaiting
      obtain ⟨options, others, rfl⟩ := List.exists_cons_of_ne_nil hwaiting
      exact hafter start (.arriving e.id options) (by simp)
    exact ⟨_, refused, waiting, h.past_turn hwake, by simp [entering, next, time], by simp⟩
  · obtain ⟨rfl, hentering⟩ | ⟨hcourse, hentering⟩ := h.first_turn hlimit hthrottle hwindow
    · exact ⟨_, 0, others, hentering, by simp [entering, next, time], by simp; omega⟩
    · refine ⟨passed, refused + 1, others, hentering, ?_, by simp; omega⟩
      simp only [next, time, hcourse]
      simp [entering, List.replicate_succ', refusal]

/-- Where they stand when all of them are answered. -/
theorem Entering.answers (h : Entering e limit start window now w passed refused waiting)
    {courses : List (Course Request Answer)}
    (hcourses : courses = entering e limit start window passed refused waiting)
    (hdone : Schedule.earliest? courses = none) :
    ∃ entered, Schedule.results courses = entered ++ List.replicate refused (refusal e limit start window) ∧
      waiting = [] ∧ entered.length = passed.length ∧ ∀ result ∈ entered, OfCall result.2 := by
  have hresults := Schedule.courses_eq_of_done hdone
  rw [hcourses] at hresults
  obtain ⟨entered, rest, hsplit, hentered, hrest⟩ := List.map_eq_append_iff.1 hresults.symm
  obtain ⟨ended, yet, rfl, hended, hyet⟩ := List.map_eq_append_iff.1 hrest
  have hinjective : Function.Injective fun result : Nat × Answer =>
      (Course.done result.1 result.2 : Course Request Answer) := by
    rintro ⟨time, answer⟩ ⟨time', answer'⟩ heq
    cases heq
    rfl
  obtain rfl := List.map_injective_iff.2 hinjective hended
  have hwaiting : waiting = [] := by
    cases waiting with
    | nil => rfl
    | cons options others =>
      obtain ⟨result, _, -, heq, -⟩ := List.map_eq_cons_iff.1 hyet
      cases heq
  subst hwaiting
  obtain rfl := List.map_eq_nil_iff.1 hyet
  refine ⟨entered, by rw [hcourses, hsplit, List.append_nil], rfl, by rw [← hentered, List.length_map],
    fun result hmem => ?_⟩
  cases h.past (.done result.1 result.2) (hentered ▸ List.mem_map_of_mem hmem) with
  | done hcall => exact hcall

/-- Of requests side by side to an endpoint that lets nobody wait, the first ones pass the limiter while there
is room, and all others are told the same time to wait. -/
theorem requests_entering (s : Session ω) (he : s.world.service.registry.get? e.id = some e)
    (hlimit : e.rateLimit = some limit) (hthrottle : limit.throttle? = none) (hwindow : 0 < limit.window)
    {fuel : Nat} {calls : List CallOptions} {answers : List (Nat × Answer)} {after : Session ω}
    (hrun : s.requests transport fuel (calls.map fun options => (e.id, options)) = some (answers, after)) :
    ∃ entered refused, answers = entered ++ List.replicate refused
        (refusal e limit s.now (s.world.service.limiter.windowAt s.now e.id limit.window)) ∧
      entered.length + refused = calls.length ∧
      entered.length = min calls.length (s.world.service.limiter.room s.now e.id limit) ∧
      ∀ result ∈ entered, OfCall result.2 := by
  generalize hin : s.world.service.limiter.windowAt s.now e.id limit.window = window
  obtain ⟨outcome, hends, heq⟩ := Option.map_eq_some_iff.1 hrun
  cases heq
  rw [List.map_map] at hends
  let P (now : Nat) (w : World ω) (courses : List (Course Request Answer)) :=
    ∃ passed refused waiting, Entering e limit s.now window now w passed refused waiting ∧
      courses = entering e limit s.now window passed refused waiting ∧
      passed.length + refused + waiting.length = calls.length
  have hstart : Entering e limit s.now window s.now s.world [] 0 calls :=
    ⟨he, fun _ hmem => (List.not_mem_nil hmem).elim, Nat.le_max_left _ _, fun hne => absurd rfl hne,
      fun _ => ⟨rfl, hin⟩⟩
  obtain ⟨⟨passed, refused, waiting, h, hcourses, hlength⟩, hdone⟩ :=
    Schedule.run_invariant_first (World.workshop transport) (P := P)
      (fun now w before wake request after hbefore hafter h => by
        obtain ⟨passed, refused, waiting, h, hcourses, hlength⟩ := h
        obtain ⟨passed', refused', waiting', h', hcourses', hlength'⟩ :=
          h.turn hlimit hthrottle hwindow hbefore hafter hcourses
        exact ⟨passed', refused', waiting', h', hcourses', hlength'.trans hlength⟩)
      ⟨[], 0, calls, hstart, rfl, by simp⟩ hends
  obtain ⟨entered, hanswers, rfl, hentered, hcall⟩ := h.answers hcourses hdone
  have hroom := h.room
  have hfull := h.full
  refine ⟨entered, refused, hanswers, by simpa [hentered] using hlength, ?_, hcall⟩
  rw [Limiter.room, hin]
  simp only [List.length_nil, Nat.add_zero] at hlength
  omega

end

/-- Every batch is carried out, and its result tells what came of each item. Where all items are for one
endpoint that lets nobody wait, the first ones pass the limiter, as many as it has room for when the batch
starts, and all others fail at once and are told the same time to wait. -/
theorem batch_tells (s : Session ω) (transport : Transport ω) (items : List BatchItem) :
    ∃ enough answers after, answers.length = items.length ∧
      (∀ fuel, enough ≤ fuel →
        s.requests transport fuel (items.map fun item => (item.id, item.options)) = some (answers, after)) ∧
      let outcomes := (items.map (·.id)).zip (answers.map (·.2))
      ∃ result : BatchResult, result.Tells outcomes ∧
        (∀ fuel, enough ≤ fuel → s.batch transport fuel items = some (result, after)) ∧
        (Reachable transport s → ∀ id e limit, s.world.service.registry.get? id = some e →
          e.rateLimit = some limit → limit.throttle? = none → (∀ item ∈ items, item.id = id) →
          let window := s.world.service.limiter.windowAt s.now id limit.window
          ∃ entered refused, answers = entered ++ List.replicate refused
              (s.now, .error (.rateLimited id (limit.window - (s.now - window.start)))) ∧
            entered.length + refused = items.length ∧
            entered.length = min items.length (limit.requests - window.count) ∧
            ∀ result ∈ entered, OfCall result.2) := by
  obtain ⟨enough, answers, after, hlength, hrun⟩ :=
    s.exists_requests transport (items.map fun item => (item.id, item.options))
  rw [List.length_map] at hlength
  have hzip : (items.map (·.id)).zip (answers.map (·.2)) =
      (items.zip answers).map fun r => (r.1.id, r.2.2) := by
    rw [List.zip_map]
    rfl
  refine ⟨enough, answers, after, hlength, hrun, _, BatchResult.tells_ofAnswers _, fun fuel hfuel => ?_,
    fun hreachable id e limit he hlimit hthrottle hitems => ?_⟩
  · rw [batch, hrun fuel hfuel, hzip]
    rfl
  · obtain ⟨rfl, -⟩ := hreachable.tidy.own id e he
    obtain ⟨-, -, -, -, -, hlimits, -⟩ := Endpoint.valid_iff.1 (hreachable.tidy.valid _ e he)
    obtain ⟨-, hwindow, -⟩ := RateLimit.flaw?_eq_none_iff.1 (hlimits limit hlimit)
    have hcalls : items.map (fun item => (item.id, item.options)) =
        (items.map (·.options)).map fun options => (e.id, options) := by
      rw [List.map_map]
      exact List.map_congr_left fun item hmem => by rw [hitems item hmem]; rfl
    have hrun' := hrun enough (Nat.le_refl enough)
    rw [hcalls] at hrun'
    obtain ⟨entered, refused, hanswers, hsum, hentered, hcall⟩ :=
      s.requests_entering he hlimit hthrottle hwindow hrun'
    rw [List.length_map] at hsum hentered
    exact ⟨entered, refused, hanswers, hsum, hentered, hcall⟩

/-- A session with an endpoint that takes two calls a second and lets nobody wait. -/
def impatient : Session Unit :=
  ((start (.create .request none (.create 1 0)) ()).operate
    (.register { Endpoint.keeping with rateLimit := some ⟨2, 1000, false, none⟩ })).1

/-- Of three items two pass the limiter and bring a response, and the third one fails: the id is among the
responses and among the failures. -/
theorem batch_tells_impatient :
    ∃ enough entered after, ∃ result : BatchResult,
      (∀ fuel, enough ≤ fuel →
        impatient.requests .steady fuel (List.replicate 3 ("a", .plain)) =
          some (entered ++ [(0, .error (.rateLimited "a" 1000))], after) ∧
        impatient.batch .steady fuel (List.replicate 3 ⟨"a", .plain⟩) = some (result, after)) ∧
      entered.length = 2 ∧ (∀ r ∈ entered, OfCall r.2) ∧ result.attempted = 3 ∧
      "a" ∈ result.responses.keys ∧ "a" ∈ result.failures.map (·.1) := by
  have hstep : (start (.create .request none (.create 1 0)) ()).take .steady 0
      (.operate (.register { Endpoint.keeping with rateLimit := some ⟨2, 1000, false, none⟩ })) =
        some ([], impatient) := rfl
  have hreachable : Reachable .steady impatient := .step (.start .request none (.create 1 0) ()) hstep
  obtain ⟨enough, answers, after, hlength, hrun, result, htells, hbatch, hroom⟩ :=
    batch_tells impatient .steady (List.replicate 3 ⟨"a", .plain⟩)
  obtain ⟨entered, refused, rfl, hsum, hentered, hcall⟩ :=
    hroom hreachable "a" _ ⟨2, 1000, false, none⟩ rfl rfl rfl
      fun item hmem => congrArg BatchItem.id (List.eq_of_mem_replicate hmem)
  have htwo : entered.length = 2 := hentered
  obtain rfl : refused = 1 := by
    rw [htwo] at hsum
    exact Nat.add_left_cancel hsum
  -- the responses of the first two items are those of the transport
  have hends : (impatient.requests .steady 9 (List.replicate 3 ("a", .plain))).isSome = true := by rfl
  obtain ⟨⟨answers, after'⟩, hnine⟩ := Option.isSome_iff_exists.1 hends
  have hanswers : answers = (Option.get _ hends).1 := by simp only [hnine, Option.get_some]
  have hsame := (requests_mono hnine (Nat.le_max_left 9 enough)).symm.trans
    (hrun (max 9 enough) (Nat.le_max_right 9 enough))
  obtain ⟨rfl, rfl⟩ := Prod.mk.inj (Option.some.inj hsame)
  have hboth := (htells.both "a").2
    ⟨⟨_, List.mem_of_getElem? (i := 0) (by rw [hanswers]; rfl)⟩,
      ⟨_, List.mem_of_getElem? (i := 2) (by rw [hanswers]; rfl)⟩⟩
  exact ⟨enough, entered, after', result, fun fuel hfuel => ⟨hrun fuel hfuel, hbatch fuel hfuel⟩, htwo, hcall,
    htells.attempted.trans (by rw [hanswers]; rfl), hboth.1, hboth.2⟩

end Session

end Egress
