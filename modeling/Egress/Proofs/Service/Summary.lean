import Egress.Endpoint.View
import Egress.Proofs.Call.Outcome
import Egress.Proofs.Registry.Servable
import Egress.Proofs.Retry
import Egress.Proofs.Retry.Delay
import Egress.Proofs.Service.BatchResults
import Egress.Proofs.Service.Completion
import Mathlib.Order.Bounds.Basic

/-!
# The summary of an endpoint against what the service does

* Calls: along a request the calls made and those that may still be made (`Request.allowance`) never come to
  more than the attempts that the policy allows (`World.sent_le_of_alone`). With a transport that has no
  connection all of them are made (`Errand.sent_of_severed`).
* Responses that are kept: `Session.Keeping` says what a request leaves in the cache.
* Callers over the limit: they fail at once (`Session.Over.refused`), or wait and are never turned away
  (`Session.Over.waits`), as the limit has a delay in force or not.
* `Endpoint.view_tells` compares the summary with all this. The mark for callers that wait is shown whenever the
  limit says that they queue, but one without a delay lets nobody wait.
-/

set_option autoImplicit false

namespace Egress

/-! ## One request -/

namespace Session

variable {ω : Type} {transport : Transport ω} {s after : Session ω} {fuel : Nat} {id : String}
  {options : CallOptions} {answer : Answer}

theorem request_mono {more : Nat} (h : s.request transport fuel id options = some (answer, after))
    (hle : fuel ≤ more) : s.request transport more id options = some (answer, after) := by
  unfold request at h ⊢
  simp only [Option.bind_eq_bind, Option.bind_eq_some_iff] at h ⊢
  obtain ⟨r, hr, hrest⟩ := h
  exact ⟨r, requests_mono hr hle, hrest⟩

/-- A request that comes to an answer does so as its task does on its own. -/
theorem alone_of_request (h : s.request transport fuel id options = some (answer, after)) :
    Schedule.Alone (World.workshop transport) s.now s.world (.arriving id options) after.now after.world
      answer := by
  obtain ⟨u, w, answer', halone⟩ := World.exists_alone transport s.now s.world id options
  obtain ⟨enough, henough⟩ := request_of_alone halone
  -- The two runs end in the same way if both have turns enough for either.
  have hsame := request_mono h (Nat.le_max_left fuel enough)
  rw [henough _ (Nat.le_max_right fuel enough)] at hsame
  cases hsame
  exact halone

end Session

/-- The request is for the endpoint, with these options. -/
def Request.Asks (s : Service) (e : Endpoint) (options : CallOptions) : Request → Prop
  | .arriving id given => s.registry.get? id = some e ∧ given = options
  | .queueing job | .working job _ => job.endpoint = e ∧ job.options = options

theorem Request.Asks.congr {s s' : Service} {e : Endpoint} {options : CallOptions} {request : Request}
    (h : request.Asks s e options) (hregistry : s'.registry = s.registry) : request.Asks s' e options := by
  cases request with
  | arriving id given => exact ⟨hregistry ▸ h.1, h.2⟩
  | queueing job => exact h
  | working job stage => exact h

namespace World

variable {ω : Type} {transport : Transport ω} {now : Nat} {w w' : World ω}

/-- A request that waits on goes on asking for the same. -/
theorem Turns.asks_next {e : Endpoint} {options : CallOptions} {request next : Request} {duration : Nat}
    (h : Turns transport now w request w' (.wait duration next)) (hasks : request.Asks w.service e options)
    (s : Service) : next.Asks s e options := by
  have hjob : ∀ {request : Request} {job : Job} {w' : World ω},
      Turns transport now w request w' (.wait duration next) → request.job? = some job →
        job.endpoint = e ∧ job.options = options → next.Asks s e options := by
    intro request job w' h hjob hasks
    obtain rfl | ⟨stage, rfl, -⟩ := h.next hjob <;> exact hasks
  cases h with
  | found hid hturn =>
    obtain ⟨he, rfl⟩ := hasks
    rw [hid] at he
    cases he
    exact hjob hturn rfl ⟨rfl, rfl⟩
  | wait henter => exact hasks
  | miss henter hlookup hcall => exact hasks
  | call hcall => exact hasks
  | again hjudge => exact hasks

end World

/-! ## Calls -/

/-- The calls that an errand may still make. -/
def Errand.Stage.allowance (policy : Option RetryPolicy) : Errand.Stage → Nat
  | .pausing n => budget policy - n + 1
  | .calling n _ => budget policy - n

/-- The calls that a request may still make. -/
def Request.allowance (s : Service) : Request → Nat
  | .arriving id _ => (s.registry.get? id).elim 0 fun e => budget e.effectiveRetryPolicy?
  | .queueing job => budget job.errand.policy
  | .working job stage => stage.allowance job.errand.policy

theorem Errand.length_sent_call {ω : Type} (e : Errand) (transport : Transport ω) (tokens : Tokens) (now : Nat)
    (wire : Wire ω) : (e.call transport tokens now wire).1.sent.length ≤ wire.sent.length + 1 := by
  cases hprepare : Call.prepare tokens e.endpoint e.options with
  | error failure =>
    rw [e.call_of_error transport tokens now wire hprepare]
    exact Nat.le_succ _
  | ok call =>
    rw [e.call_of_ok transport tokens now wire hprepare]
    exact Nat.le_refl _

namespace World

variable {ω : Type} {transport : Transport ω} {now : Nat} {w w' : World ω}

/-- A call that is made is one that was allowed. -/
theorem Turns.sent_le {request : Request} {turn : Turn Request Answer}
    (h : Turns transport now w request w' turn) :
    w'.wire.sent.length + Schedule.left (fun _ => Request.allowance w'.service) (turn.course now) ≤
      w.wire.sent.length + request.allowance w.service := by
  induction h with
  | unknown hid => exact Nat.le_add_right _ _
  | found hid _ ih =>
    rw [Request.allowance, hid]
    exact ih
  | wait henter => exact Nat.le_refl _
  | refuse henter => exact Nat.le_add_right _ _
  | hit henter hlookup => exact Nat.le_add_right _ _
  | @miss job limiter s wire duration result henter hlookup hcall =>
    have hsent := job.errand.length_sent_call transport s.tokens now w.wire
    rw [hcall] at hsent
    have hpos := budget_pos job.errand.policy
    simp only [Turn.course, Schedule.left, Request.allowance, Errand.Stage.allowance] at hsent ⊢
    omega
  | @call job n wire duration result hcall =>
    have hsent := job.errand.length_sent_call transport w.service.tokens now w.wire
    rw [hcall] at hsent
    simp only [Turn.course, Schedule.left, Request.allowance, Errand.Stage.allowance] at hsent ⊢
    omega
  | @again job n delay result hjudge =>
    -- A pause is followed by a call, so it must be that one was left.
    obtain ⟨p, hpolicy, hn⟩ := judge_again hjudge
    simp only [Turn.course, Schedule.left, Request.allowance, Errand.Stage.allowance, hpolicy, budget,
      Option.elim_some]
    omega
  | answer hjudge => exact Nat.le_add_right _ _

theorem sent_le_of_alone {request : Request} {u : Nat} {answer : Answer}
    (h : Schedule.Alone (workshop transport) now w request u w' answer) :
    w'.wire.sent.length ≤ w.wire.sent.length + request.allowance w.service := by
  refine h.invariant (P := fun _ s course => s.wire.sent.length +
    Schedule.left (fun _ => Request.allowance s.service) course ≤
      w.wire.sent.length + request.allowance w.service) (fun now s task hle => ?_)
      (fun since now s wake task _ hle => ?_) (Nat.le_refl _)
  · exact Nat.le_trans (act_turns transport now s task).sent_le hle
  · have hsame : task.allowance (s.service.pass since now) = task.allowance s.service := by
      unfold Request.allowance
      rw [(Service.pass_alike s.service since now).registry]
    show s.wire.sent.length + task.allowance (s.service.pass since now) ≤ _
    rw [hsame]
    exact hle

end World

/-- A transport that has no connection for any call. -/
def Transport.severed {ω : Type} : Transport ω := ⟨fun state _ _ => (⟨0, .error (.network "")⟩, state)⟩

namespace Errand

variable {ω : Type} {e : Errand} {tokens : Tokens} {call : Call}

/-- There is an attempt to make, or one that has failed for want of a connection. -/
def Stage.Severed (e : Errand) : Stage → Prop
  | .pausing n => 0 < n ∧ n ≤ budget e.policy
  | .calling n result =>
    0 < n ∧ n ≤ budget e.policy ∧ ∃ text, result = .error (.transport e.endpoint.id text)

theorem call_severed (hprepare : Call.prepare tokens e.endpoint e.options = .ok call) (now : Nat)
    (wire : Wire ω) : e.call .severed tokens now wire =
      (⟨wire.state, ⟨now, call⟩ :: wire.sent⟩, 0, .error (.transport e.endpoint.id "")) := by
  rw [e.call_of_ok .severed tokens now wire hprepare]
  have hsettle : call.settle e.endpoint.id ⟨0, .error (.network "")⟩ =
      (0, .error (.transport e.endpoint.id "")) := by
    rw [Call.settle, if_pos (Nat.zero_le _)]
    rfl
  exact Prod.ext rfl hsettle

/-- Where the connection is missing another attempt follows as long as there may be one. -/
theorem judge_severed {policy : Option RetryPolicy} {id text : String} {n : Nat} (hn : 0 < n)
    (hleft : n < budget policy) :
    judge policy id n (.error (.transport id text)) = .again (pause policy n) := by
  refine judge_of_left (fun hsettles => ?_) hleft
  cases policy with
  | none => exact absurd hleft (Nat.not_lt.2 hn)
  | some p => exact ((hsettles p rfl).2 rfl).2 id text rfl

/-- Without a connection: the calls made and those that are still to come are `total`. -/
def Losing (e : Errand) (total : Nat) (wire : Wire ω) : Course Stage (Except Failure Envelope) → Prop
  | .pending _ stage => stage.Severed e ∧ wire.sent.length + stage.allowance e.policy = total
  | .done _ _ => wire.sent.length = total

theorem losing_turn (hprepare : Call.prepare tokens e.endpoint e.options = .ok call) {total now : Nat}
    {wire : Wire ω} {stage : Stage} (h : e.Losing total wire (.pending now stage)) :
    e.Losing total ((e.workshop .severed tokens).act now wire stage).1
      (((e.workshop .severed tokens).act now wire stage).2.course now) := by
  obtain ⟨hstage, htotal⟩ := h
  cases stage with
  | pausing n =>
    have hact : (e.workshop .severed tokens).act now wire (.pausing n) =
        ((e.call .severed tokens now wire).1, .wait (e.call .severed tokens now wire).2.1
          (.calling n (e.call .severed tokens now wire).2.2)) := rfl
    rw [hact, call_severed hprepare now wire]
    refine ⟨⟨hstage.1, hstage.2, "", rfl⟩, ?_⟩
    simp only [Stage.allowance, List.length_cons] at htotal ⊢
    have hle := hstage.2
    omega
  | calling n result =>
    obtain ⟨hpos, hn, text, rfl⟩ := hstage
    simp only [Stage.allowance] at htotal
    cases hjudge : judge e.policy e.endpoint.id n (.error (.transport e.endpoint.id text)) with
    | finished answer =>
      rw [e.act_of_finished .severed tokens hjudge]
      have hspent : ¬n < budget e.policy := fun hleft => by
        rw [judge_severed hpos hleft] at hjudge
        cases hjudge
      show wire.sent.length = total
      omega
    | again delay =>
      rw [e.act_of_again .severed tokens hjudge]
      obtain ⟨p, hpolicy, hlt⟩ := judge_again hjudge
      have hleft : n + 1 ≤ budget e.policy := by
        rw [hpolicy]
        exact hlt
      refine ⟨⟨Nat.succ_pos n, hleft⟩, ?_⟩
      simp only [Stage.allowance]
      omega

/-- Without a connection all calls are made that may be. -/
theorem sent_of_severed (hprepare : Call.prepare tokens e.endpoint e.options = .ok call) {now t : Nat}
    {wire wire' : Wire ω} {stage : Stage} {answer : Except Failure Envelope}
    (h : Schedule.Alone (e.workshop .severed tokens) now wire stage t wire' answer)
    (hstage : stage.Severed e) : wire'.sent.length = wire.sent.length + stage.allowance e.policy :=
  h.invariant (P := fun _ wire => e.Losing _ wire) (fun _ _ _ => losing_turn hprepare)
    (fun _ _ _ _ _ _ hlosing => hlosing) ⟨hstage, rfl⟩

end Errand

theorem Limiter.count_empty (id : String) (length now : Nat) :
    (empty.windowAt now id length).count = 0 := by
  unfold windowAt
  dsimp only
  split <;> rfl

namespace Session

variable {ω : Type}

/-- With some transport the request makes this number of calls. -/
def Makes (s : Session ω) (id : String) (options : CallOptions) (n : Nat) : Prop :=
  ∃ transport fuel answer after, s.request transport fuel id options = some (answer, after) ∧
    after.world.wire.sent.length = s.world.wire.sent.length + n

/-- A request to the endpoint is admitted, perhaps after it has waited, and nothing is kept that would serve
it then. -/
def LetsThrough (s : Session ω) (e : Endpoint) (options : CallOptions) : Prop :=
  ∃ t found, s.world.service.Polls e s.now t found ∧
    (found.limiter.enter t e.id e.rateLimit).1 = .admitted ∧ (found.lookup t ⟨e, options, s.now⟩).1 = none

variable {s : Session ω} {e : Endpoint} {options : CallOptions}

theorem makes_le (he : s.world.service.registry.get? e.id = some e) {n : Nat}
    (h : s.Makes e.id options n) : n ≤ budget e.effectiveRetryPolicy? := by
  obtain ⟨transport, fuel, answer, after, hrequest, hsent⟩ := h
  have hle := World.sent_le_of_alone (alone_of_request hrequest)
  rw [hsent, Request.allowance, he, Option.elim_some] at hle
  omega

/-- A service that has not been used lets each request through. -/
theorem letsThrough_of_unused (hvalid : e.Valid) (hlimiter : s.world.service.limiter = .empty)
    (hcache : s.world.service.cache = .empty) : s.LetsThrough e options := by
  refine ⟨s.now, s.world.service, .first, ?_, ?_⟩
  · rw [hlimiter]
    cases hlimit : e.rateLimit with
    | none => rfl
    | some limit =>
      obtain ⟨-, -, -, -, -, hlimits, -⟩ := Endpoint.valid_iff.1 hvalid
      obtain ⟨hrequests, -⟩ := RateLimit.flaw?_eq_none_iff.1 (hlimits limit hlimit)
      have hfree : (Limiter.empty.windowAt s.now e.id limit.window).count < limit.requests :=
        (Limiter.count_empty e.id limit.window s.now).symm ▸ hrequests
      rw [Limiter.enter_some, Limiter.check_admitted_iff.2 hfree]
      rfl
  · unfold Service.lookup
    rw [hcache]
    split
    · rfl
    · split <;> rfl

/-- A request that is let through and can be authenticated makes all calls that it may if none of them gets
anywhere. -/
theorem makes_budget (hvalid : e.Valid) (he : s.world.service.registry.get? e.id = some e)
    {own : Option (String × String)} (hauth : e.auth.header? s.world.service.tokens e.id = .ok own)
    (hthrough : s.LetsThrough e options) : s.Makes e.id options (budget e.effectiveRetryPolicy?) := by
  obtain ⟨t, found, hpolls, hadmitted, hlookup⟩ := hthrough
  obtain ⟨url, hurl⟩ := e.exists_target hvalid options
  have hprepare : ∃ call, Call.prepare s.world.service.tokens e options = .ok call :=
    ⟨_, Call.prepare_eq_ok_iff.2 ⟨url, _, hurl, Auth.apply_eq_ok_iff.2 ⟨own, hauth, rfl⟩, rfl⟩⟩
  obtain ⟨call, hprepare⟩ := hprepare
  let job : Job := ⟨e, options, s.now⟩
  obtain ⟨u, service, wire, answer, halone, herrand⟩ :=
    World.alone_of_admitted .severed job hadmitted s.world.wire
  rw [hlookup, hpolls.tokens] at herrand
  obtain ⟨enough, hrequest⟩ :=
    request_of_alone (World.alone_arriving he (World.alone_of_polls hpolls rfl halone))
  have hpos := budget_pos e.effectiveRetryPolicy?
  have hsent := Errand.sent_of_severed (e := job.errand) hprepare herrand ⟨Nat.one_pos, hpos⟩
  refine ⟨.severed, enough, answer, _, hrequest enough (Nat.le_refl _), hsent.trans ?_⟩
  simp only [Errand.Stage.allowance, Job.errand, job]
  omega

end Session

theorem RetryPolicy.attempts_ofRetries_pos (retries : Nat) : 0 < (ofRetries retries).maxAttempts :=
  Nat.lt_min.2 ⟨Nat.succ_pos retries, by decide⟩

/-- A policy in force allows at least one attempt. -/
theorem Endpoint.maxAttempts_pos {e : Endpoint} (h : e.Valid) {p : RetryPolicy}
    (hp : e.effectiveRetryPolicy? = some p) : 0 < p.maxAttempts := by
  obtain ⟨-, -, -, -, -, -, hpolicies⟩ := Endpoint.valid_iff.1 h
  unfold effectiveRetryPolicy? at hp
  split at hp
  · next policy hpolicy =>
    cases hp
    exact (RetryPolicy.flaw?_eq_none_iff.1 (hpolicies p hpolicy)).1
  · split at hp <;> cases hp
    exact RetryPolicy.attempts_ofRetries_pos _
  · cases hp

theorem Endpoint.maxAttempts_view {e : Endpoint} (h : e.Valid) :
    e.view.maxAttempts = budget e.effectiveRetryPolicy? := by
  unfold view budget
  cases hp : e.effectiveRetryPolicy? with
  | none => rfl
  | some p => exact (Nat.max_eq_right (Endpoint.maxAttempts_pos h hp)).symm

/-! ## Responses that are kept -/

/-- Where a request for the endpoint stands, as to what is kept: nothing new as long as it waits, and in the end
nothing or the response that an errand has brought. -/
def Session.Keeping {ω : Type} (s : Session ω) (e : Endpoint) (options : CallOptions) (now : Nat)
    (w : World ω) : Course Request Answer → Prop
  | .pending _ request => s.world.service.Alike now w.service ∧ request.Asks w.service e options
  | .done _ answer =>
    (s.world.service.Alike now w.service ∧ ∀ envelope, answer = .ok envelope → envelope.cached = true) ∨
      ∃ job before envelope, answer = .ok envelope ∧ job.endpoint = e ∧ job.options = options ∧
        s.world.service.Alike now before ∧ w.service = before.conclude now job (.ok envelope)

namespace Session

variable {ω : Type} {transport : Transport ω} {s after : Session ω} {e : Endpoint} {options : CallOptions}
  {fuel : Nat} {answer : Answer}

theorem keeping_turn (transport : Transport ω) {now : Nat} {w : World ω} {request : Request}
    (h : s.Keeping e options now w (.pending now request)) :
    s.Keeping e options now (World.act transport now w request).1
      ((World.act transport now w request).2.course now) := by
  obtain ⟨halike, hasks⟩ := h
  have hturns := World.act_turns transport now w request
  generalize World.act transport now w request = next at hturns
  obtain ⟨w', turn⟩ := next
  obtain ⟨hsame, hcached⟩ | ⟨job, n, envelope, rfl, rfl, rfl⟩ := hturns.alike
  · have hkept := halike.trans hsame (Nat.le_refl now)
    cases turn with
    | wait duration next => exact ⟨hkept, hturns.asks_next hasks _⟩
    | finish answer =>
      refine .inl ⟨hkept, fun envelope heq => hcached envelope ?_⟩
      rw [heq]
  · exact .inr ⟨job, w.service, envelope, rfl, hasks.1, hasks.2, halike, rfl⟩

theorem keeping_of_request (he : s.world.service.registry.get? e.id = some e)
    (h : s.request transport fuel e.id options = some (answer, after)) :
    s.Keeping e options after.now after.world (.done after.now answer) :=
  (alone_of_request h).invariant (fun _ _ _ => keeping_turn transport)
    (fun since now w _ _ hle ⟨halike, hasks⟩ =>
      have hpass := Service.pass_alike w.service since now
      ⟨halike.trans hpass hle, hasks.congr hpass.registry⟩)
    ⟨.refl s.now _, he, rfl⟩

/-- A response that is not from the cache is kept for the time to live. -/
theorem stored_of_request (he : s.world.service.registry.get? e.id = some e) {envelope : Envelope}
    (h : s.request transport fuel e.id options = some (.ok envelope, after)) (hfresh : envelope.cached = false)
    {ttl : Nat} (httl : e.cacheTtl? = some ttl) :
    after.world.service.cache.entries.get? (s.world.service.strategy.key e.id options) =
      some ⟨envelope, after.now + ttl⟩ := by
  obtain ⟨-, hcached⟩ | ⟨job, before, brought, heq, rfl, rfl, halike, hafter⟩ := keeping_of_request he h
  · rw [hcached envelope rfl] at hfresh
    cases hfresh
  · cases heq
    obtain ⟨events, hconclude⟩ := before.conclude_ok after.now job envelope
    rw [hafter, hconclude]
    simp only [Service.cacheKey?, httl, Option.map_some, Option.elim_some, Cache.put, halike.strategy,
      Dict.get?_insert_self]

/-- Without a time to live nothing is kept that was not. -/
theorem kept_of_request (he : s.world.service.registry.get? e.id = some e)
    (h : s.request transport fuel e.id options = some (answer, after)) (httl : e.cacheTtl? = none)
    (key : String) (entry : Cache.Entry Envelope)
    (hentry : after.world.service.cache.entries.get? key = some entry) :
    s.world.service.cache.entries.get? key = some entry := by
  obtain ⟨halike, -⟩ | ⟨job, before, envelope, rfl, rfl, rfl, halike, hafter⟩ := keeping_of_request he h
  · exact halike.kept key entry hentry
  · obtain ⟨events, hconclude⟩ := before.conclude_ok after.now job envelope
    rw [hafter, hconclude] at hentry
    simp only [Service.cacheKey?, httl, Option.map_none, Option.elim_none] at hentry
    exact halike.kept key entry hentry

end Session

/-! ## Callers over the limit -/

namespace Limiter

variable {id : String} {limit : RateLimit}

/-- Calls at one time, starting with an empty limiter, are counted until the window is full. -/
theorem count_of_calls (hwindow : 0 < limit.window) (now n : Nat) :
    ((empty.performAll (List.replicate n (now, .enter id (some limit)))).windowAt now id limit.window).count =
      min n limit.requests := by
  induction n with
  | zero =>
    rw [Nat.zero_min]
    exact count_empty id limit.window now
  | succ n ih =>
    have hstep : empty.performAll (List.replicate (n + 1) (now, .enter id (some limit))) =
        ((empty.performAll (List.replicate n (now, .enter id (some limit)))).check now id limit).2 := by
      rw [List.replicate_succ', performAll, List.foldl_append]
      exact perform_of_checked (a := .enter id (some limit)) rfl
    rw [hstep, windowAt_check_self _ _ _ hwindow]
    dsimp only
    rw [ih]
    split <;> omega

/-- One call more than the limit allows is limited. -/
theorem limited_after_calls (hwindow : 0 < limit.window) (now : Nat) :
    ((empty.performAll (List.replicate limit.requests (now, .enter id (some limit)))).enter now id
      (some limit)).1 ≠ .admitted := by
  intro hadmitted
  have hcount := @count_of_calls id limit hwindow now limit.requests
  rw [Nat.min_self] at hcount
  rw [enter_some] at hadmitted
  have hlimited := check_eq_limited_iff.2 ⟨Nat.le_of_eq hcount.symm, rfl⟩
  rw [hlimited] at hadmitted
  dsimp only [entryAfter] at hadmitted
  cases hthrottle : limit.throttle? <;> rw [hthrottle] at hadmitted <;> cases hadmitted

end Limiter

/-- A request has not been turned away by the limiter. -/
def World.Unlimited {ω : Type} (e : Endpoint) (options : CallOptions) (w : World ω) :
    Course Request Answer → Prop
  | .pending _ request => request.Asks w.service e options ∧ request.Calling
  | .done _ answer => ∀ id r, answer ≠ .error (.rateLimited id r)

namespace World

variable {ω : Type} {transport : Transport ω} {now : Nat} {w w' : World ω}

/-- Where callers wait, a turn of a request does not end in a refusal. -/
theorem Turns.not_limited {e : Endpoint} {options : CallOptions} {limit : RateLimit} {delay : Nat}
    (hlimit : e.rateLimit = some limit) (hthrottle : limit.throttle? = some delay) {request : Request}
    {answer : Answer} (h : Turns transport now w request w' (.finish answer))
    (hasks : request.Asks w.service e options) (hcalling : request.Calling) (id : String) (r : Nat) :
    answer ≠ .error (.rateLimited id r) := by
  have hqueueing : ∀ {job : Job} {w' : World ω}, job.endpoint = e →
      Turns transport now w (.queueing job) w' (.finish answer) → answer ≠ .error (.rateLimited id r) := by
    rintro job w' rfl h
    cases h with
    | refuse henter =>
      rw [hlimit] at henter
      exact absurd (congrArg Prod.fst henter) (Limiter.enter_ne_refused hthrottle _ now _ _)
    | hit henter hlookup => exact fun heq => by cases heq
  cases h with
  | unknown hid => exact fun heq => by cases heq
  | found hid hturn =>
    obtain ⟨he, -⟩ := hasks
    rw [hid] at he
    cases he
    exact hqueueing rfl hturn
  | refuse henter => exact hqueueing hasks.1 (.refuse henter)
  | hit henter hlookup => exact hqueueing hasks.1 (.hit henter hlookup)
  | answer hjudge =>
    rintro rfl
    cases ofCall_of_judge hjudge hcalling.2 _ rfl

theorem unlimited_turn (transport : Transport ω) {e : Endpoint} {options : CallOptions} {limit : RateLimit}
    {delay : Nat} (hlimit : e.rateLimit = some limit) (hthrottle : limit.throttle? = some delay) {now : Nat}
    {w : World ω} {request : Request} (h : Unlimited e options w (.pending now request)) :
    Unlimited e options (act transport now w request).1 ((act transport now w request).2.course now) := by
  have hturns := act_turns transport now w request
  generalize act transport now w request = next at hturns
  obtain ⟨w', turn⟩ := next
  cases turn with
  | wait duration next => exact ⟨hturns.asks_next h.1 _, hturns.unaccounted.2.2⟩
  | finish answer => exact hturns.not_limited hlimit hthrottle h.1 h.2

end World

namespace Session

variable {ω : Type}

/-- The limit of the endpoint leaves no room for a request at this time, and none before `r` milliseconds are
over. -/
def Over (s : Session ω) (e : Endpoint) (r : Nat) : Prop :=
  s.world.service.registry.get? e.id = some e ∧ ∃ limit, e.rateLimit = some limit ∧
    (s.world.service.limiter.check s.now e.id limit).1 = .limited r

variable {transport : Transport ω} {s after : Session ω} {e : Endpoint} {options : CallOptions} {fuel : Nat}
  {answer : Answer} {r : Nat}

/-- A caller that is not to wait fails at once. -/
theorem Over.refused (hover : s.Over e r)
    (hthrottle : ∀ limit, e.rateLimit = some limit → limit.throttle? = none)
    (h : s.request transport fuel e.id options = some (answer, after)) :
    answer = .error (.rateLimited e.id r) ∧ after.now = s.now ∧ after.world.wire = s.world.wire := by
  obtain ⟨he, limit, hlimit, hlimited⟩ := hover
  have henter := Limiter.enter_of_limited hlimited (hthrottle limit hlimit)
  rw [← hlimit] at henter
  have hturn : World.Turns transport s.now s.world (.arriving e.id options) _ _ := .found he (.refuse henter)
  have hact : (World.workshop transport).act s.now s.world (.arriving e.id options) = _ := hturn.act_eq
  obtain ⟨u, w⟩ := after
  cases alone_of_request h with
  | finish h =>
    cases hact.symm.trans h
    exact ⟨rfl, rfl, rfl⟩
  | wait h => cases hact.symm.trans h

/-- A caller that is to wait gets on later, and does not fail for want of room. -/
theorem Over.waits (hover : s.Over e r) {limit : RateLimit} {delay : Nat} (hlimit : e.rateLimit = some limit)
    (hthrottle : limit.throttle? = some delay) (hdelay : 0 < delay)
    (h : s.request transport fuel e.id options = some (answer, after)) :
    s.now < after.now ∧ ∀ id r, answer ≠ .error (.rateLimited id r) := by
  obtain ⟨he, limit', hlimit', hlimited⟩ := hover
  obtain rfl : limit' = limit := Option.some.inj (hlimit'.symm.trans hlimit)
  have halone := alone_of_request h
  constructor
  · have henter : s.world.service.limiter.enter s.now e.id e.rateLimit =
        (.wait delay, (s.world.service.limiter.check s.now e.id limit').2) := by
      rw [hlimit, Limiter.enter_some, hlimited, Limiter.entryAfter, hthrottle, Option.elim_some]
    have hturn : World.Turns transport s.now s.world (.arriving e.id options) _ _ :=
      .found he (.wait henter)
    have hle := (halone.rest hturn.act_eq).le
    omega
  · refine halone.invariant (P := fun _ w course => World.Unlimited e options w course)
      (fun _ _ _ => World.unlimited_turn transport hlimit hthrottle) (fun since now w _ _ _ hpending => ?_)
      ⟨⟨he, rfl⟩, trivial⟩
    exact ⟨hpending.1.congr (Service.pass_alike w.service since now).registry, hpending.2⟩

end Session

/-! ## The summary -/

/-- The summary of the limit ends with the mark for callers that wait. -/
def EndpointView.MarksQueue (v : EndpointView) : Prop :=
  ∃ text, v.rateLimit = some text ∧ "+queue".toList <:+ text.toList

/-- The limit of the endpoint says how long to wait between two checks. -/
def Endpoint.HasDelay (e : Endpoint) : Prop :=
  ∃ limit, e.rateLimit = some limit ∧ limit.throttleDelay ≠ none

theorem RateLimit.summary_marked_iff (limit : RateLimit) :
    "+queue".toList <:+ limit.summary.toList ↔ limit.queue = true := by
  unfold summary
  rw [String.toList_append]
  cases limit.queue with
  | true => exact iff_of_true (List.suffix_append _ _) rfl
  | false =>
    refine iff_of_false (fun ⟨rest, hrest⟩ => ?_) (by decide)
    -- Without the mark the text ends with the unit of the window.
    rw [String.toList_append] at hrest
    have hlast := congrArg List.getLast? hrest
    rw [List.append_assoc, List.getLast?_append, List.getLast?_append] at hlast
    cases hlast

theorem Endpoint.marksQueue_iff (e : Endpoint) :
    e.view.MarksQueue ↔ ∃ limit, e.rateLimit = some limit ∧ limit.queue = true := by
  unfold EndpointView.MarksQueue view
  cases e.rateLimit with
  | none => simp
  | some limit => simpa using limit.summary_marked_iff

/-- What the summary says of requests, waits and responses that are kept. -/
structure EndpointView.Tells (v : EndpointView) (e : Endpoint) : Prop where
  /-- No request makes more calls, whatever the transport does. -/
  calls_le : ∀ {ω : Type} (s : Session ω) (options : CallOptions) (n : Nat),
    s.world.service.registry.get? e.id = some e → s.Makes e.id options n → n ≤ v.maxAttempts
  /-- A service that has not been used lets each request through. -/
  lets_through : ∀ {ω : Type} (s : Session ω) (options : CallOptions), s.world.service.limiter = .empty →
    s.world.service.cache = .empty → s.LetsThrough e options
  /-- It is the greatest number of calls that a request that is let through makes with any transport. -/
  calls : ∀ {ω : Type} (s : Session ω) (options : CallOptions) (own : Option (String × String)),
    s.world.service.registry.get? e.id = some e →
      e.auth.header? s.world.service.tokens e.id = .ok own → s.LetsThrough e options →
        IsGreatest {n | s.Makes e.id options n} v.maxAttempts
  /-- With a time to live the response of a call is kept so long. -/
  stores : ∀ {ω : Type} (transport : Transport ω) (s after : Session ω) (fuel : Nat) (options : CallOptions)
    (envelope : Envelope) (ttl : Nat), s.world.service.registry.get? e.id = some e →
      s.request transport fuel e.id options = some (.ok envelope, after) → envelope.cached = false →
        v.cacheTtl = some ttl →
          after.world.service.cache.entries.get? (s.world.service.strategy.key e.id options) =
            some ⟨envelope, after.now + ttl⟩
  /-- Without one nothing is kept that was not before. -/
  stores_not : ∀ {ω : Type} (transport : Transport ω) (s after : Session ω) (fuel : Nat)
    (options : CallOptions) (answer : Answer), s.world.service.registry.get? e.id = some e →
      s.request transport fuel e.id options = some (answer, after) → v.cacheTtl = none →
        ∀ key entry, after.world.service.cache.entries.get? key = some entry →
          s.world.service.cache.entries.get? key = some entry
  /-- No limit is shown exactly if no number of calls, at whatever times, leads to a call that is limited. -/
  limits : v.rateLimit = none ↔ ∀ (times : List Nat) (now : Nat),
    ((Limiter.empty.performAll (times.map fun t => (t, .enter e.id e.rateLimit))).enter now e.id
      e.rateLimit).1 = .admitted
  /-- Callers over the limit wait, and never fail for want of room, if the mark is there and there is a delay
  to wait for. -/
  waits : v.MarksQueue → e.HasDelay → ∀ {ω : Type} (transport : Transport ω) (s after : Session ω)
    (fuel : Nat) (options : CallOptions) (answer : Answer) (r : Nat), s.Over e r →
      s.request transport fuel e.id options = some (answer, after) →
        s.now < after.now ∧ ∀ id r, answer ≠ .error (.rateLimited id r)
  /-- In all other cases they fail at once. -/
  refuses : ¬(v.MarksQueue ∧ e.HasDelay) → ∀ {ω : Type} (transport : Transport ω) (s after : Session ω)
    (fuel : Nat) (options : CallOptions) (answer : Answer) (r : Nat), s.Over e r →
      s.request transport fuel e.id options = some (answer, after) →
        answer = .error (.rateLimited e.id r) ∧ after.now = s.now ∧ after.world.wire = s.world.wire

/-- The summary of an endpoint that can be served tells the greatest number of calls that a request to it makes,
how long a response is kept, if at all, and whether there is a limit. The mark for callers that wait tells that
they do if the limit has a delay to wait for; without one they fail, mark or not. -/
theorem Endpoint.view_tells {e : Endpoint} (h : e.Valid) : e.view.Tells e where
  calls_le s options n he hmakes := e.maxAttempts_view h ▸ Session.makes_le he hmakes
  lets_through s options := Session.letsThrough_of_unused h
  calls s options own he hauth hthrough := by
    rw [Endpoint.maxAttempts_view h]
    exact ⟨Session.makes_budget h he hauth hthrough, fun _ => Session.makes_le he⟩
  stores transport s after fuel options envelope ttl he hrequest hfresh httl :=
    Session.stored_of_request he hrequest hfresh httl
  stores_not transport s after fuel options answer he hrequest httl := Session.kept_of_request he hrequest httl
  limits := by
    have hview : e.view.rateLimit = none ↔ e.rateLimit = none := Option.map_eq_none_iff
    rw [hview]
    refine ⟨fun hnone times now => by rw [hnone]; rfl, fun hall => ?_⟩
    by_contra hsome
    obtain ⟨limit, hlimit⟩ := Option.ne_none_iff_exists'.1 hsome
    obtain ⟨-, -, -, -, -, hlimits, -⟩ := Endpoint.valid_iff.1 h
    obtain ⟨-, hwindow, -⟩ := RateLimit.flaw?_eq_none_iff.1 (hlimits limit hlimit)
    have hcalls := hall (List.replicate limit.requests 0) 0
    rw [List.map_replicate, hlimit] at hcalls
    exact Limiter.limited_after_calls hwindow 0 hcalls
  waits hmarked hdelay ω transport s after fuel options answer r hover hrequest := by
    obtain ⟨limit, hlimit, hqueue⟩ := (e.marksQueue_iff).1 hmarked
    obtain ⟨limit', hlimit', hsome⟩ := hdelay
    obtain rfl : limit' = limit := Option.some.inj (hlimit'.symm.trans hlimit)
    obtain ⟨delay, hdelay⟩ := Option.ne_none_iff_exists'.1 hsome
    have hqueues := Endpoint.queues h hlimit hqueue hdelay
    exact hover.waits hlimit hqueues.throttle hqueues.delay_pos hrequest
  refuses hnot ω transport s after fuel options answer r hover hrequest := by
    refine hover.refused (fun limit hlimit => ?_) hrequest
    refine Limiter.throttle?_eq_none ?_
    by_cases hqueue : limit.queue = true
    · refine .inr (.inl ?_)
      by_contra hdelay
      exact hnot ⟨e.marksQueue_iff.2 ⟨limit, hlimit, hqueue⟩, limit, hlimit, hdelay⟩
    · exact .inl (Bool.eq_false_iff.2 hqueue)

/-- A session with the endpoint as the only one. -/
def Session.having (e : Endpoint) : Session Unit :=
  ((Session.start (.create .request none (.create 1 0)) ()).operate (.register e)).1

/-- An endpoint that takes one call a second, lets its callers check again every 300 ms, keeps responses for
100 ms and makes two more attempts. -/
def Endpoint.paced : Endpoint :=
  { Endpoint.plain "a" "A" "http://h/" with
    rateLimit := some ⟨1, 1000, true, some 300⟩
    cache := some ⟨true, 100, .memory⟩
    retries := some 2 }

/-- A request to it makes up to three calls. The response of the first one is kept, and a caller after it
waits. -/
theorem Endpoint.view_tells_paced :
    IsGreatest {n | (Session.having .paced).Makes "a" .plain n} 3 ∧ ∃ envelope s,
      (Session.having .paced).request .steady 9 "a" .plain = some (.ok envelope, s) ∧ s.now = 5 ∧
      s.world.service.cache.entries.get? "a" = some ⟨envelope, 105⟩ ∧
      ∀ (transport : Transport Unit) (fuel : Nat) (answer : Answer) (after : Session Unit),
        s.request transport fuel "a" .plain = some (answer, after) →
          5 < after.now ∧ ∀ id r, answer ≠ .error (.rateLimited id r) := by
  have htells : Endpoint.paced.view.Tells .paced := Endpoint.view_tells (by decide)
  have hmarked : Endpoint.paced.view.MarksQueue := ⟨"1/1000ms+queue", by decide, by decide⟩
  have hthrough := htells.lets_through (.having .paced) .plain rfl rfl
  have hcalls := htells.calls (.having .paced) .plain none rfl rfl hthrough
  obtain ⟨envelope, s, hrequest, hnow, hregistered, hfresh, hover⟩ : ∃ envelope s,
      (Session.having .paced).request .steady 9 "a" .plain = some (.ok envelope, s) ∧ s.now = 5 ∧
        s.world.service.registry.get? "a" = some .paced ∧ envelope.cached = false ∧ s.Over .paced 995 :=
    ⟨_, _, rfl, rfl, rfl, rfl, rfl, _, rfl, rfl⟩
  have hkept := htells.stores .steady (.having .paced) s 9 .plain envelope 100 rfl hrequest hfresh rfl
  refine ⟨hcalls, envelope, s, hrequest, hnow, ?_, fun transport fuel answer after hagain => ?_⟩
  · rw [hnow] at hkept
    exact hkept
  · rw [← hnow]
    exact htells.waits hmarked ⟨_, rfl, by decide⟩ transport s after fuel .plain answer 995 hover hagain

/-- An endpoint that takes one call a second and lets its callers queue without saying how long they wait
between two checks. -/
def Endpoint.unpaced : Endpoint :=
  { Endpoint.plain "a" "A" "http://h/" with rateLimit := some ⟨1, 1000, true, none⟩ }

/-- It is shown with the mark for callers that wait, and its second caller is turned away. -/
theorem Endpoint.marked_but_refuses : Endpoint.unpaced.Valid ∧
    Endpoint.unpaced.view.rateLimit = some "1/1000ms+queue" ∧
      ∃ answer s, (Session.having .unpaced).request .steady 9 "a" .plain = some (answer, s) ∧ s.now = 5 ∧
        s.Over .unpaced 995 ∧
          ∃ after, s.request .steady 9 "a" .plain = some (.error (.rateLimited "a" 995), after) :=
  ⟨by decide, by decide, _, _, rfl, rfl, ⟨rfl, _, rfl, rfl⟩, _, rfl⟩

end Egress
