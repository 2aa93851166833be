import Egress.Proofs.Call.Outcome
import Egress.Proofs.Service.Completion
import Egress.Proofs.Service.Transfer
import Mathlib.Logic.Relation

/-!
# Checks of health

The checks of all endpoints are requests side by side, one for each endpoint, that insist on a fresh response.

* `Session.Ends`: how such a request may end. It is refused by the limiter, or it has made a last attempt; a
  kept response never comes into it. `Ends.ok_iff` says when it has succeeded.
* `Session.Stands`: where the check of one endpoint stands in the run of all. Its own turns keep to it
  (`Pending.turn`), and so do the turns of the other checks (`Stands.other`).
* `Session.Checked`: the report of a check against its end, and what the check leaves behind.
* `Traffic.checkAll_reports` puts this together for every state that a service can come to.
-/

set_option autoImplicit false

namespace Egress

variable {ω : Type}

/-! ## Calls and replies -/

/-- The call is answered in time with a status from 200 to 299. -/
structure Call.SucceedsBy (call : Call) (reply : Reply) (response : Response) : Prop where
  inTime : reply.delay ≤ call.timeout
  outcome : reply.outcome = .ok response
  status : 200 ≤ response.status ∧ response.status ≤ 299

theorem Call.settle_eq_ok_iff {call : Call} {id : String} {reply : Reply} {envelope : Envelope} :
    (call.settle id reply).2 = .ok envelope ↔
      ∃ response, call.SucceedsBy reply response ∧ envelope = response.envelope call := by
  constructor
  · intro h
    unfold settle at h
    split at h
    · next htime =>
      cases houtcome : reply.outcome with
      | error error =>
        rw [houtcome] at h
        cases h
      | ok response =>
        rw [houtcome, classify] at h
        split at h
        · next hstatus =>
          cases h
          exact ⟨response, ⟨htime, houtcome, isSuccessStatus_iff.1 hstatus⟩, rfl⟩
        · cases h
    · cases h
  · rintro ⟨response, ⟨htime, houtcome, hstatus⟩, rfl⟩
    simp only [settle, htime, houtcome, classify, isSuccessStatus_iff.2 hstatus, if_true]

/-- Some calls lead from one state of the wire to another. -/
def Wire.Leads (transport : Transport ω) : Wire ω → Wire ω → Prop :=
  Relation.ReflTransGen fun wire wire' => ∃ now call, wire' = (wire.send transport now call).2

theorem Errand.leads_call (e : Errand) (transport : Transport ω) (tokens : Tokens) (now : Nat)
    (wire : Wire ω) : Wire.Leads transport wire (e.call transport tokens now wire).1 := by
  cases hprepare : Call.prepare tokens e.endpoint e.options with
  | error failure =>
    rw [e.call_of_error transport tokens now wire hprepare]
    exact .refl
  | ok call =>
    rw [e.call_of_ok transport tokens now wire hprepare]
    exact .single ⟨now, call, rfl⟩

namespace World

variable {transport : Transport ω} {now : Nat} {w w' : World ω} {request : Request}
  {turn : Turn Request Answer}

/-- A turn sends calls at most. -/
theorem Turns.leads (h : Turns transport now w request w' turn) : Wire.Leads transport w.wire w'.wire := by
  induction h with
  | unknown | wait | refuse | hit | again | answer => exact .refl
  | found _ _ ih => exact ih
  | @miss job _ s wire duration result _ _ hcall =>
    have hleads := job.errand.leads_call transport s.tokens now w.wire
    rw [hcall] at hleads
    exact hleads
  | @call job n wire duration result hcall =>
    have hleads := job.errand.leads_call transport w.service.tokens now w.wire
    rw [hcall] at hleads
    exact hleads

/-- A turn sets no token. -/
theorem Turns.tokens (h : Turns transport now w request w' turn) :
    w'.service.tokens = w.service.tokens := by
  induction h with
  | unknown | wait | refuse | call | again => rfl
  | found _ _ ih => exact ih
  | @hit job limiter envelope s henter hlookup =>
    have hlooked : s = (Service.lookup { w.service with limiter } now job).2 := by rw [hlookup]
    show s.tokens = _
    rw [hlooked, Service.lookup_tokens]
  | @miss job limiter s wire duration result henter hlookup hcall =>
    have hlooked : s = (Service.lookup { w.service with limiter } now job).2 := by rw [hlookup]
    show s.tokens = _
    rw [hlooked, Service.lookup_tokens]
  | @answer job n result answer hjudge => cases answer <;> rfl

theorem Turns.strategy (h : Turns transport now w request w' turn) :
    w'.service.strategy = w.service.strategy := by
  obtain ⟨halike, -⟩ | ⟨job, n, envelope, -, rfl, -⟩ := h.alike
  · exact halike.strategy
  · rfl

end World

/-- Requests for fresh responses have the key of those without options. -/
theorem KeyStrategy.key_fresh (strategy : KeyStrategy) (id : String) :
    strategy.key id .fresh = strategy.key id .plain := rfl

/-! ## How a check ends -/

namespace Session

variable (transport : Transport ω) (s : Session ω)

/-- The call was sent in a check of `e` that is made in the session, and is over at `time` by the reply. -/
structure Attempt (e : Endpoint) (wire : Wire ω) (time : Nat) (call : Call) (reply : Reply) : Prop where
  prepared : Call.prepare s.world.service.tokens e .fresh = .ok call
  sent : ∃ before began after, Wire.Leads transport s.world.wire before ∧ s.now ≤ began ∧
    before.send transport began call = (reply, after) ∧ Wire.Leads transport after wire ∧
    time = began + (call.settle e.id reply).1

/-- The result of an attempt, with its call and the reply if one was sent. -/
inductive Brings (e : Endpoint) (wire : Wire ω) (time : Nat) :
    Option (Call × Reply) → Except Failure Envelope → Prop
  | unsent {failure : Failure} (h : Call.prepare s.world.service.tokens e .fresh = .error failure) :
      Brings e wire time none (.error failure)
  | replied {call : Call} {reply : Reply} (h : s.Attempt transport e wire time call reply) :
      Brings e wire time (some (call, reply)) (call.settle e.id reply).2

/-- The end of a check: it is over the limit, or its last attempt is not followed by another one. -/
inductive Ends (e : Endpoint) (wire : Wire ω) (time : Nat) : Option (Call × Reply) → Answer → Prop
  | refused (retryAfter : Nat) : Ends e wire time none (.error (.rateLimited e.id retryAfter))
  | judged {last : Option (Call × Reply)} {result answer : Except Failure Envelope} {n : Nat}
      (h : s.Brings transport e wire time last result)
      (hjudge : judge e.effectiveRetryPolicy? e.id n result = .finished answer) :
      Ends e wire time last answer

/-- The last attempt was answered in time with a status from 200 to 299. -/
def Succeeded (last : Option (Call × Reply)) : Prop :=
  ∃ call reply response, last = some (call, reply) ∧ call.SucceedsBy reply response

variable {transport s}
variable {e : Endpoint} {wire wire' : Wire ω} {time : Nat} {last : Option (Call × Reply)}

theorem Brings.mono {result : Except Failure Envelope} (h : s.Brings transport e wire time last result)
    (hleads : Wire.Leads transport wire wire') : s.Brings transport e wire' time last result := by
  cases h with
  | unsent h => exact .unsent h
  | replied h =>
    obtain ⟨before, began, after, hbefore, hbegan, hsend, hafter, htime⟩ := h.sent
    exact .replied ⟨h.prepared, before, began, after, hbefore, hbegan, hsend, hafter.trans hleads, htime⟩

theorem Ends.mono {answer : Answer} (h : s.Ends transport e wire time last answer)
    (hleads : Wire.Leads transport wire wire') : s.Ends transport e wire' time last answer := by
  cases h with
  | refused retryAfter => exact .refused retryAfter
  | judged h hjudge => exact .judged (h.mono hleads) hjudge

theorem Brings.ok_iff {result : Except Failure Envelope} (h : s.Brings transport e wire time last result)
    (envelope : Envelope) :
    result = .ok envelope ↔ ∃ call reply response, last = some (call, reply) ∧
      call.SucceedsBy reply response ∧ envelope = response.envelope call := by
  cases h with
  | unsent h => exact iff_of_false (by simp) (by rintro ⟨call, reply, response, hlast, -⟩; cases hlast)
  | @replied call reply h =>
    rw [Call.settle_eq_ok_iff]
    constructor
    · rintro ⟨response, hsucceeds, rfl⟩
      exact ⟨call, reply, response, rfl, hsucceeds, rfl⟩
    · rintro ⟨call', reply', response, hlast, hsucceeds, rfl⟩
      cases hlast
      exact ⟨response, hsucceeds, rfl⟩

/-- A check brings a response exactly if its last attempt has succeeded; it is the response to that call. -/
theorem Ends.ok_iff {answer : Answer} (h : s.Ends transport e wire time last answer) (envelope : Envelope) :
    answer = .ok envelope ↔ ∃ call reply response, last = some (call, reply) ∧
      call.SucceedsBy reply response ∧ envelope = response.envelope call := by
  cases h with
  | refused retryAfter =>
    exact iff_of_false (by simp) (by rintro ⟨call, reply, response, hlast, -⟩; cases hlast)
  | @judged _ result _ n h hjudge =>
    rw [← h.ok_iff]
    constructor
    · rintro rfl
      exact judge_ok hjudge
    · rintro rfl
      cases hjudge
      rfl

theorem Ends.succeeded_iff {answer : Answer} (h : s.Ends transport e wire time last answer) :
    Succeeded last ↔ ∃ envelope, answer = .ok envelope := by
  constructor
  · rintro ⟨call, reply, response, hlast, hsucceeds⟩
    exact ⟨_, (h.ok_iff _).2 ⟨call, reply, response, hlast, hsucceeds, rfl⟩⟩
  · rintro ⟨envelope, hok⟩
    obtain ⟨call, reply, response, hlast, hsucceeds, -⟩ := (h.ok_iff envelope).1 hok
    exact ⟨call, reply, response, hlast, hsucceeds⟩

/-- An attempt of a check brings a result. -/
theorem exists_brings {job : Job} (hendpoint : job.endpoint = e) (hoptions : job.options = .fresh)
    {w : World ω} (hwire : Wire.Leads transport s.world.wire w.wire) {now : Nat} (hnow : s.now ≤ now)
    {duration : Nat} {result : Except Failure Envelope}
    (hcall : job.errand.call transport s.world.service.tokens now w.wire = (wire, duration, result)) :
    ∃ last, s.Brings transport e wire (now + duration) last result := by
  subst hendpoint
  have hsame : job.errand.options = .fresh := hoptions
  cases hprepare : Call.prepare s.world.service.tokens job.endpoint .fresh with
  | error failure =>
    rw [job.errand.call_of_error transport _ now w.wire (by rw [hsame]; exact hprepare)] at hcall
    cases hcall
    exact ⟨none, .unsent hprepare⟩
  | ok call =>
    rw [job.errand.call_of_ok transport _ now w.wire (by rw [hsame]; exact hprepare)] at hcall
    obtain ⟨rfl, hsettle⟩ := Prod.mk.inj hcall
    obtain rfl : _ = result := congrArg Prod.snd hsettle
    obtain rfl : _ = duration := congrArg Prod.fst hsettle
    exact ⟨_, .replied ⟨hprepare, w.wire, now, _, hwire, hnow, rfl, .refl, rfl⟩⟩

end Session

/-! ## Where a check stands -/

namespace Session

variable (transport : Transport ω) (s : Session ω)

/-- What no check changes: the endpoints, their tokens and the keys. Calls may have been sent. -/
structure Going (w : World ω) : Prop where
  registry : w.service.registry = s.world.service.registry
  strategy : w.service.strategy = s.world.service.strategy
  tokens : w.service.tokens = s.world.service.tokens
  wire : Wire.Leads transport s.world.wire w.wire

/-- The request is a check of `e`. What it waits for is the result of an attempt. -/
def Checks (e : Endpoint) (wire : Wire ω) (wake : Nat) : Request → Prop
  | .arriving id options => id = e.id ∧ options = .fresh
  | .queueing job => job.endpoint = e ∧ job.options = .fresh
  | .working job (.pausing _) => job.endpoint = e ∧ job.options = .fresh
  | .working job (.calling _ result) => job.endpoint = e ∧ job.options = .fresh ∧
      ∃ last, s.Brings transport e wire wake last result

/-- The check of `e` is under way. Nothing has been recorded of it. -/
structure Pending (e : Endpoint) (w : World ω) (wake : Nat) (request : Request) : Prop where
  checks : s.Checks transport e w.wire wake request
  calling : request.Calling
  started : s.now ≤ wake
  tally : w.service.metrics.tally? e.id = s.world.service.metrics.tally? e.id

/-- The response is what is kept under the key of requests without options, as long as it is not expired. -/
def Keeps (e : Endpoint) (now : Nat) (w : World ω) (time : Nat) (envelope : Envelope) : Prop :=
  ∀ ttl, e.cacheTtl? = some ttl →
    let kept := w.service.cache.entries.get? (s.world.service.strategy.key e.id .plain)
    kept = some ⟨envelope, time + ttl⟩ ∨ kept = none ∧ time + ttl ≤ now

/-- The check of `e` is answered. One record was added, and the response was kept. -/
structure Answered (e : Endpoint) (now : Nat) (w : World ω) (time : Nat) (answer : Answer) : Prop where
  ends : ∃ last, s.Ends transport e w.wire time last answer
  started : s.now ≤ time
  ended : time ≤ now
  tally : w.service.metrics.tally? e.id =
    some (((s.world.service.metrics.tally? e.id).getD (.ofAnswers [])).add answer)
  keeps : ∀ envelope, answer = .ok envelope → s.Keeps e now w time envelope

/-- Where the check of a registered endpoint stands. -/
def Stands (e : Endpoint) (now : Nat) (w : World ω) (course : Course Request Answer) : Prop :=
  s.world.service.registry.get? e.id = some e ∧
    match course with
    | .pending wake request => s.Pending transport e w wake request
    | .done time answer => s.Answered transport e now w time answer

variable {transport s}
variable {e : Endpoint} {now time wake : Nat} {w w' : World ω} {request : Request}

theorem Going.turn {turn : Turn Request Answer} (h : s.Going transport w)
    (hturns : World.Turns transport now w request w' turn) :
    s.Going transport w' :=
  ⟨hturns.registry.trans h.registry, hturns.strategy.trans h.strategy, hturns.tokens.trans h.tokens,
    h.wire.trans hturns.leads⟩

theorem Checks.mono {wire wire' : Wire ω} (h : s.Checks transport e wire wake request)
    (hleads : Wire.Leads transport wire wire') : s.Checks transport e wire' wake request := by
  match request with
  | .arriving .. => exact h
  | .queueing _ => exact h
  | .working _ (.pausing _) => exact h
  | .working _ (.calling _ result) =>
    obtain ⟨hendpoint, hoptions, last, hbrings⟩ := h
    exact ⟨hendpoint, hoptions, last, hbrings.mono hleads⟩

/-- The check of one endpoint is of no other one. -/
theorem Checks.id {wire : Wire ω} (h : s.Checks transport e wire wake request) : request.id = e.id := by
  match request with
  | .arriving .. => exact h.1
  | .queueing _ => exact congrArg Endpoint.id h.1
  | .working _ (.pausing _) => exact congrArg Endpoint.id h.1
  | .working _ (.calling _ _) => exact congrArg Endpoint.id h.1

theorem Checks.job {wire : Wire ω} (h : s.Checks transport e wire wake request) {job : Job}
    (hjob : request.job? = some job) : job.endpoint = e := by
  match request with
  | .queueing _ => cases hjob; exact h.1
  | .working _ (.pausing _) => cases hjob; exact h.1
  | .working _ (.calling _ _) => cases hjob; exact h.1

/-- A check that waits on is still one. -/
theorem Checks.next {next : Request} {duration : Nat} (h : s.Checks transport e w.wire now request)
    (hgoing : s.Going transport w) (he : s.world.service.registry.get? e.id = some e) (hnow : s.now ≤ now)
    (hturns : World.Turns transport now w request w' (.wait duration next)) :
    s.Checks transport e w'.wire (now + duration) next := by
  generalize hturn : Turn.wait duration next = turn at hturns
  induction hturns with
  | unknown | refuse | hit | answer => cases hturn
  | @found id options e' _ _ hid _ ih =>
    obtain ⟨rfl, rfl⟩ := h
    rw [hgoing.registry, he] at hid
    cases hid
    exact ih ⟨rfl, rfl⟩ hturn
  | wait =>
    cases hturn
    exact h
  | again =>
    cases hturn
    exact ⟨h.1, h.2.1⟩
  | @miss job limiter service wire _ result _ hlookup hcall =>
    cases hturn
    have htokens := Service.lookup_tokens { w.service with limiter } now job
    rw [hlookup] at htokens
    rw [htokens.trans hgoing.tokens] at hcall
    exact ⟨h.1, h.2, exists_brings h.1 h.2 hgoing.wire hnow hcall⟩
  | @call job n wire _ result hcall =>
    cases hturn
    rw [hgoing.tokens] at hcall
    exact ⟨h.1, h.2, exists_brings h.1 h.2 hgoing.wire hnow hcall⟩

/-- A check that is answered has ended, and its response is kept. -/
theorem Checks.finish {answer : Answer} (h : s.Checks transport e w.wire now request)
    (hgoing : s.Going transport w) (he : s.world.service.registry.get? e.id = some e)
    (hturns : World.Turns transport now w request w' (.finish answer)) :
    (∃ last, s.Ends transport e w'.wire now last answer) ∧
      ∀ envelope, answer = .ok envelope → s.Keeps e now w' now envelope := by
  generalize hturn : Turn.finish answer = turn at hturns
  induction hturns with
  | unknown hid =>
    rw [h.1, hgoing.registry, he] at hid
    cases hid
  | @found id options e' _ _ hid _ ih =>
    obtain ⟨rfl, rfl⟩ := h
    rw [hgoing.registry, he] at hid
    cases hid
    exact ih ⟨rfl, rfl⟩ hturn
  | wait | miss | call | again => cases hturn
  | @refuse job retryAfter limiter henter =>
    cases hturn
    exact ⟨⟨none, h.1 ▸ .refused retryAfter⟩, fun envelope hok => by cases hok⟩
  | @hit job limiter envelope service henter hlookup =>
    -- a check passes by what is kept
    have hnone := Service.lookup_fst { w.service with limiter } now job
    rw [hlookup, h.2] at hnone
    cases hnone
  | @answer job n result _ hjudge =>
    cases hturn
    obtain ⟨rfl, hoptions, last, hbrings⟩ := h
    refine ⟨⟨last, .judged ?_ hjudge⟩, ?_⟩
    · cases answer <;> exact hbrings
    · rintro envelope rfl ttl httl
      obtain ⟨events, heq⟩ := w.service.conclude_ok now job envelope
      have hkey : w.service.strategy.key job.endpoint.id job.options =
          s.world.service.strategy.key job.endpoint.id .plain := by
        rw [hoptions, hgoing.strategy, KeyStrategy.key_fresh]
      simp only [heq, Service.cacheKey?, httl, hkey, Option.map_some, Option.elim_some, Cache.put,
        Dict.get?_insert_self, true_or]

/-- What is kept of a check is kept as long as nothing else is kept under its key. -/
theorem Keeps.alike {envelope : Envelope} (h : s.Keeps e now w time envelope) {now' : Nat}
    (hle : now ≤ now') (halike : Service.Alike now' w.service w'.service) :
    s.Keeps e now' w' time envelope := by
  intro ttl httl kept
  obtain hkept | ⟨hnone, hexpired⟩ := h ttl httl
  · have hpeek := halike.peek now' (s.world.service.strategy.key e.id .plain) (Nat.le_refl now')
    cases hafter : kept with
    | some entry =>
      have hbefore := halike.kept _ entry hafter
      rw [hkept] at hbefore
      exact .inl hbefore.symm
    | none =>
      refine .inr ⟨rfl, Nat.le_of_not_lt fun hlt => ?_⟩
      have hsome : w.service.cache.peek now' (s.world.service.strategy.key e.id .plain) = some envelope :=
        Cache.peek_eq_some_iff.2 ⟨_, hkept, hlt⟩
      rw [← hpeek, Cache.peek_eq_some_iff] at hsome
      obtain ⟨entry, hentry, -⟩ := hsome
      cases hafter.symm.trans hentry
  · refine .inr ⟨?_, Nat.le_trans hexpired hle⟩
    cases hafter : kept with
    | none => rfl
    | some entry => cases hnone.symm.trans (halike.kept _ entry hafter)

/-! ## The run of all checks -/

theorem Going.own (h : s.Going transport w) (hvalid : s.world.service.registry.Valid) :
    w.service.OwnIds := by
  intro id e' he'
  obtain ⟨hid, hflaw⟩ := hvalid id e' (h.registry ▸ he')
  exact ⟨hid, hid ▸ Endpoint.keySeparator_notMem_id hflaw⟩

/-- Time that passes changes nothing about a check. -/
theorem Stands.pass {since : Nat} {course : Course Request Answer}
    (h : s.Stands transport e since w course) (hle : since ≤ now) :
    s.Stands transport e now ((World.workshop transport).pass since now w) course := by
  have halike := w.service.pass_alike since now
  have htally : (w.service.pass since now).metrics.tally? e.id = w.service.metrics.tally? e.id := by
    rw [Service.pass_metrics]
  obtain ⟨he, h⟩ := h
  refine ⟨he, ?_⟩
  cases course with
  | pending wake request => exact ⟨h.checks, h.calling, h.started, htally.trans h.tally⟩
  | done time answer =>
    exact ⟨h.ends, h.started, Nat.le_trans h.ended hle, htally.trans h.tally,
      fun envelope hok => (h.keeps envelope hok).alike hle halike⟩

/-- A check takes its turn: it waits on, or it is answered. -/
theorem Pending.turn {turn : Turn Request Answer} (h : s.Pending transport e w now request)
    (he : s.world.service.registry.get? e.id = some e) (hgoing : s.Going transport w)
    (hown : w.service.OwnIds) (hturns : World.Turns transport now w request w' turn) :
    s.Stands transport e now w' (turn.course now) := by
  refine ⟨he, ?_⟩
  cases turn with
  | wait duration next =>
    obtain ⟨hmetrics, -, hcalling⟩ := hturns.unaccounted
    exact ⟨h.checks.next hgoing he h.started hturns, hcalling, Nat.le_add_right_of_le h.started,
      by rw [hmetrics]; exact h.tally⟩
  | finish answer =>
    obtain ⟨hends, hkeeps⟩ := h.checks.finish hgoing he hturns
    refine ⟨hends, h.started, Nat.le_refl now, ?_, hkeeps⟩
    obtain ⟨hnone, -⟩ | haccounted := hturns.accounted hown h.calling
    · rw [h.checks.id, hgoing.registry, he] at hnone
      cases hnone
    · rw [haccounted.tally, if_pos h.checks.id, h.tally]

/-- The turns of the check of one endpoint change nothing about that of another one. -/
theorem Stands.other {turn : Turn Request Answer} {course : Course Request Answer}
    (h : s.Stands transport e now w course) (hown : w.service.OwnIds) (hplain : request.Plain)
    (hid : request.id ≠ e.id) (hvalid : s.world.service.registry.Valid)
    (hturns : World.Turns transport now w request w' turn) : s.Stands transport e now w' course := by
  obtain ⟨he, h⟩ := h
  have hpart := hturns.part_of_ne hown hplain hid
  have htally : w'.service.metrics.tally? e.id = w.service.metrics.tally? e.id :=
    congrArg (fun p => p.stats.map Stats.tally) hpart
  refine ⟨he, ?_⟩
  cases course with
  | pending wake request =>
    exact ⟨h.checks.mono hturns.leads, h.calling, h.started, htally.trans h.tally⟩
  | done time answer =>
    obtain ⟨last, hends⟩ := h.ends
    refine ⟨⟨last, hends.mono hturns.leads⟩, h.started, h.ended, htally.trans h.tally,
      fun envelope hok ttl httl => ?_⟩
    have howner : Cache.owner (s.world.service.strategy.key e.id .plain) = e.id :=
      Cache.owner_key _ _ (Endpoint.keySeparator_notMem_id (hvalid e.id e he).2)
    have hkept := Cache.owned_eq_iff.1 (congrArg Part.responses hpart) _ howner
    dsimp only
    rw [hkept]
    exact h.keeps envelope hok ttl httl

/-- In the run of all checks each of them stands as it should. -/
theorem upholds_checks (hvalid : s.world.service.registry.Valid) :
    Schedule.Upholds (World.workshop transport) (s.Going transport) (s.Stands transport) where
  good_pass since now w h :=
    have halike := w.service.pass_alike since now
    ⟨halike.registry.trans h.registry, halike.strategy.trans h.strategy,
      (w.service.pass_tokens since now).trans h.tokens, h.wire⟩
  pass e since now w course hle _ h := h.pass hle
  good_act e now w request hgoing _ := hgoing.turn (World.act_turns transport now w request)
  own e now w request hgoing h :=
    h.2.turn h.1 hgoing (hgoing.own hvalid) (World.act_turns transport now w request)
  other e e' now w request course hne hgoing h h' := by
    have hid : request.id ≠ e'.id := by
      rw [h.2.checks.id]
      intro heq
      have he := h.1
      rw [heq, h'.1] at he
      exact hne (Option.some.inj he).symm
    have hplain : request.Plain := by
      intro job hjob
      rw [h.2.checks.job hjob]
      exact Endpoint.keySeparator_notMem_id (hvalid e.id e h.1).2
    exact h'.other (hgoing.own hvalid) hplain hid hvalid (World.act_turns transport now w request)

/-- The requests of all checks are answered, each with the end of its own check. -/
theorem exists_answered (transport : Transport ω) (hvalid : s.world.service.registry.Valid) :
    ∃ enough answers after,
      (∀ fuel, enough ≤ fuel → s.requests transport fuel
        (s.world.service.registry.ids.map fun id => (id, .fresh)) = some (answers, after)) ∧
      List.Forall₂ (fun e answer => s.world.service.registry.get? e.id = some e ∧
          s.Answered transport e after.now after.world answer.1 answer.2)
        s.world.service.registry.list answers := by
  have hcoherent := hvalid.coherent
  obtain ⟨enough, answers, after, -, hrequests⟩ := s.exists_requests transport
    (s.world.service.registry.ids.map fun id => (id, .fresh))
  refine ⟨enough, answers, after, hrequests, ?_⟩
  have hends := hrequests enough (Nat.le_refl enough)
  obtain ⟨outcome, hrun, heq⟩ := Option.map_eq_some_iff.1 hends
  cases heq
  have hcourses : (s.world.service.registry.ids.map fun id => (id, CallOptions.fresh)).map
      (fun call => (.pending s.now (.arriving call.1 call.2) : Course Request Answer)) =
        s.world.service.registry.list.map fun e => .pending s.now (.arriving e.id .fresh) := by
    rw [← hcoherent.ids_list, List.map_map, List.map_map]
    rfl
  rw [hcourses] at hrun
  have hnames : s.world.service.registry.list.Nodup := by
    refine List.Nodup.of_map (·.id) ?_
    rw [hcoherent.ids_list]
    exact s.world.service.registry.endpoints.ascending.nodup
  have hnow : Schedule.NotBefore s.now
      (s.world.service.registry.list.map fun e =>
        (.pending s.now (.arriving e.id .fresh) : Course Request Answer)) := by
    intro time task hmem
    obtain ⟨e, -, heq⟩ := List.mem_map.1 hmem
    cases heq
    exact Nat.le_refl s.now
  have hstart : List.Forall₂ (fun e course => s.Stands transport e s.now s.world course)
      s.world.service.registry.list
      (s.world.service.registry.list.map fun e => .pending s.now (.arriving e.id .fresh)) := by
    rw [List.forall₂_map_right_iff, List.forall₂_same]
    exact fun e hmem => ⟨hvalid.mem_list.1 hmem, ⟨rfl, rfl⟩, trivial, Nat.le_refl s.now, rfl⟩
  exact ((upholds_checks hvalid).run hnames ⟨rfl, rfl, rfl, .refl⟩ hnow hstart hrun).2

end Session

/-! ## Reports -/

namespace HealthReport

theorem ofResult_ok (id : String) (nanos : Nat) {envelope : Envelope}
    (h : 200 ≤ envelope.status ∧ envelope.status ≤ 299) :
    ofResult id nanos (.ok envelope) = ⟨id, if nanos < Health.slow then .healthy else .degraded,
      nanos / nanosPerMilli, some envelope.status, none⟩ := by
  simp only [ofResult, isSuccessStatus_iff.2 h, if_true]

/-- A success is slow from a second on. -/
theorem lt_slow_iff (ms : Nat) : ms * nanosPerMilli < Health.slow ↔ ms < 1000 := by
  simp only [nanosPerMilli, Health.slow, nanosPerSecond]
  omega

end HealthReport

namespace Session

/-- What the report of the check of `e` says that was answered at `time`, and what the check leaves behind. -/
structure Checked (transport : Transport ω) (s after : Session ω) (e : Endpoint) (report : HealthReport)
    (time : Nat) (answer : Answer) (last : Option (Call × Reply)) : Prop where
  ends : s.Ends transport e after.world.wire time last answer
  started : s.now ≤ time
  ended : time ≤ after.now
  healthy : report.health = .healthy ↔ Succeeded last ∧ time < s.now + 1000
  degraded : report.health = .degraded ↔ Succeeded last ∧ s.now + 1000 ≤ time
  unhealthy : report.health = .unhealthy ↔ ¬Succeeded last
  failed : report.health = .unhealthy → ∃ failure, answer = .error failure ∧
    report.error = some failure.message ∧
    ∀ code, report.status = some code ↔ ∃ text, failure = .http code text
  /-- The response is that of the last call and not a kept one. -/
  fresh : ∀ envelope, answer = .ok envelope → envelope.cached = false ∧
    ∃ call reply response, last = some (call, reply) ∧ call.SucceedsBy reply response ∧
      envelope = response.envelope call
  counted : ∃ stats stats', s.world.service.metrics.get? e.id = some stats ∧
    after.world.service.metrics.get? e.id = some stats' ∧ stats'.total = stats.total + 1
  keeps : ∀ envelope, answer = .ok envelope → s.Keeps e after.now after.world time envelope

variable {transport : Transport ω} {s after : Session ω} {e : Endpoint} {time : Nat} {answer : Answer}
  {last : Option (Call × Reply)}

theorem Ends.health (h : s.Ends transport e after.world.wire time last answer) (hstart : s.now ≤ time) :
    let health := (HealthReport.ofResult e.id ((time - s.now) * nanosPerMilli) answer).health
    (health = .healthy ↔ Succeeded last ∧ time < s.now + 1000) ∧
      (health = .degraded ↔ Succeeded last ∧ s.now + 1000 ≤ time) ∧
      (health = .unhealthy ↔ ¬Succeeded last) := by
  rw [h.succeeded_iff]
  cases answer with
  | error failure => simp [HealthReport.ofResult]
  | ok envelope =>
    obtain ⟨call, reply, response, -, hsucceeds, rfl⟩ := (h.ok_iff envelope).1 rfl
    have hfast : (time - s.now) * nanosPerMilli < Health.slow ↔ time < s.now + 1000 := by
      rw [HealthReport.lt_slow_iff]
      omega
    rw [HealthReport.ofResult_ok _ _ hsucceeds.status, ← Nat.not_lt]
    by_cases hlt : time < s.now + 1000
    · simp [hfast, hlt]
    · simp [hfast, hlt]

/-- The reports are those of the answers, one for each endpoint. -/
theorem checkAll_eq (hvalid : s.world.service.registry.Valid) {fuel : Nat} {answers : List (Nat × Answer)}
    (h : s.requests transport fuel (s.world.service.registry.ids.map fun id => (id, .fresh)) =
      some (answers, after)) :
    s.checkAll transport fuel = some ((s.world.service.registry.list.zip answers).map fun r =>
      .ofResult r.1.id ((r.2.1 - s.now) * nanosPerMilli) r.2.2, after) := by
  rw [checkAll, checks, h, ← hvalid.map_id, Option.bind_eq_bind, Option.bind_some]
  dsimp only
  rw [List.zip_map_left, List.map_map]
  rfl

/-- The report of a check that is answered tells how it ended. -/
theorem Answered.checked (h : s.Answered transport e after.now after.world time answer)
    (hstats : s.world.service.metrics.get? e.id ≠ none) :
    ∃ last, s.Checked transport after e
      (HealthReport.ofResult e.id ((time - s.now) * nanosPerMilli) answer) time answer last := by
  obtain ⟨last, hends⟩ := h.ends
  obtain ⟨hhealthy, hdegraded, hunhealthy⟩ := hends.health h.started
  refine ⟨last, hends, h.started, h.ended, hhealthy, hdegraded, hunhealthy, fun hill => ?_,
    fun envelope hok => ?_, ?_, h.keeps⟩
  · cases answer with
    | ok envelope => exact absurd (hends.succeeded_iff.2 ⟨envelope, rfl⟩) (hunhealthy.1 hill)
    | error failure =>
      refine ⟨failure, rfl, rfl, fun code => ?_⟩
      cases failure <;> simp [HealthReport.ofResult, Failure.status?]
  · obtain ⟨call, reply, response, hlast, hsucceeds, rfl⟩ := (hends.ok_iff envelope).1 hok
    exact ⟨rfl, call, reply, response, hlast, hsucceeds, rfl⟩
  · obtain ⟨stats, hbefore⟩ := Option.ne_none_iff_exists'.1 hstats
    have htally := h.tally
    rw [Metrics.tally?, Metrics.tally?, hbefore] at htally
    obtain ⟨stats', hafter, htally⟩ := Option.map_eq_some_iff.1 htally
    exact ⟨stats, stats', hbefore, hafter, congrArg Tally.total htally⟩

end Session

namespace Traffic

/-- Whatever is in flight, there are statistics of every registered endpoint. -/
theorem get?_metrics_run (transport : Transport ω) (strategy : KeyStrategy) (tokens : Tokens)
    (events : Channel) (state : ω) (moves : List Move) {id : String} :
    let service := ((start strategy tokens events state).run transport moves).world.service
    service.registry.get? id ≠ none → service.metrics.get? id ≠ none := by
  intro service hid hnone
  have hbalanced : Accounts.Balanced events.log
      ((Accounts.start strategy tokens events state).run transport moves) :=
    Accounts.balanced_run transport (Accounts.balanced_start ..) (sound_start ..) moves
  have htally := hbalanced.tallied id
  rw [Accounts.traffic_run] at htally
  have huncounted : service.metrics.tally? id = none := by
    rw [Metrics.tally?, hnone]
    rfl
  cases (htally hid).symm.trans huncounted

/-- In every state that a service can come to the checks of all endpoints are carried out, whatever the
transport replies, and there is one report for each id, ascending. A report is healthy or degraded exactly if
the last call for it was answered with a status from 200 to 299, and healthy exactly if the request was over
less than a second after the start, with all its waits. Otherwise it is unhealthy, with the message of the
failure and the status of a failure that has one. No kept response is used, each check is counted once, and
what it brings takes the place of the kept response to a request without options. -/
theorem checkAll_reports (transport : Transport ω) (strategy : KeyStrategy) (tokens : Tokens)
    (events : Channel) (state : ω) (moves : List Move) :
    let t := (start strategy tokens events state).run transport moves
    let s : Session ω := ⟨t.now, t.world⟩
    let registry := t.world.service.registry
    registry.ids.Pairwise (· < ·) ∧ (∀ id, id ∈ registry.ids ↔ registry.get? id ≠ none) ∧
    ∃ enough answers, ∃ reports : List HealthReport, ∃ after,
      (∀ fuel, enough ≤ fuel →
        s.requests transport fuel (registry.ids.map fun id => (id, .fresh)) = some (answers, after) ∧
        s.checkAll transport fuel = some (reports, after)) ∧
      reports.map (·.id) = registry.ids ∧
      ∀ (i : Nat) report, reports[i]? = some report → ∃ e time answer last,
        registry.get? report.id = some e ∧ answers[i]? = some (time, answer) ∧
        s.Checked transport after e report time answer last := by
  intro t s registry
  have hvalid : registry.Valid := valid_run (t := start strategy tokens events state)
    Registry.valid_empty transport moves
  have hcoherent := hvalid.coherent
  obtain ⟨enough, answers, after, hrequests, hanswered⟩ := s.exists_answered transport hvalid
  obtain ⟨hlength, hall⟩ := List.forall₂_iff_zip.1 hanswered
  refine ⟨hcoherent.ascending, fun id => Registry.mem_ids, enough, answers, _, after,
    fun fuel hfuel => ⟨hrequests fuel hfuel, Session.checkAll_eq hvalid (hrequests fuel hfuel)⟩, ?_, ?_⟩
  · rw [List.map_map]
    have hids := congrArg (List.map (·.id)) (List.map_fst_zip (Nat.le_of_eq hlength))
    rw [List.map_map, hcoherent.ids_list] at hids
    exact hids
  · intro i report hreport
    rw [List.getElem?_map] at hreport
    obtain ⟨⟨e, time, answer⟩, hpair, rfl⟩ := Option.map_eq_some_iff.1 hreport
    obtain ⟨he, hanswer⟩ := hall (List.mem_of_getElem? hpair)
    have hregistered : registry.get? e.id ≠ none := Option.ne_none_iff_exists'.2 ⟨e, he⟩
    have hstats := get?_metrics_run transport strategy tokens events state moves hregistered
    obtain ⟨last, hchecked⟩ := hanswer.checked hstats
    exact ⟨e, time, answer, last, he, (List.getElem?_zip_eq_some.1 hpair).2, hchecked⟩

end Traffic

/-- A transport that answers every call with no content after a second. -/
def Transport.slow : Transport Unit :=
  ⟨fun _ _ _ => (⟨1000, .ok ⟨204, "No Content", [], []⟩⟩, ())⟩

/-- The only endpoint is degraded, and its check is the only request that was counted. -/
theorem Traffic.checkAll_reports_slow :
    let t := (start .request none (.create 1 0) ()).run .slow [.operate (.register .keeping)]
    let s : Session Unit := ⟨t.now, t.world⟩
    ∃ enough report after, (∀ fuel, enough ≤ fuel → s.checkAll .slow fuel = some ([report], after)) ∧
      report.id = "a" ∧ report.health = .degraded ∧
      ∃ stats, after.world.service.metrics.get? "a" = some stats ∧ stats.total = 1 := by
  intro t s
  obtain ⟨-, -, enough, answers, reports, after, hruns, hids, hchecked⟩ :=
    checkAll_reports .slow .request none (.create 1 0) () [.operate (.register .keeping)]
  have hone : t.world.service.registry.ids = ["a"] := by decide +kernel
  obtain ⟨report, rfl, hid⟩ := List.map_eq_singleton_iff.1 (hids.trans hone)
  obtain ⟨e, time, answer, last, he, hanswer, hreport⟩ := hchecked 0 report rfl
  rw [hid] at he
  obtain rfl : Endpoint.keeping = e := Option.some.inj he
  -- nine turns are enough
  have hends : (s.requests .slow 9 [("a", .fresh)]).map (fun r => r.1.map fun a => (a.1, isFailed a.2)) =
      some [(1000, false)] := by decide +kernel
  obtain ⟨r, hnine, hfew⟩ := Option.map_eq_some_iff.1 hends
  have hboth := (hruns (max 9 enough) (Nat.le_max_right 9 enough)).1
  change s.requests .slow _ (t.world.service.registry.ids.map fun id => (id, .fresh)) = _ at hboth
  rw [hone] at hboth
  obtain rfl := Option.some.inj ((Session.requests_mono hnine (Nat.le_max_left 9 enough)).symm.trans hboth)
  obtain ⟨htime, hok⟩ : time = 1000 ∧ isFailed answer = false := by
    have hget := congrArg (·[0]?) hfew
    simpa [hanswer] using hget
  have hsucceeded : Session.Succeeded last := by
    rw [hreport.ends.succeeded_iff]
    cases answer with
    | error failure => cases hok
    | ok envelope => exact ⟨envelope, rfl⟩
  have hlate : s.now + 1000 ≤ time := Nat.le_of_eq htime.symm
  obtain ⟨stats, stats', hbefore, hafter, htotal⟩ := hreport.counted
  obtain rfl : Stats.zero = stats := Option.some.inj hbefore
  exact ⟨enough, report, after, fun fuel hfuel => (hruns fuel hfuel).2, hid,
    hreport.degraded.2 ⟨hsucceeded, hlate⟩, stats', hafter, htotal⟩

end Egress
