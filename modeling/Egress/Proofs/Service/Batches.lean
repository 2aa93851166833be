import Egress.Proofs.Separation
import Egress.Proofs.Service.Parts
import Mathlib.Algebra.Order.BigOperators.Group.List
import Mathlib.Algebra.Order.Group.Nat

/-!
# Batches

The requests of a batch to different endpoints see nothing of each other: a turn goes by the part of its
endpoint and changes no other part (`Proofs/Service/Parts`), and the replies of the transport go by the call.

* `World.exists_alone`: every request is answered in the end. A caller that waits is admitted at the latest
  when the window has elapsed.
* `World.dispatches`: the calls that a turn sends, under the id of the request.
* `World.separation`: requests to different ids are separate, with these calls for a log.
* `Session.batch_eq_alone`: what that comes to for a batch.
-/

set_option autoImplicit false

namespace Egress

/-! ## Every request is answered -/

namespace Limiter

variable {l : Limiter} {id : String} {limit : RateLimit} {t : Nat}

/-- A caller waits only in a window that has not elapsed and is kept as it is. -/
theorem waits_in_window {delay : Nat} {after : Limiter}
    (h : l.enter t id (some limit) = (.wait delay, after)) :
    limit.throttle? = some delay ∧ 0 < delay ∧ 0 < limit.requests ∧
      ∃ w, w = l.windowAt t id limit.window ∧ after.windows.get? id = some w ∧
        w.length = limit.window ∧ limit.requests ≤ w.count ∧ t < w.start + w.length := by
  rw [enter_some] at h
  obtain ⟨hentry, rfl⟩ := Prod.mk.inj h
  have hlimited : (l.check t id limit).1 ≠ .admitted := by
    intro hadmitted
    rw [hadmitted] at hentry
    cases hentry
  have hthrottle : limit.throttle? = some delay := by
    cases hanswer : (l.check t id limit).1 with
    | admitted => exact absurd hanswer hlimited
    | limited retryAfter =>
      rw [hanswer] at hentry
      simp only [entryAfter] at hentry
      cases hthrottle : limit.throttle? with
      | none =>
        rw [hthrottle] at hentry
        cases hentry
      | some delay' =>
        rw [hthrottle] at hentry
        cases hentry
        rfl
  have hpos : 0 < limit.requests ∧ 0 < delay := by
    simp only [RateLimit.throttle?, Option.filter_eq_some_iff, Bool.and_eq_true,
      decide_eq_true_eq] at hthrottle
    exact ⟨hthrottle.2.1.2, hthrottle.2.2⟩
  have hfull : limit.requests ≤ (l.windowAt t id limit.window).count :=
    Nat.le_of_not_lt fun hfree => hlimited (check_admitted_iff.2 hfree)
  have hkept : (l.check t id limit).2.windows.get? id = some (l.windowAt t id limit.window) := by
    rw [get?_check, if_pos rfl, if_neg hlimited]
    rfl
  refine ⟨hthrottle, hpos.2, hpos.1, _, rfl, hkept, l.length_windowAt _ _ _, hfull, ?_⟩
  -- a window that has elapsed is replaced by an empty one, which has room
  rw [length_windowAt]
  unfold windowAt at hfull ⊢
  dsimp only at hfull ⊢
  split at hfull
  · exact absurd hfull (Nat.not_le.2 hpos.1)
  · next helapsed =>
    rw [if_neg helapsed]
    simp only [Window.elapsed, decide_eq_true_eq] at helapsed
    dsimp only at helapsed ⊢
    omega

end Limiter

namespace Service

theorem windowAt_pass {s : Service} {id : String} {length : Nat} (h : s.limiter.Measures id length)
    {since now : Nat} : (s.pass since now).limiter.windowAt now id length =
      s.limiter.windowAt now id length := by
  unfold pass
  cases s.maintenance with
  | none => rfl
  | some m =>
    dsimp only [Maintenance.sweepLimiter]
    cases htick : Maintenance.lastTick? m.start m.limiterPeriod since now with
    | none => rfl
    | some tick =>
      exact (h.perform (u := tick) (a := .sweep) trivial).2 now (Maintenance.lastTick?_le htick).2

/-- A caller that waits is told by the next check that it is admitted or refused, or less is left of the
window then. -/
theorem Polls.of_wait {e : Endpoint} {now t delay : Nat} {s s' : Service} {limit : RateLimit}
    {after : Limiter} (hpolls : Polls e now s t s') (hlimit : e.rateLimit = some limit)
    (henter : s'.limiter.enter t e.id (some limit) = (.wait delay, after)) :
    ∃ s'', Polls e now s (t + delay) s'' ∧
      ((∀ delay', (s''.limiter.enter (t + delay) e.id (some limit)).1 ≠ .wait delay') ∨
        (s''.limiter.windowAt (t + delay) e.id limit.window).start + limit.window - (t + delay) <
          (s'.limiter.windowAt t e.id limit.window).start + limit.window - t) := by
  obtain ⟨-, hdelay, hrequests, w, hw, hkept, hlength, -, hlt⟩ := Limiter.waits_in_window henter
  have hmeasures : after.Measures e.id limit.window := by
    intro w' hw'
    rw [hkept] at hw'
    cases hw'
    exact hlength
  have hnext : (({ s' with limiter := after } : Service).pass t (t + delay)).limiter.windowAt
      (t + delay) e.id limit.window = w.renewed (t + delay) :=
    (windowAt_pass hmeasures).trans (Limiter.windowAt_of_some hkept hlength _)
  refine ⟨_, .again hpolls (hlimit ▸ henter), ?_⟩
  cases helapsed : w.elapsed (t + delay) with
  | true =>
    -- a new window has room
    refine .inl fun delay' hwait => ?_
    obtain ⟨-, -, -, w', rfl, -, -, hfull, -⟩ := Limiter.waits_in_window (Prod.ext hwait rfl)
    rw [hnext, Window.renewed_of_elapsed helapsed] at hfull
    exact absurd hfull (Nat.not_le.2 hrequests)
  | false =>
    right
    rw [hnext, Window.renewed_of_not_elapsed helapsed, ← hw]
    rw [hlength] at hlt
    omega

/-- A caller is told in the end that it is admitted or refused. -/
theorem exists_polls (e : Endpoint) (now : Nat) (s : Service) :
    ∃ t s', Polls e now s t s' ∧
      ∀ delay, (s'.limiter.enter t e.id e.rateLimit).1 ≠ .wait delay := by
  cases hlimit : e.rateLimit with
  | none => exact ⟨now, s, .first, fun delay h => by cases h⟩
  | some limit =>
    have hleft : ∀ left t s', Polls e now s t s' →
        (s'.limiter.windowAt t e.id limit.window).start + limit.window - t < left →
        ∃ t s', Polls e now s t s' ∧
          ∀ delay, (s'.limiter.enter t e.id (some limit)).1 ≠ .wait delay := by
      intro left
      induction left with
      | zero => omega
      | succ left ih =>
        intro t s' hpolls hleft
        rcases henter : s'.limiter.enter t e.id (some limit) with ⟨entry, after⟩
        cases entry with
        | admitted => exact ⟨t, s', hpolls, fun delay h => by rw [henter] at h; cases h⟩
        | refused retryAfter => exact ⟨t, s', hpolls, fun delay h => by rw [henter] at h; cases h⟩
        | wait delay =>
          obtain ⟨s'', hagain, hfree | hless⟩ := hpolls.of_wait hlimit henter
          · exact ⟨_, s'', hagain, hfree⟩
          · exact ih _ s'' hagain (by omega)
    exact hleft _ now s .first (Nat.lt_succ_self _)

end Service

namespace World

variable {ω : Type}

/-- Every request is answered. -/
theorem exists_alone (transport : Transport ω) (now : Nat) (w : World ω) (id : String)
    (options : CallOptions) :
    ∃ t w' answer, Schedule.Alone (workshop transport) now w (.arriving id options) t w' answer := by
  cases hid : w.service.registry.get? id with
  | none => exact ⟨now, w, _, .finish (Turns.act_eq (.unknown hid))⟩
  | some e =>
    obtain ⟨t, s', hpolls, hnowait⟩ := Service.exists_polls e now w.service
    obtain ⟨u, w', answer, halone⟩ : ∃ u w' answer,
        Schedule.Alone (workshop transport) t ⟨s', w.wire⟩ (.queueing ⟨e, options, now⟩) u w' answer := by
      rcases henter : s'.limiter.enter t e.id e.rateLimit with ⟨entry, limiter⟩
      cases entry with
      | wait delay => exact absurd (congrArg Prod.fst henter) (hnowait delay)
      | refused retryAfter => exact ⟨t, _, _, .finish (Turns.act_eq (.refuse henter))⟩
      | admitted =>
        obtain ⟨u, service, wire, answer, halone, -⟩ := alone_of_admitted transport ⟨e, options, now⟩
          (congrArg Prod.fst henter) w.wire
        exact ⟨u, _, answer, halone⟩
    exact ⟨u, w', answer, alone_arriving hid (alone_of_polls hpolls rfl halone)⟩

/-! ## Calls under the id of their request -/

/-- The calls that a turn of a request sends, under the id of the request. -/
def dispatches (transport : Transport ω) (now : Nat) (w : World ω) (request : Request) :
    List (String × Sent) :=
  let sent := (act transport now w request).1.wire.sent
  (sent.take (sent.length - w.wire.sent.length)).map fun call => (request.id, call)

theorem dispatches_eq {transport : Transport ω} {now : Nat} {w : World ω} {request : Request}
    {sent : List Sent} (h : (act transport now w request).1.wire.sent = sent ++ w.wire.sent) :
    dispatches transport now w request = sent.map fun call => (request.id, call) := by
  unfold dispatches
  simp only [h, List.length_append, Nat.add_sub_cancel, List.take_left]

/-- The requests side by side, with a log of the calls they send. -/
def workshopSending (transport : Transport ω) :
    Workshop (World ω × List (String × Sent)) Request Answer :=
  (workshop transport).logging (dispatches transport)

/-- What a request to an id sees of a service, and the calls sent by it. -/
def view (id : String) (s : World ω × List (String × Sent)) : Part × List (String × Sent) :=
  (s.1.service.part id, s.2.filter fun entry => entry.1 = id)

variable {transport : Transport ω} {now : Nat} {w : World ω} {request : Request}

/-- A turn leaves what was sent before in the record. -/
theorem exists_sent (transport : Transport ω) (now : Nat) (hown : w.service.OwnIds)
    (hplain : request.Plain) :
    ∃ sent, (act transport now w request).1.wire.sent = sent ++ w.wire.sent := by
  have hsame : w.service.part request.id = w.service.part request.id := rfl
  obtain ⟨w', sent, hturn, -, hsent, -⟩ :=
    (act_turns transport now w request).part_congr hown hplain hsame fun _ => rfl
  exact ⟨sent, hsent⟩

theorem filter_dispatches_of_ne {id : String} (h : request.id ≠ id) :
    (dispatches transport now w request).filter (fun entry => entry.1 = id) = [] := by
  rw [List.filter_eq_nil_iff]
  intro entry hmem
  obtain ⟨call, -, rfl⟩ := List.mem_map.1 hmem
  simpa using h

/-- Requests to different ids see nothing of each other if the replies of the transport go by the call. -/
theorem separation
    (hreply : ∀ state state' now now' call,
      (transport.send state now call).1 = (transport.send state' now' call).1) :
    Separation (workshopSending transport) Request.id view (fun s => s.1.service.OwnIds)
      Request.Plain where
  pass_self now s := by
    simp only [workshopSending, Workshop.logging, workshop, Service.pass_self]
  pass_pass since between now s h h' := by
    simp only [workshopSending, Workshop.logging, workshop, Service.pass_pass _ h h']
  good_pass since now s hown id e he :=
    hown id e ((Service.pass_alike s.1.service since now).registry ▸ he)
  good_act now s request hown hplain id e he :=
    hown id e ((act_turns transport now s.1 request).registry ▸ he)
  next now s request duration next hown hplain hturn := by
    have hturns := act_turns transport now s.1 request
    change (act transport now s.1 request).2 = _ at hturn
    rw [hturn] at hturns
    exact (hturns.id_next hown hplain).symm
  view_pass id since now s s' h := by
    obtain ⟨hpart, hlog⟩ := Prod.mk.inj h
    exact Prod.ext (Service.part_pass_congr hpart since now) hlog
  view_act now s s' request hown hplain h := by
    obtain ⟨hpart, hlog⟩ := Prod.mk.inj h
    obtain ⟨w', sent, hturn, hafter, hsent, hsent', -⟩ :=
      (act_turns transport now s.1 request).part_congr hown hplain hpart fun call =>
        hreply _ _ now now call
    have hact := hturn.act_eq
    have hsame : (act transport now s'.1 request).2 = (act transport now s.1 request).2 := by rw [hact]
    refine ⟨hsame, Prod.ext ?_ ?_⟩
    · show (act transport now s'.1 request).1.service.part request.id = _
      rw [hact]
      exact hafter
    · have hnew : dispatches transport now s'.1 request = dispatches transport now s.1 request := by
        rw [dispatches_eq hsent, dispatches_eq (by rw [hact]; exact hsent')]
      show (dispatches transport now s'.1 request ++ s'.2).filter _ =
        (dispatches transport now s.1 request ++ s.2).filter _
      rw [hnew, List.filter_append, List.filter_append, hlog]
  view_other id now s request hown hplain hne := by
    refine Prod.ext ((act_turns transport now s.1 request).part_of_ne hown hplain hne) ?_
    show (dispatches transport now s.1 request ++ s.2).filter _ = s.2.filter _
    rw [List.filter_append, filter_dispatches_of_ne hne, List.nil_append]

/-- A turn starts or stops no sweeps. -/
theorem Turns.maintenance {w' : World ω} {turn : Turn Request Answer}
    (h : Turns transport now w request w' turn) :
    w'.service.maintenance = w.service.maintenance := by
  induction h with
  | unknown | wait | refuse | call | again => rfl
  | found _ _ ih => exact ih
  | @hit job limiter envelope s henter hlookup =>
    have hlooked : s = (Service.lookup { w.service with limiter } now job).2 := by rw [hlookup]
    show s.maintenance = _
    rw [hlooked, Service.lookup_snd]
  | @miss job limiter s wire duration result henter hlookup hcall =>
    have hlooked : s = (Service.lookup { w.service with limiter } now job).2 := by rw [hlookup]
    show s.maintenance = _
    rw [hlooked, Service.lookup_snd]
  | @answer job n result answer hjudge => cases answer <;> rfl

end World

namespace Session

variable {ω : Type} {transport : Transport ω}

/-- Makes requests side by side as `requests` does, and logs each call under the id of the request that sends
it, the latest first. -/
def requestsSending (s : Session ω) (transport : Transport ω) (fuel : Nat)
    (calls : List (String × CallOptions)) :
    Option (List (Nat × Answer) × Session ω × List (String × Sent)) :=
  (Schedule.run (World.workshopSending transport) fuel s.now (s.world, [])
      (calls.map fun call => .pending s.now (.arriving call.1 call.2))).map fun outcome =>
    (Schedule.results outcome.courses, ⟨outcome.now, outcome.shared.1⟩, outcome.shared.2)

/-- The log changes nothing. -/
theorem requestsSending_eq (s : Session ω) (transport : Transport ω) (fuel : Nat)
    (calls : List (String × CallOptions)) :
    (s.requestsSending transport fuel calls).map (fun r => (r.1, r.2.1)) =
      s.requests transport fuel calls := by
  unfold requestsSending requests World.workshopSending
  rw [← Schedule.run_logging (World.workshop transport) (World.dispatches transport) fuel s.now s.world [],
    Option.map_map, Option.map_map]
  rfl

/-- What a run of requests keeps to: each call in the record is logged under the id of a request. -/
structure Logged (ids : List String) (sent : List Sent) (maintenance : Option Maintenance)
    (s : World ω × List (String × Sent)) : Prop where
  own : s.1.service.OwnIds
  sent : s.1.wire.sent = s.2.map (·.2) ++ sent
  ids : ∀ entry ∈ s.2, entry.1 ∈ ids
  maintenance : s.1.service.maintenance = maintenance

theorem keeps_logged (transport : Transport ω) (ids : List String) (sent : List Sent)
    (maintenance : Option Maintenance) :
    Schedule.Keeps (World.workshopSending transport) (fun _ s => Logged ids sent maintenance s)
      fun _ request => request.Plain ∧ request.id ∈ ids where
  pass since now s _ h := by
    have hpass := Service.pass_alike s.1.service since now
    refine ⟨h.own.congr hpass.registry, h.sent, h.ids, ?_⟩
    show (s.1.service.pass since now).maintenance = maintenance
    rw [Service.pass_eq]
    exact h.maintenance
  pass_fit _ _ _ _ hfit := hfit
  act now s request h hfit := by
    have hturns := World.act_turns transport now s.1 request
    obtain ⟨new, hnew⟩ := World.exists_sent transport now h.own hfit.1
    have hdispatches := World.dispatches_eq hnew
    refine ⟨h.own.congr hturns.registry, ?_, fun entry hmem => ?_, hturns.maintenance.trans h.maintenance⟩
    · show (World.act transport now s.1 request).1.wire.sent =
        (World.dispatches transport now s.1 request ++ s.2).map (·.2) ++ sent
      rw [hnew, h.sent, hdispatches, List.map_append, List.map_map, List.append_assoc]
      simp only [Function.comp_def, List.map_id']
    · change entry ∈ World.dispatches transport now s.1 request ++ s.2 at hmem
      rw [hdispatches] at hmem
      rcases List.mem_append.1 hmem with hmem | hmem
      · obtain ⟨call, -, rfl⟩ := List.mem_map.1 hmem
        exact hfit.2
      · exact h.ids entry hmem
  act_fit _ _ _ _ _ _ hother := hother
  next now s request duration next h hfit hturn := by
    have hturns := World.act_turns transport now s.1 request
    change (World.act transport now s.1 request).2 = _ at hturn
    rw [hturn] at hturns
    obtain ⟨hid, hplain⟩ := hturns.id_next h.own hfit.1
    exact ⟨hplain, hid ▸ hfit.2⟩

theorem request_eq {s after : Session ω} {fuel time : Nat} {id : String} {options : CallOptions}
    {answer : Answer} (h : s.requests transport fuel [(id, options)] = some ([(time, answer)], after)) :
    s.request transport fuel id options = some (answer, after) := by
  simp only [request, h, Option.bind_eq_bind, Option.bind_some, List.head?_cons, Option.pure_def]

/-- A request on its own, with the calls that it sends. -/
theorem exists_request (transport : Transport ω) (s : Session ω) (hown : s.world.service.OwnIds)
    (id : String) (options : CallOptions) :
    ∃ turns t w log answer,
      Schedule.run (World.workshopSending transport) turns s.now (s.world, [])
        [.pending s.now (.arriving id options)] = some ⟨t, (w, log), [.done t answer]⟩ ∧
      (∀ fuel, turns ≤ fuel →
        s.requests transport fuel [(id, options)] = some ([(t, answer)], ⟨t, w⟩)) ∧
      Logged [id] s.world.wire.sent s.world.service.maintenance (w, log) := by
  obtain ⟨t, w, answer, halone⟩ := World.exists_alone transport s.now s.world id options
  have hpassed : (World.workshop transport).pass s.now s.now s.world = s.world := by
    simp only [World.workshop, Service.pass_self]
  obtain ⟨turns, hrun⟩ := halone.run_eq (Nat.le_refl s.now) hpassed
  have hlogging := Schedule.run_logging (World.workshop transport) (World.dispatches transport) turns
    s.now s.world [] [.pending s.now (.arriving id options)]
  rw [hrun turns (Nat.le_refl turns)] at hlogging
  obtain ⟨⟨t', ⟨w', log⟩, courses⟩, hsending, heq⟩ := Option.map_eq_some_iff.1 hlogging
  simp only [Schedule.Outcome.mk.injEq] at heq
  obtain ⟨rfl, rfl, rfl⟩ := heq
  refine ⟨turns, _, _, log, answer, hsending, fun fuel hfuel => ?_, ?_⟩
  · simp [requests, hrun fuel hfuel, Schedule.results]
  · have hstart : Logged [id] s.world.wire.sent s.world.service.maintenance (s.world, []) :=
      ⟨hown, rfl, List.forall_mem_nil _, rfl⟩
    refine ((keeps_logged transport _ _ _).run hstart (fun wake request hmem => ?_) hsending).2
    cases List.mem_singleton.1 hmem
    exact ⟨Request.plain_arriving id options, List.mem_singleton.2 rfl⟩

theorem results_done {α : Type} (time : α → Nat) (answer : α → Answer) (l : List α) :
    Schedule.results (l.map fun a => (.done (time a) (answer a) : Course Request Answer)) =
      l.map fun a => (time a, answer a) := by
  unfold Schedule.results
  rw [List.filterMap_map]
  show l.filterMap (some ∘ fun a => (time a, answer a)) = _
  rw [List.filterMap_eq_map]

/-- The items of a batch to different endpoints are answered as on their own: the answer and its time, the
calls sent with their times and contents, and what becomes of definition, statistics, window and kept
responses of the endpoint are those of the request alone, given the time until the batch ends. The
transport may have any state and take any time, if its replies go by the call. -/
theorem batch_eq_alone (transport : Transport ω)
    (hreply : ∀ state state' now now' call,
      (transport.send state now call).1 = (transport.send state' now' call).1)
    (s : Session ω) (hown : s.world.service.OwnIds) (items : List BatchItem)
    (hitems : (items.map (·.id)).Nodup) :
    ∃ answers after log enough,
      (∀ fuel, enough ≤ fuel →
        s.requestsSending transport fuel (items.map fun item => (item.id, item.options)) =
            some (answers, after, log) ∧
          s.batch transport fuel items = some (.ofAnswers
            ((items.zip answers).map fun (item, _, answer) => (item.id, answer)), after)) ∧
      answers.length = items.length ∧
      after.world.wire.sent = log.map (·.2) ++ s.world.wire.sent ∧
      ∀ item time answer, (item, time, answer) ∈ items.zip answers → ∃ alone,
        (∀ fuel, enough ≤ fuel →
          s.request transport fuel item.id item.options = some (answer, alone)) ∧
        alone.now = time ∧ time ≤ after.now ∧
        alone.world.wire.sent =
          (log.filter fun entry => entry.1 = item.id).map (·.2) ++ s.world.wire.sent ∧
        after.world.service.part item.id =
          (alone.advance (after.now - time)).world.service.part item.id ∧
        (s.world.service.maintenance = none →
          after.world.service.part item.id = alone.world.service.part item.id) := by
  choose turns t w log answer hrun hrequest hlogged using fun item : BatchItem =>
    exists_request transport s hown item.id item.options
  let solo (item : BatchItem) : Solo (World ω × List (String × Sent)) Answer String :=
    ⟨item.id, turns item, t item, (w item, log item), answer item⟩
  let tasks := items.map fun item => (Request.arriving item.id item.options, solo item)
  have hnames : (tasks.map fun p => p.2.name).Nodup := by
    simpa only [tasks, List.map_map, Function.comp_def] using hitems
  have halone : ∀ p ∈ tasks, p.1.Plain ∧ p.1.id = p.2.name ∧
      Schedule.run (World.workshopSending transport) p.2.turns s.now (s.world, [])
        [.pending s.now p.1] = some p.2.outcome := by
    intro p hmem
    obtain ⟨item, -, rfl⟩ := List.mem_map.1 hmem
    exact ⟨Request.plain_arriving item.id item.options, rfl, hrun item⟩
  obtain ⟨enough, u, ⟨after, sent⟩, hu, hbatch, hend⟩ :=
    (World.separation hreply).run_eq (s := (s.world, [])) hown hnames halone
  simp only [tasks, List.map_map, Function.comp_def] at hbatch
  have hlog : Logged (items.map (·.id)) s.world.wire.sent s.world.service.maintenance (after, sent) := by
    have hstart : Logged (items.map (·.id)) s.world.wire.sent s.world.service.maintenance
        (s.world, []) := ⟨hown, rfl, List.forall_mem_nil _, rfl⟩
    refine ((keeps_logged transport _ _ _).run hstart (fun wake request hmem => ?_)
      (hbatch enough (Nat.le_refl enough))).2
    obtain ⟨item, hitem, heq⟩ := List.mem_map.1 hmem
    cases heq
    exact ⟨Request.plain_arriving item.id item.options, List.mem_map_of_mem hitem⟩
  have hsending : ∀ fuel, enough ≤ fuel →
      s.requestsSending transport fuel (items.map fun item => (item.id, item.options)) =
        some (items.map fun item => (t item, answer item), ⟨u, after⟩, sent) := by
    intro fuel hfuel
    simp only [requestsSending, List.map_map, Function.comp_def, hbatch fuel hfuel, Option.map_some]
    exact congrArg (fun answers => some (answers, _, _)) (results_done t answer items)
  have hzip : items.zip (items.map fun item => (t item, answer item)) =
      items.map fun item => (item, t item, answer item) := List.map_prod_left_eq_zip.symm
  refine ⟨items.map fun item => (t item, answer item), ⟨u, after⟩, sent,
    max enough (items.map turns).sum, fun fuel hfuel => ?_, List.length_map _, hlog.sent, ?_⟩
  · have hrequests := s.requestsSending_eq transport fuel (items.map fun item => (item.id, item.options))
    rw [hsending fuel (by omega), Option.map_some] at hrequests
    refine ⟨hsending fuel (by omega), ?_⟩
    simp only [batch, ← hrequests, Option.bind_eq_bind, Option.bind_some, Option.pure_def]
  · intro item time answer' hmem
    rw [hzip] at hmem
    obtain ⟨item', hitem, heq⟩ := List.mem_map.1 hmem
    simp only [Prod.mk.injEq] at heq
    obtain ⟨rfl, rfl, rfl⟩ := heq
    have hturns : turns item' ≤ (items.map turns).sum :=
      List.le_sum_of_mem (List.mem_map_of_mem hitem)
    obtain ⟨htime, hview⟩ := hend _ (List.mem_map_of_mem hitem)
    obtain ⟨hpart, hcalls⟩ := Prod.mk.inj hview
    refine ⟨⟨t item', w item'⟩, fun fuel hfuel => request_eq (hrequest item' fuel (by omega)), rfl, htime,
      ?_, ?_, ?_⟩
    · -- on its own every call in the log is under its id
      have hown : ∀ entry ∈ log item', decide (entry.1 = item'.id) = true := fun entry hentry =>
        decide_eq_true (List.mem_singleton.1 ((hlogged item').ids entry hentry))
      have hcalls' : sent.filter (fun entry => entry.1 = item'.id) = log item' :=
        hcalls.trans (List.filter_eq_self.2 hown)
      rw [hcalls']
      exact (hlogged item').sent
    · rw [advance, Nat.add_sub_cancel' htime]
      exact hpart
    · intro hnone
      refine hpart.trans ?_
      have hmaintenance := (hlogged item').maintenance.trans hnone
      show ((w item').service.pass (t item') u).part item'.id = (w item').service.part item'.id
      rw [Service.pass, hmaintenance]

/-- A session with two endpoints, the id of one of which begins with that of the other. Callers of the second
one wait for each other. -/
def prefixed : Session Unit :=
  (((start (.create .request none (.create 1 0)) ()).operate (.register .keeping)).1.operate
    (.register { Endpoint.keeping with id := "ab", rateLimit := some ⟨1, 50, true, some 10⟩ })).1

/-- A batch of requests to both: what becomes of the second endpoint is what its request alone brings. -/
theorem batch_eq_alone_prefixed :
    prefixed.world.service.registry.ids = ["a", "ab"] ∧ ∃ first second after alone enough,
      ∀ fuel, enough ≤ fuel → prefixed.batch .steady fuel [⟨"a", .plain⟩, ⟨"ab", .plain⟩] =
          some (.ofAnswers [("a", first), ("ab", second)], after) ∧
        prefixed.request .steady fuel "ab" .plain = some (second, alone) ∧
        after.world.service.part "ab" = alone.world.service.part "ab" := by
  have hreached : Reached Transport.steady prefixed [] :=
    .operate (.operate (.start .request none (.create 1 0) ()) (.register .keeping) trivial)
      (.register { Endpoint.keeping with id := "ab", rateLimit := some ⟨1, 50, true, some 10⟩ }) trivial
  obtain ⟨answers, after, log, enough, hbatch, hlength, -, hitems⟩ :=
    batch_eq_alone .steady (fun _ _ _ _ _ => rfl) prefixed
      (reached_faithful hreached).own [⟨"a", .plain⟩, ⟨"ab", .plain⟩] (by decide)
  obtain ⟨⟨time, answer⟩, ⟨time', answer'⟩, rfl⟩ := List.length_eq_two.1 hlength
  obtain ⟨alone, halone, -, -, -, -, hpart⟩ := hitems ⟨"ab", .plain⟩ time' answer' (by simp)
  refine ⟨by rfl, answer, answer', after, alone, enough, fun fuel hfuel => ?_⟩
  exact ⟨(hbatch fuel hfuel).2, halone fuel hfuel, hpart rfl⟩

end Session

end Egress
