import Egress.Proofs.Limiter.Agreement
import Egress.Proofs.Service.Answers
import Egress.Proofs.Service.Traffic
import Mathlib.Tactic.IntervalCases

/-!
# Nobody sees a sweep

Two services are the `Same` from some time on if they differ at most in what they keep without any use:
responses that have expired, and windows that have elapsed. What a request does to the two is the same then
(`Turns.same`), and so is every operation (`Same.operate`), as long as each endpoint is given windows of
one length only: a window is kept with the length of the last check.

* `Limiter.Agree` is the part about windows: the window in force is the same for every later check.
* `Alongside` relates a run to one with sweeps in between. Every move keeps to it (`Alongside.step`), and a
  sweep of the second run does too.
* `Service.pass_pass`: time that passes may be cut in two anywhere, so a sweep may come at any instant.
* `sweeps_unobservable` is what follows for whole runs.
-/

set_option autoImplicit false

namespace Egress

/-! ## Services that answer alike -/

namespace Service

/-- From a time on the two services differ in nothing that anyone sees. -/
structure Same (window : String → Nat) (now : Nat) (s s' : Service) : Prop where
  strategy : s'.strategy = s.strategy
  tokens : s'.tokens = s.tokens
  registry : s'.registry = s.registry
  limiter : Limiter.Agree window now s.limiter s'.limiter
  peek : ∀ t key, now ≤ t → s'.cache.peek t key = s.cache.peek t key
  metrics : s'.metrics = s.metrics
  events : s'.events = s.events

variable {window : String → Nat} {now : Nat} {s s' : Service}

theorem Same.mono (h : Same window now s s') {t : Nat} (ht : now ≤ t) : Same window t s s' :=
  ⟨h.strategy, h.tokens, h.registry, h.limiter.mono ht,
    fun u key hu => h.peek u key (Nat.le_trans ht hu), h.metrics, h.events⟩

theorem Same.symm (h : Same window now s s') : Same window now s' s :=
  ⟨h.strategy.symm, h.tokens.symm, h.registry.symm, h.limiter.symm,
    fun t key ht => (h.peek t key ht).symm, h.metrics.symm, h.events.symm⟩

theorem Same.publish (h : Same window now s s') (event : Event) :
    Same window now (s.publish event) (s'.publish event) :=
  ⟨h.strategy, h.tokens, h.registry, h.limiter, h.peek, h.metrics,
    congrArg (Channel.publish · event) h.events⟩

theorem Same.withMetrics (h : Same window now s s') (f : Metrics → Metrics) :
    Same window now { s with metrics := f s.metrics } { s' with metrics := f s'.metrics } :=
  ⟨h.strategy, h.tokens, h.registry, h.limiter, h.peek, congrArg f h.metrics, h.events⟩

theorem Same.withLimiter (h : Same window now s s') {l l' : Limiter}
    (hl : Limiter.Agree window now l l') :
    Same window now { s with limiter := l } { s' with limiter := l' } :=
  ⟨h.strategy, h.tokens, h.registry, hl, h.peek, h.metrics, h.events⟩

theorem Same.withCache (h : Same window now s s') {c c' : Cache Envelope}
    (hc : ∀ t key, now ≤ t → c'.peek t key = c.peek t key) :
    Same window now { s with cache := c } { s' with cache := c' } :=
  ⟨h.strategy, h.tokens, h.registry, h.limiter, hc, h.metrics, h.events⟩

theorem Same.withRegistry (h : Same window now s s') (r : Registry) :
    Same window now { s with registry := r } { s' with registry := r } :=
  ⟨h.strategy, h.tokens, rfl, h.limiter, h.peek, h.metrics, h.events⟩

theorem Same.withMaintenance (h : Same window now s s') (m m' : Option Maintenance) :
    Same window now { s with maintenance := m } { s' with maintenance := m' } :=
  ⟨h.strategy, h.tokens, h.registry, h.limiter, h.peek, h.metrics, h.events⟩

/-! ### Requests -/

theorem Same.cacheKey? (h : Same window now s s') (job : Job) : s'.cacheKey? job = s.cacheKey? job := by
  simp only [Service.cacheKey?, h.strategy]

theorem Same.lookup (h : Same window now s s') (job : Job) {hit : Option Envelope} {after : Service}
    (hlookup : s.lookup now job = (hit, after)) :
    ∃ after', s'.lookup now job = (hit, after') ∧ Same window now after after' := by
  have hhit : (s'.lookup now job).1 = (s.lookup now job).1 := by
    simp only [lookup_fst, h.strategy, h.peek now _ (Nat.le_refl now)]
  have hafter : Same window now (s.lookup now job).2 (s'.lookup now job).2 := by
    unfold Service.lookup
    rw [h.cacheKey? job]
    split
    · exact h
    · cases s.cacheKey? job with
      | none => exact h
      | some entry =>
        refine h.withCache fun t k ht => ?_
        rw [Cache.peek_get _ ht, Cache.peek_get _ ht]
        exact h.peek t k ht
  rw [hlookup] at hhit hafter
  exact ⟨(s'.lookup now job).2, Prod.ext hhit rfl, hafter⟩

theorem Same.refuse (h : Same window now s s') (job : Job) :
    Same window now (s.refuse now job) (s'.refuse now job) :=
  (h.withMetrics fun m => (m.recordLimitHit job.endpoint.id).record job.endpoint.id (job.elapsed now)
    false (some .failure)).publish _

theorem Same.recordHit (h : Same window now s s') (job : Job) (envelope : Envelope) :
    Same window now (s.recordHit now job envelope) (s'.recordHit now job envelope) :=
  (h.withMetrics fun m => m.record job.endpoint.id (job.elapsed now) true none).publish _

theorem Same.conclude (h : Same window now s s') (job : Job) (answer : Answer) :
    Same window now (s.conclude now job answer) (s'.conclude now job answer) := by
  cases answer with
  | error failure =>
    exact (h.withMetrics fun m => m.record job.endpoint.id (job.elapsed now) false
      (some .failure)).publish _
  | ok envelope =>
    have hcounted := h.withMetrics fun m => m.record job.endpoint.id (job.elapsed now) false
      (some .success)
    unfold Service.conclude
    dsimp only
    rw [h.cacheKey? job]
    cases s.cacheKey? job with
    | none => exact hcounted.publish _
    | some entry =>
      refine (hcounted.withCache fun t key ht => ?_).publish _
      rw [Cache.peek_put, Cache.peek_put, h.peek t key ht]

/-! ### Operations -/

theorem Same.register (h : Same window now s s') (e : Endpoint) :
    (∃ error, s.register e = .error error ∧ s'.register e = .error error) ∨
      ∃ after after', s.register e = .ok after ∧ s'.register e = .ok after' ∧
        Same window now after after' := by
  unfold Service.register
  rw [h.registry]
  cases s.registry.register e with
  | error error => exact .inl ⟨error, rfl, rfl⟩
  | ok r => exact .inr ⟨_, _, rfl, rfl, ((h.withRegistry r).withMetrics (·.reset e.id)).publish _⟩

theorem Same.invalidated (h : Same window now s s') (id : String) :
    Same window now { s with cache := s.cache.invalidateEndpoint id }
      { s' with cache := s'.cache.invalidateEndpoint id } :=
  h.withCache fun t key ht => by
    rw [Cache.peek_invalidateEndpoint, Cache.peek_invalidateEndpoint, h.peek t key ht]

theorem Same.update (h : Same window now s s') (id : String) (u : EndpointUpdate) :
    (∃ error, s.update id u = .error error ∧ s'.update id u = .error error) ∨
      ∃ e after after', s.update id u = .ok (e, after) ∧ s'.update id u = .ok (e, after') ∧
        Same window now after after' := by
  unfold Service.update
  rw [h.registry]
  cases s.registry.update id u with
  | error error => exact .inl ⟨error, rfl, rfl⟩
  | ok updated =>
    exact .inr ⟨updated.1, _, _, rfl, rfl, ((h.withRegistry updated.2).invalidated id).publish _⟩

theorem Same.unregister (h : Same window now s s') (id : String) :
    (∃ error, s.unregister id = .error error ∧ s'.unregister id = .error error) ∨
      ∃ after after', s.unregister id = .ok after ∧ s'.unregister id = .ok after' ∧
        Same window now after after' := by
  unfold Service.unregister
  rw [h.registry]
  cases s.registry.unregister id with
  | error error => exact .inl ⟨error, rfl, rfl⟩
  | ok removed =>
    exact .inr ⟨_, _, rfl, rfl, ((((h.withRegistry removed.2).invalidated id).withLimiter
      (h.limiter.reset id)).withMetrics (·.remove id)).publish _⟩

theorem Same.clearCache (h : Same window now s s') (id : Option String) :
    Same window now (s.clearCache id) (s'.clearCache id) := by
  cases id with
  | none => exact (h.withCache fun _ _ _ => rfl).publish _
  | some id => exact (h.invalidated id).publish _

theorem Same.cleared (h : Same window now s s') : Same window now s.cleared s'.cleared :=
  (((h.withRegistry .empty).withCache fun _ _ _ => rfl).withLimiter
    (Limiter.agree_empty window now)).withMetrics (·.clear)

theorem Same.registerAll (h : Same window now s s') (es : List Endpoint) :
    (s'.registerAll es).1 = (s.registerAll es).1 ∧
      Same window now (s.registerAll es).2 (s'.registerAll es).2 := by
  induction es generalizing s s' with
  | nil => exact ⟨rfl, h⟩
  | cons e es ih =>
    unfold Service.registerAll
    obtain ⟨error, hs, hs'⟩ | ⟨after, after', hs, hs', hafter⟩ := h.register e
    · rw [hs, hs']
      exact ⟨rfl, h⟩
    · rw [hs, hs']
      exact ih hafter

theorem Same.importText (h : Same window now s s') (text : String) :
    Same window now (s.importText text).2 (s'.importText text).2 := by
  unfold Service.importText
  cases Document.read text with
  | error error => exact h
  | ok document =>
    dsimp only
    cases firstFlaw? document.endpoints with
    | some error => exact h
    | none =>
      obtain ⟨hrefused, hafter⟩ := h.cleared.registerAll document.endpoints
      rcases hs : s.cleared.registerAll document.endpoints with ⟨refused, after⟩
      rcases hs' : s'.cleared.registerAll document.endpoints with ⟨refused', after'⟩
      rw [hs, hs'] at hrefused hafter
      dsimp only at hrefused hafter
      rw [hrefused]
      cases refused with
      | some error => exact hafter
      | none => exact hafter.publish _

/-- A sweep of one of the services is not seen. -/
theorem Same.sweepCache (h : Same window now s s') {t : Nat} (ht : t ≤ now) :
    Same window now s { s' with cache := s'.cache.sweep t } :=
  ⟨h.strategy, h.tokens, h.registry, h.limiter,
    fun u key hu => (s'.cache.peek_sweep (Nat.le_trans ht hu) key).trans (h.peek u key hu), h.metrics,
    h.events⟩

theorem Same.sweepLimiter (h : Same window now s s') {t : Nat} (ht : t ≤ now) :
    Same window now s { s' with limiter := s'.limiter.sweep t } :=
  ⟨h.strategy, h.tokens, h.registry, h.limiter.sweep ht, h.peek, h.metrics, h.events⟩

theorem Same.sweep (h : Same window now s s') : Same window now s (s'.sweep now) :=
  (h.sweepCache (Nat.le_refl now)).sweepLimiter (Nat.le_refl now)

/-- Nor are the periodic ones while time passes. -/
theorem Same.pass (h : Same window now s s') (since : Nat) : Same window now s (s'.pass since now) := by
  unfold Service.pass
  cases s'.maintenance with
  | none => exact h
  | some m =>
    exact ⟨h.strategy, h.tokens, h.registry, h.limiter.sweepLimiter m since,
      fun t key ht => (m.peek_sweepCache s'.cache ht key).trans (h.peek t key ht), h.metrics, h.events⟩

theorem Same.operate (h : Same window now s s') (op : Operation) :
    Same window now (s.operate now op).1 (s'.operate now op).1 := by
  cases op with
  | register e =>
    unfold Service.operate
    obtain ⟨error, hs, hs'⟩ | ⟨after, after', hs, hs', hafter⟩ := h.register e
    · simp only [hs, hs']
      exact h
    · simp only [hs, hs']
      exact hafter
  | update id u =>
    unfold Service.operate
    obtain ⟨error, hs, hs'⟩ | ⟨e, after, after', hs, hs', hafter⟩ := h.update id u
    · simp only [hs, hs']
      exact h
    · simp only [hs, hs']
      exact hafter
  | unregister id =>
    unfold Service.operate
    obtain ⟨error, hs, hs'⟩ | ⟨after, after', hs, hs', hafter⟩ := h.unregister id
    · simp only [hs, hs']
      exact h
    · simp only [hs, hs']
      exact hafter
  | clearCache id => exact h.clearCache id
  | importText text => exact h.importText text
  | setToken id token =>
    exact ⟨h.strategy, congrArg (Option.map _) h.tokens, h.registry, h.limiter, h.peek, h.metrics,
      h.events⟩
  -- here both services are swept, one after the other
  | sweep => exact h.symm.sweep.symm.sweep
  | startMaintenance periods => exact h.withMaintenance _ _
  | stopMaintenance => exact h.withMaintenance _ _

end Service

/-! ## Turns -/

/-- The window that the endpoint is given has the length that goes with its id. -/
def Endpoint.Conforms (window : String → Nat) (e : Endpoint) : Prop :=
  ∀ limit, e.rateLimit = some limit → limit.window = window e.id

/-- The endpoint that the request has found is given a window of the length that goes with its id. -/
def Request.Conforms (window : String → Nat) (request : Request) : Prop :=
  ∀ job, request.job? = some job → job.endpoint.Conforms window

namespace World

variable {ω : Type} {transport : Transport ω} {window : String → Nat} {now : Nat} {w w' w₁ : World ω}

/-- A request takes the same turn with either service. -/
theorem Turns.same {request : Request} {turn : Turn Request Answer}
    (h : Turns transport now w request w₁ turn)
    (hsame : Service.Same window now w.service w'.service) (hwire : w'.wire = w.wire)
    (hregistry : ∀ id e, w.service.registry.get? id = some e → e.Conforms window)
    (hrequest : request.Conforms window) :
    ∃ w₁', Turns transport now w' request w₁' turn ∧ w₁'.wire = w₁.wire ∧
      Service.Same window now w₁.service w₁'.service := by
  induction h with
  | unknown hid => exact ⟨w', .unknown (hsame.registry ▸ hid), hwire, hsame⟩
  | @found id options e _ _ hid _ ih =>
    obtain ⟨w₁', hturn, hrest⟩ := ih fun job hjob => by
      cases hjob
      exact hregistry id e hid
    exact ⟨w₁', .found (hsame.registry ▸ hid) hturn, hrest⟩
  | wait henter =>
    obtain ⟨limiter', henter', hagree⟩ := hsame.limiter.enter (hrequest _ rfl) henter
    exact ⟨_, .wait henter', hwire, hsame.withLimiter hagree⟩
  | @refuse job _ _ henter =>
    obtain ⟨limiter', henter', hagree⟩ := hsame.limiter.enter (hrequest _ rfl) henter
    exact ⟨_, .refuse henter', hwire, (hsame.withLimiter hagree).refuse job⟩
  | @hit job _ envelope _ henter hlookup =>
    obtain ⟨limiter', henter', hagree⟩ := hsame.limiter.enter (hrequest _ rfl) henter
    obtain ⟨s', hlookup', hsame'⟩ := (hsame.withLimiter hagree).lookup job hlookup
    exact ⟨_, .hit henter' hlookup', hwire, hsame'.recordHit job envelope⟩
  | @miss job _ s _ _ _ henter hlookup hcall =>
    obtain ⟨limiter', henter', hagree⟩ := hsame.limiter.enter (hrequest _ rfl) henter
    obtain ⟨s', hlookup', hsame'⟩ := (hsame.withLimiter hagree).lookup job hlookup
    rw [← hsame'.tokens, ← hwire] at hcall
    exact ⟨_, .miss henter' hlookup' hcall, rfl, hsame'⟩
  | call hcall =>
    rw [← hsame.tokens, ← hwire] at hcall
    exact ⟨_, .call hcall, rfl, hsame⟩
  | again hjudge => exact ⟨w', .again hjudge, hwire, hsame⟩
  | @answer job _ _ answer hjudge => exact ⟨_, .answer hjudge, hwire, hsame.conclude job answer⟩

theorem Turns.conforms {request next : Request} {duration : Nat}
    (h : Turns transport now w request w₁ (.wait duration next))
    (hregistry : ∀ id e, w.service.registry.get? id = some e → e.Conforms window)
    (hrequest : request.Conforms window) : next.Conforms window := by
  generalize hturn : Turn.wait duration next = turn at h
  induction h with
  | unknown | refuse | hit | answer => cases hturn
  | @found id options e _ _ hid _ ih =>
    refine ih (fun job hjob => ?_) hturn
    cases hjob
    exact hregistry id e hid
  | wait =>
    cases hturn
    exact hrequest
  | miss | call | again =>
    cases hturn
    intro job hjob
    cases hjob
    exact hrequest _ rfl

end World

/-! ## Runs with sweeps and without -/

/-- A sweep that may come between two moves, or the start or end of periodic ones. -/
inductive Upkeep
  | sweepCache
  | sweepLimiter
  | start (periods : SweepPeriods)
  | stop

/-- The service after a sweep. -/
def Service.upkeep (s : Service) (now : Nat) : Upkeep → Service
  | .sweepCache => { s with cache := s.cache.sweep now }
  | .sweepLimiter => { s with limiter := s.limiter.sweep now }
  | .start periods => s.startMaintenance periods now
  | .stop => s.stopMaintenance

theorem Service.Same.upkeep {window : String → Nat} {now : Nat} {s s' : Service}
    (h : Same window now s s') (u : Upkeep) : Same window now s (s'.upkeep now u) := by
  cases u with
  | sweepCache => exact h.sweepCache (Nat.le_refl now)
  | sweepLimiter => exact h.sweepLimiter (Nat.le_refl now)
  | start periods => exact h.withMaintenance s.maintenance _
  | stop => exact h.withMaintenance s.maintenance _

/-- What comes next in a run with sweeps. -/
inductive Beat
  | move (m : Move)
  | upkeep (u : Upkeep)

/-- The moves of a run without its sweeps. -/
def Beat.moves (beats : List Beat) : List Move :=
  beats.filterMap fun
    | .move m => some m
    | .upkeep _ => none

namespace Traffic

variable {ω : Type}

/-- The traffic after a move or a sweep. -/
def beat (transport : Transport ω) (t : Traffic ω) : Beat → Traffic ω
  | .move m => t.step transport m
  | .upkeep u => { t with world := { t.world with service := t.world.service.upkeep t.now u } }

/-- The traffic after moves and sweeps. -/
def play (transport : Transport ω) (t : Traffic ω) (beats : List Beat) : Traffic ω :=
  beats.foldl (beat transport) t

/-- Every endpoint that is registered is given a window of the length that goes with its id. -/
def Conforms (window : String → Nat) (t : Traffic ω) : Prop :=
  ∀ id e, t.world.service.registry.get? id = some e → e.Conforms window

/-- The second traffic differs from the first one in nothing that anyone sees. -/
structure Alongside (window : String → Nat) (t t' : Traffic ω) : Prop where
  now : t'.now = t.now
  flights : t'.flights = t.flights
  log : t'.log = t.log
  wire : t'.world.wire = t.world.wire
  service : Service.Same window t.now t.world.service t'.world.service
  conforms : ∀ wake request, Course.pending wake request ∈ t.flights → request.Conforms window

variable {window : String → Nat} {t t' : Traffic ω}

theorem deeds_congr {s s' : Service} (h : s'.registry = s.registry) (now flight : Nat)
    (turn : Turn Request Answer) (request : Request) :
    deeds s' now flight turn request = deeds s now flight turn request := by
  cases request <;> simp only [deeds, h]

theorem replacedBy_congr {now : Nat} {s s' : Service} (h : Service.Same window now s s')
    (op : Operation) : s'.replacedBy op = s.replacedBy op := by
  cases op with
  | update id u =>
    unfold Service.replacedBy
    obtain ⟨error, hs, hs'⟩ | ⟨e, after, after', hs, hs', -⟩ := h.update id u <;> simp only [hs, hs']
  | unregister id =>
    unfold Service.replacedBy
    obtain ⟨error, hs, hs'⟩ | ⟨after, after', hs, hs', -⟩ := h.unregister id <;> simp only [hs, hs']
  | _ => rfl

theorem Alongside.act (h : Alongside window t t') (hconforms : t.Conforms window)
    (transport : Transport ω) {flight wake : Nat} {request : Request}
    (hflight : t.flights[flight]? = some (.pending wake request)) :
    Alongside window (t.act transport flight request) (t'.act transport flight request) := by
  have hrequest := h.conforms wake request (List.mem_of_getElem? hflight)
  have hturns := World.act_turns transport t.now t.world request
  unfold Traffic.act
  rw [h.now]
  rcases hact : World.act transport t.now t.world request with ⟨w₁, turn⟩
  rw [hact] at hturns
  obtain ⟨w₁', hturns', hwire, hsame⟩ := hturns.same h.service h.wire hconforms hrequest
  rw [hturns'.act_eq]
  refine ⟨rfl, ?_, ?_, hwire, hsame, fun wake' request' hmem => ?_⟩
  · simp only [h.flights]
  · simp only [h.log, deeds_congr h.service.registry]
  · rcases List.mem_or_eq_of_mem_set hmem with hmem | heq
    · exact h.conforms wake' request' hmem
    · cases turn with
      | finish answer => cases heq
      | wait duration next =>
        cases heq
        exact hturns.conforms hconforms hrequest

theorem Alongside.step (h : Alongside window t t') (hconforms : t.Conforms window)
    (transport : Transport ω) (move : Move) :
    Alongside window (t.step transport move) (t'.step transport move) := by
  cases move with
  | operate op =>
    refine ⟨h.now, h.flights, ?_, h.wire, ?_, h.conforms⟩
    · simp only [Traffic.step, h.log, replacedBy_congr h.service]
    · simp only [Traffic.step, h.now]
      exact h.service.operate op
  | arrive id options =>
    refine ⟨h.now, ?_, h.log, h.wire, h.service, fun wake request hmem => ?_⟩
    · simp only [Traffic.step, h.flights, h.now]
    · rcases List.mem_append.1 hmem with hmem | hmem
      · exact h.conforms wake request hmem
      · cases List.mem_singleton.1 hmem
        intro job hjob
        cases hjob
  | turn flight =>
    unfold Traffic.step
    rw [h.flights, h.now]
    dsimp only
    cases hflight : t.flights[flight]? with
    | none => exact h
    | some course =>
      cases course with
      | done time answer => exact h
      | pending wake request =>
        dsimp only
        split
        · exact h.act hconforms transport hflight
        · exact h
  | pass ms =>
    have hlater := h.service.mono (Nat.le_add_right t.now ms)
    refine ⟨?_, h.flights, h.log, h.wire, ?_, h.conforms⟩
    · simp only [Traffic.step, h.now]
    · simp only [Traffic.step, h.now]
      exact ((hlater.pass t.now).symm.pass t.now).symm

/-- A sweep of the second run is not seen. -/
theorem Alongside.upkeep (h : Alongside window t t') (transport : Transport ω) (u : Upkeep) :
    Alongside window t (t'.beat transport (.upkeep u)) := by
  refine ⟨h.now, h.flights, h.log, h.wire, ?_, h.conforms⟩
  simp only [beat, h.now]
  exact h.service.upkeep u

theorem alongside_start (window : String → Nat) (strategy : KeyStrategy) (tokens : Tokens)
    (events : Channel) (state : ω) :
    Alongside window (start strategy tokens events state) (start strategy tokens events state) where
  now := rfl
  flights := rfl
  log := rfl
  wire := rfl
  service := ⟨rfl, rfl, rfl, Limiter.agree_empty window _, fun _ _ _ => rfl, rfl, rfl⟩
  conforms _ _ h := by cases h

end Traffic

/-! ## Cutting the time that passes -/

theorem Service.pass_pass (s : Service) {since between now : Nat} (h : since ≤ between)
    (h' : between ≤ now) : (s.pass since between).pass between now = s.pass since now := by
  unfold pass
  cases hm : s.maintenance with
  | none => simp [hm]
  | some m => simp [m.sweepCache_cut _ h h', Limiter.sweepLimiter_cut m _ h h']

namespace Traffic

variable {ω : Type} {window : String → Nat}

theorem step_pass_add (transport : Transport ω) (t : Traffic ω) (ms ms' : Nat) :
    (t.step transport (.pass ms)).step transport (.pass ms') = t.step transport (.pass (ms + ms')) := by
  have hcut := Service.pass_pass t.world.service (Nat.le_add_right t.now ms)
    (Nat.le_add_right (t.now + ms) ms')
  rw [Nat.add_assoc] at hcut
  simp only [step, Nat.add_assoc, hcut]

/-! ## All runs -/

theorem alongside_play (transport : Transport ω) {t t' : Traffic ω} (h : Alongside window t t')
    (beats : List Beat)
    (hconforms : ∀ earlier, earlier <+: beats →
      (t.run transport (Beat.moves earlier)).Conforms window) :
    Alongside window (t.run transport (Beat.moves beats)) (t'.play transport beats) := by
  induction beats generalizing t t' with
  | nil => exact h
  | cons b beats ih =>
    have hnow : t.Conforms window := hconforms [] (List.nil_prefix)
    cases b with
    | move m =>
      refine ih (h.step hnow transport m) fun earlier hearlier => ?_
      exact hconforms (.move m :: earlier) ((List.prefix_cons_inj _).2 hearlier)
    | upkeep u =>
      refine ih (h.upkeep transport u) fun earlier hearlier => ?_
      exact hconforms (.upkeep u :: earlier) ((List.prefix_cons_inj _).2 hearlier)

/-- Sweeps between the moves of a run, and periodic ones, change nothing that anyone sees, at any point of
the run: neither the time, nor the requests in flight with what they wait for and the answers with their
times, nor the calls sent with their times, nor the statistics, the events and the endpoints. Only, no
endpoint may be given windows of two lengths. As time that passes may be cut in two at any instant, a
sweep may come at any instant. -/
theorem sweeps_unobservable (transport : Transport ω) (strategy : KeyStrategy) (tokens : Tokens)
    (events : Channel) (state : ω) (beats : List Beat) (window : String → Nat)
    (hwindow : ∀ earlier, earlier <+: beats → ∀ id e limit,
      ((start strategy tokens events state).run transport
        (Beat.moves earlier)).world.service.registry.get? id = some e →
      e.rateLimit = some limit → limit.window = window e.id) :
    (∀ earlier, earlier <+: beats →
      let t := (start strategy tokens events state).run transport (Beat.moves earlier)
      let t' := (start strategy tokens events state).play transport earlier
      t'.now = t.now ∧ t'.flights = t.flights ∧ t'.world.wire = t.world.wire ∧
        t'.world.service.metrics = t.world.service.metrics ∧
        t'.world.service.events = t.world.service.events ∧
        t'.world.service.registry = t.world.service.registry) ∧
    ∀ (t : Traffic ω) (ms ms' : Nat), (t.step transport (.pass ms)).step transport (.pass ms') =
      t.step transport (.pass (ms + ms')) := by
  refine ⟨fun earlier hearlier => ?_, step_pass_add transport⟩
  have hconforms : ∀ before, before <+: earlier →
      ((start strategy tokens events state).run transport (Beat.moves before)).Conforms window :=
    fun before hbefore id e hid limit hlimit =>
      hwindow before (hbefore.trans hearlier) id e limit hid hlimit
  have halong := alongside_play transport (alongside_start window strategy tokens events state) earlier
    hconforms
  exact ⟨halong.now, halong.flights, halong.wire, halong.service.metrics, halong.service.events,
    halong.service.registry⟩

/-- An endpoint that keeps responses for 100 milliseconds and takes a call every 50. -/
def throttled : Endpoint := { Endpoint.keeping with rateLimit := some ⟨1, 50, false, none⟩ }

/-- A request, both sweeps at the time when its response expires, and another request. -/
def sweptBetween : List Beat :=
  [.move (.operate (.register throttled)), .move (.arrive "a" .plain), .move (.turn 0), .move (.pass 5),
    .move (.turn 0), .move (.pass 100), .upkeep .sweepCache, .upkeep .sweepLimiter,
    .move (.arrive "a" .plain), .move (.turn 1)]

/-- The sweeps take a response and a window, and the second request is on its way all the same. -/
theorem sweeps_unobservable_sweptBetween :
    let t := fun n => (start .request none (.create 1 0) ()).run .steady (Beat.moves (sweptBetween.take n))
    let t' := fun n => (start .request none (.create 1 0) ()).play .steady (sweptBetween.take n)
    (t 8).world.service.cache.size = 1 ∧ (t' 8).world.service.cache.size = 0 ∧
      (t 8).world.service.limiter.size = 1 ∧ (t' 8).world.service.limiter.size = 0 ∧
      (t' 10).flights = (t 10).flights ∧ (t' 10).world.wire = (t 10).world.wire ∧
      (t' 10).world.service.metrics = (t 10).world.service.metrics ∧
      (t' 10).world.service.events = (t 10).world.service.events := by
  intro t t'
  have hregistry : ∀ n ≤ 10, (t n).world.service.registry = .empty ∨
      (t n).world.service.registry = ⟨Dict.empty.insert "a" throttled⟩ := by
    intro n hn
    interval_cases n
    · exact .inl rfl
    all_goals exact .inr rfl
  have hwindow : ∀ earlier, earlier <+: sweptBetween → ∀ id e limit,
      ((start .request none (.create 1 0) ()).run .steady
        (Beat.moves earlier)).world.service.registry.get? id = some e →
      e.rateLimit = some limit → limit.window = 50 := by
    intro earlier hearlier id e limit hid hlimit
    rw [List.prefix_iff_eq_take.1 hearlier] at hid
    rcases hregistry earlier.length hearlier.length_le with h | h
    · rw [h] at hid
      cases hid
    · rw [h, Registry.get?, Dict.get?_insert] at hid
      split at hid
      · cases hid
        cases hlimit
        rfl
      · cases hid
  obtain ⟨hplay, -⟩ := sweeps_unobservable .steady .request none (.create 1 0) () sweptBetween
    (fun _ => 50) hwindow
  obtain ⟨-, hflights, hwire, hmetrics, hevents, -⟩ := hplay sweptBetween (List.prefix_refl _)
  exact ⟨rfl, rfl, rfl, rfl, hflights, hwire, hmetrics, hevents⟩

end Traffic

end Egress
