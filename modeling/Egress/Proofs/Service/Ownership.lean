import Egress.Proofs.Service.Parts

/-!
# What is kept belongs to a registered endpoint

`Session.Reachable` are the sessions that complete operations lead to, whatever they are.

* `Service.Tidy`: there are statistics of the registered ids and of no others, and windows and kept responses
  of registered ids only. Turns (`Tidy.turn`), operations (`Tidy.operate`) and time keep to it.
* `Session.play_congr`: sessions with the same part for an id answer all later requests to it alike.
* `Session.Reachable.tidy_and_clean`: hence an endpoint that is registered anew begins as in a new service.
-/

set_option autoImplicit false

namespace Egress

namespace Service

/-- Whatever is kept is of a registered endpoint. -/
structure Tidy (s : Service) : Prop where
  own : s.OwnIds
  valid : ∀ id e, s.registry.get? id = some e → e.flaw? = none
  counted : ∀ id, (s.metrics.get? id).isSome = (s.registry.get? id).isSome
  limited : ∀ id, s.limiter.windows.get? id ≠ none → s.registry.get? id ≠ none
  kept : ∀ key entry, s.cache.entries.get? key = some entry →
    ∃ id options, s.registry.get? id ≠ none ∧ key = s.strategy.key id options

variable {s s' : Service}

/-- A service with the same endpoints, statistics and settings that keeps no more is as tidy. -/
theorem Tidy.of_less (h : s.Tidy) (hregistry : s'.registry = s.registry)
    (hstrategy : s'.strategy = s.strategy)
    (hmetrics : ∀ id, (s'.metrics.get? id).isSome = (s.metrics.get? id).isSome)
    (hwindows : ∀ id, s'.limiter.windows.get? id ≠ none → s.limiter.windows.get? id ≠ none)
    (hentries : ∀ key entry, s'.cache.entries.get? key = some entry →
      ∃ entry, s.cache.entries.get? key = some entry) : s'.Tidy where
  own id e he := h.own id e (hregistry ▸ he)
  valid id e he := h.valid id e (hregistry ▸ he)
  counted id := by rw [hmetrics, hregistry, h.counted]
  limited id hid := by
    rw [hregistry]
    exact h.limited id (hwindows id hid)
  kept key entry hget := by
    obtain ⟨entry', hentry⟩ := hentries key entry hget
    rw [hregistry, hstrategy]
    exact h.kept key entry' hentry

theorem tidy_create (strategy : KeyStrategy) (tokens : Tokens) (events : Channel) :
    (create strategy tokens events).Tidy where
  own _ _ h := by cases h
  valid _ _ h := by cases h
  counted _ := rfl
  limited _ h := absurd rfl h
  kept _ _ h := by cases h

/-- An id that is not registered has nothing. -/
theorem Tidy.part_of_unregistered (h : s.Tidy) {id : String} (hid : s.registry.get? id = none) :
    s.part id = ⟨s.strategy, s.maintenance, s.tokens.map fun known => known.get? id, none, none, none, ∅⟩ := by
  refine Part.ext rfl rfl rfl hid ?_ ?_ ?_
  · exact Classical.not_not.1 fun hwindow => h.limited id hwindow hid
  · have hcounted := h.counted id
    rw [hid, Option.isSome_none, Option.isSome_eq_false_iff, Option.isNone_iff_eq_none] at hcounted
    exact hcounted
  · refine Dict.ext_get? fun key => ?_
    show (s.cache.owned id).get? key = none
    rw [Cache.get?_owned]
    split
    · next howner =>
      cases hget : s.cache.entries.get? key with
      | none => rfl
      | some entry =>
        obtain ⟨id', options, hid', rfl⟩ := h.kept key entry hget
        obtain ⟨e, he⟩ := Option.ne_none_iff_exists'.1 hid'
        rw [Cache.owner_key _ _ (h.own id' e he).2] at howner
        exact absurd (howner ▸ hid) hid'
    · rfl

/-! ## Operations -/

theorem Tidy.pass (h : s.Tidy) (since now : Nat) : (s.pass since now).Tidy := by
  have halike := s.pass_alike since now
  refine h.of_less halike.registry halike.strategy (fun id => by rw [pass_metrics]) (fun id hid => ?_)
    fun key entry hget => ⟨entry, halike.kept key entry hget⟩
  unfold Service.pass at hid
  cases hm : s.maintenance with
  | none =>
    rw [hm] at hid
    exact hid
  | some m =>
    rw [hm] at hid
    dsimp only [Maintenance.sweepLimiter] at hid
    intro hnone
    cases htick : Maintenance.lastTick? m.start m.limiterPeriod since now with
    | none =>
      rw [htick] at hid
      exact hid hnone
    | some tick =>
      rw [htick] at hid
      exact hid (by simp [Limiter.sweep, Dict.get?_filter, hnone])

theorem Tidy.register (h : s.Tidy) {e : Endpoint} (hreg : s.register e = .ok s') : s'.Tidy := by
  have hown := h.own.register hreg
  have hlimiter : s'.limiter = s.limiter ∧ s'.metrics = s.metrics.reset e.id := by
    unfold Service.register at hreg
    cases hr : s.registry.register e <;> rw [hr] at hreg <;> cases hreg
    exact ⟨rfl, rfl⟩
  obtain ⟨hflaw, -, hregistry, hstrategy, hcache⟩ := register_eq_ok hreg
  have hget : ∀ id, s'.registry.get? id = if e.id = id then some e else s.registry.get? id := by
    intro id
    rw [hregistry]
    exact Dict.get?_insert ..
  have hstays : ∀ id, s.registry.get? id ≠ none → s'.registry.get? id ≠ none := by
    intro id hid
    rw [hget]
    split
    · exact Option.some_ne_none e
    · exact hid
  refine ⟨hown, fun id e' he' => ?_, fun id => ?_, fun id hid => ?_, fun key entry hentry => ?_⟩
  · rw [hget] at he'
    split at he'
    · cases he'
      exact hflaw
    · exact h.valid id e' he'
  · rw [hget, hlimiter.2, Metrics.reset, Metrics.get?, Dict.get?_insert]
    split
    · rfl
    · exact h.counted id
  · rw [hlimiter.1] at hid
    exact hstays id (h.limited id hid)
  · rw [hcache] at hentry
    obtain ⟨id, options, hid, hkey⟩ := h.kept key entry hentry
    exact ⟨id, options, hstays id hid, by rw [hstrategy]; exact hkey⟩

theorem Replaced.tidy {es : List Endpoint} {told : List Event} (h : s.Replaced es told s')
    (hflaw : ∀ e ∈ es, e.flaw? = none) : s'.Tidy where
  own := h.own hflaw
  valid id e he := hflaw e ((h.registry id e).1 he).1
  counted id := by rw [h.stats, Option.isSome_map]
  limited id hid := by
    rw [h.limiter] at hid
    exact absurd rfl hid
  kept key entry hget := by
    rw [h.cache] at hget
    cases hget

theorem Tidy.importText (h : s.Tidy) (text : String) : (s.importText text).2.Tidy := by
  obtain ⟨-, heq⟩ | ⟨-, es, told, hflaw, hafter, -⟩ := importText_cases s text
  · rw [heq]
    exact h
  · exact hafter.tidy hflaw

/-- What is dropped from the store of an id leaves it tidy. -/
theorem exists_of_get?_invalidateEndpoint {c : Cache Envelope} {id key : String}
    {entry : Cache.Entry Envelope} (h : (c.invalidateEndpoint id).entries.get? key = some entry) :
    c.entries.get? key = some entry ∧ Cache.belongsTo key id = false := by
  obtain ⟨hget, hkeep⟩ := Dict.get?_filter_eq_some_iff.1 h
  exact ⟨hget, by simpa using hkeep⟩

theorem Tidy.update (h : s.Tidy) {id : String} {u : EndpointUpdate} {e : Endpoint} {r : Registry}
    (hup : s.registry.update id u = .ok (e, r)) :
    ({ s with registry := r, cache := s.cache.invalidateEndpoint id } : Service).Tidy := by
  obtain ⟨old, hold, rfl, hflaw, rfl⟩ := Registry.update_eq_ok hup
  obtain ⟨hid, hsep⟩ := h.own id old hold
  have hget : ∀ k, (Registry.mk (s.registry.endpoints.insert id (old.apply u))).get? k =
      if id = k then some (old.apply u) else s.registry.get? k := fun k => Dict.get?_insert ..
  -- the id was registered before and is registered still
  have hsame : ∀ k, ((Registry.mk (s.registry.endpoints.insert id (old.apply u))).get? k).isSome =
      (s.registry.get? k).isSome := by
    intro k
    rw [hget]
    split
    · next heq =>
      rw [← heq, hold]
      rfl
    · rfl
  have hstays : ∀ k, s.registry.get? k ≠ none →
      (Registry.mk (s.registry.endpoints.insert id (old.apply u))).get? k ≠ none := by
    intro k hk
    rw [← Option.isSome_iff_ne_none, hsame, Option.isSome_iff_ne_none]
    exact hk
  refine ⟨h.own.insert (e := old.apply u) hid hsep rfl, fun k e he => ?_, fun k => ?_,
    fun k hk => hstays k (h.limited k hk), fun key entry hentry => ?_⟩
  · dsimp only at he
    rw [hget] at he
    split at he
    · cases he
      exact hflaw
    · exact h.valid k e he
  · exact (h.counted k).trans (hsame k).symm
  · obtain ⟨k, options, hk, hkey⟩ := h.kept key entry (exists_of_get?_invalidateEndpoint hentry).1
    exact ⟨k, options, hstays k hk, hkey⟩

theorem Tidy.unregister (h : s.Tidy) {id : String} {e : Endpoint} {r : Registry}
    (hun : s.registry.unregister id = .ok (e, r)) :
    ({ s with
      registry := r
      cache := s.cache.invalidateEndpoint id
      limiter := s.limiter.reset id
      metrics := s.metrics.remove id } : Service).Tidy := by
  obtain ⟨he, rfl⟩ := Registry.unregister_eq_ok hun
  have hget : ∀ k, (Registry.mk (s.registry.endpoints.erase id)).get? k =
      if id = k then none else s.registry.get? k := fun k => Dict.get?_erase ..
  refine ⟨h.own.erase rfl, fun k e he => ?_, fun k => ?_, fun k hk => ?_, fun key entry hentry => ?_⟩
  · dsimp only at he
    rw [hget] at he
    split at he
    · cases he
    · exact h.valid k e he
  · dsimp only [Metrics.remove, Metrics.get?]
    rw [hget, Dict.get?_erase]
    split
    · rfl
    · exact h.counted k
  · dsimp only [Limiter.reset] at hk ⊢
    rw [Dict.get?_erase] at hk
    rw [hget]
    split at hk
    · exact absurd rfl hk
    · next hne =>
      rw [if_neg hne]
      exact h.limited k hk
  · obtain ⟨hentry, hbelongs⟩ := exists_of_get?_invalidateEndpoint hentry
    obtain ⟨k, options, hk, hkey⟩ := h.kept key entry hentry
    refine ⟨k, options, ?_, hkey⟩
    dsimp only
    rw [hget, if_neg]
    · exact hk
    · rintro rfl
      have hsep := (h.own id e he).2
      rw [hkey, (s.strategy.belongsTo_key options hsep hsep).2 rfl] at hbelongs
      cases hbelongs

theorem Tidy.publish (h : s.Tidy) (event : Event) : (s.publish event).Tidy :=
  ⟨h.own, h.valid, h.counted, h.limited, h.kept⟩

/-- Every operation keeps the service tidy, whether it succeeds or not. -/
theorem Tidy.operate (h : s.Tidy) (now : Nat) (op : Operation) : (s.operate now op).1.Tidy := by
  cases op with
  | register e =>
    simp only [Service.operate]
    split
    · exact h
    · next hreg => exact h.register hreg
  | update id u =>
    simp only [Service.operate, Service.update]
    cases hup : s.registry.update id u with
    | error error => exact h
    | ok updated => exact (h.update hup).publish _
  | unregister id =>
    simp only [Service.operate, Service.unregister]
    cases hun : s.registry.unregister id with
    | error error => exact h
    | ok removed => exact (h.unregister hun).publish _
  | clearCache id =>
    refine h.of_less rfl rfl (fun _ => rfl) (fun _ hid => hid) fun key entry hentry => ?_
    cases id with
    | none => cases hentry
    | some id => exact ⟨entry, (exists_of_get?_invalidateEndpoint hentry).1⟩
  | importText text => exact h.importText text
  | sweep =>
    refine h.of_less rfl rfl (fun _ => rfl) (fun id hid hnone => ?_) fun key entry hentry =>
      ⟨entry, Cache.get?_of_get?_sweep hentry⟩
    exact hid (by simp [Service.operate, Service.sweep, Limiter.sweep, Dict.get?_filter, hnone])
  | setToken id token | startMaintenance periods | stopMaintenance =>
    exact h.of_less rfl rfl (fun _ => rfl) (fun _ hid => hid) fun key entry hentry => ⟨entry, hentry⟩

end Service

/-! ## Turns -/

/-- The endpoint that a request has found is registered. -/
def Request.Known (s : Service) (request : Request) : Prop :=
  ∀ job, request.job? = some job → s.registry.get? job.endpoint.id ≠ none

theorem Request.Known.congr {s s' : Service} {request : Request} (h : request.Known s)
    (hregistry : s'.registry = s.registry) : request.Known s' :=
  fun job hjob => hregistry ▸ h job hjob

theorem Request.Known.plain {s : Service} {request : Request} (h : request.Known s) (hown : s.OwnIds) :
    request.Plain := by
  intro job hjob
  obtain ⟨e, he⟩ := Option.ne_none_iff_exists'.1 (h job hjob)
  exact (hown _ e he).2

namespace World

variable {ω : Type} {transport : Transport ω} {now : Nat} {w w' : World ω} {request : Request}
  {turn : Turn Request Answer}

/-- A request that waits knows a registered endpoint. -/
theorem Turns.known {next : Request} {duration : Nat}
    (h : Turns transport now w request w' (.wait duration next)) (hown : w.service.OwnIds)
    (hknown : request.Known w.service) : next.Known w'.service := by
  have hregistry := h.registry
  have hid := (h.id_next hown (hknown.plain hown)).1
  have hsome : w.service.registry.get? request.id ≠ none := by
    cases h with
    | found hget => exact Option.ne_none_iff_exists'.2 ⟨_, hget⟩
    | wait | miss | call | again => exact hknown _ rfl
  intro job hjob
  have hnext : job.endpoint.id = next.id := by
    cases next with
    | arriving => cases hjob
    | queueing | working => cases hjob; rfl
  rw [hregistry, hnext, hid]
  exact hsome

theorem Turns.tidy_of_job (h : Turns transport now w request w' turn) (htidy : w.service.Tidy) {job : Job}
    (hjob : request.job? = some job) (hid : w.service.registry.get? job.endpoint.id ≠ none) :
    w'.service.Tidy := by
  have hregistry := h.registry
  have hplain : request.Plain := Request.Known.plain (fun job' hjob' => by
    rw [hjob] at hjob'
    cases hjob'
    exact hid) htidy.own
  have hrequest : request.id = job.endpoint.id := by
    cases request with
    | arriving => cases hjob
    | queueing | working => cases hjob; rfl
  refine ⟨htidy.own.congr hregistry, fun id e he => htidy.valid id e (hregistry ▸ he), fun id => ?_,
    fun id hwindow => ?_, fun key entry hentry => ?_⟩
  · rw [hregistry, ← htidy.counted id]
    cases turn with
    | wait duration next => rw [h.metrics_wait hjob]
    | finish answer =>
      rw [h.metrics_finish hjob id]
      by_cases heq : job.endpoint.id = id
      · have hsome := Option.isSome_iff_ne_none.2 hid
        rw [← heq, htidy.counted, hsome, Bool.or_true]
      · rw [decide_eq_false heq, Bool.false_or]
  · rw [hregistry]
    by_cases heq : job.endpoint.id = id
    · exact heq ▸ hid
    · have hpart : w'.service.limiter.windows.get? id = w.service.limiter.windows.get? id :=
        congrArg Part.window (h.part_of_ne htidy.own hplain (hrequest.trans_ne heq))
      exact htidy.limited id (hpart ▸ hwindow)
  · rw [hregistry]
    obtain ⟨halike, -⟩ | ⟨job', n, envelope, rfl, rfl, -⟩ := h.alike
    · rw [halike.strategy]
      exact htidy.kept key entry (halike.kept key entry hentry)
    · cases hjob
      obtain ⟨hkey, -⟩ | hentry := Service.get?_of_get?_conclude hentry
      · exact ⟨job.endpoint.id, job.options, hid, hkey⟩
      · exact htidy.kept key entry hentry

/-- Every turn keeps the service tidy. -/
theorem Turns.tidy (h : Turns transport now w request w' turn) (htidy : w.service.Tidy)
    (hknown : request.Known w.service) : w'.service.Tidy := by
  cases request with
  | arriving id options =>
    cases h with
    | unknown => exact htidy
    | @found _ _ e _ _ hget hturn =>
      refine hturn.tidy_of_job htidy rfl ?_
      show w.service.registry.get? e.id ≠ none
      rw [(htidy.own id e hget).1, hget]
      exact Option.some_ne_none e
  | queueing job => exact h.tidy_of_job htidy rfl (hknown job rfl)
  | working job stage => exact h.tidy_of_job htidy rfl (hknown job rfl)

end World

/-! ## Complete operations -/

/-- Something that is done to a service and completed before anything else is done. -/
inductive Step
  | operate (op : Operation)
  /-- Nothing is done for some time. -/
  | advance (ms : Nat)
  /-- Requests are made side by side; one alone, the items of a batch, or checks of health. -/
  | requests (calls : List (String × CallOptions))

/-- All requests of the step go to one id. -/
def Step.On (id : String) : Step → Prop
  | .requests calls => ∀ call ∈ calls, call.1 = id
  | _ => True

namespace Session

variable {ω : Type} {transport : Transport ω}

/-- Takes a step; the answers to its requests with their times, and the session after it. -/
def take (s : Session ω) (transport : Transport ω) (fuel : Nat) :
    Step → Option (List (Nat × Answer) × Session ω)
  | .operate op => some ([], (s.operate op).1)
  | .advance ms => some ([], s.advance ms)
  | .requests calls => s.requests transport fuel calls

/-- Takes steps one after the other. -/
def play (s : Session ω) (transport : Transport ω) (fuel : Nat) :
    List Step → Option (List (List (Nat × Answer)) × Session ω)
  | [] => some ([], s)
  | step :: steps => do
    let (answers, s) ← s.take transport fuel step
    let (rest, s) ← s.play transport fuel steps
    return (answers :: rest, s)

/-- The sessions that complete operations lead to. -/
inductive Reachable (transport : Transport ω) : Session ω → Prop
  | start (strategy : KeyStrategy) (tokens : Tokens) (events : Channel) (state : ω) :
      Reachable transport (.start (.create strategy tokens events) state)
  | step {s after : Session ω} (h : Reachable transport s) {fuel : Nat} {step : Step}
      {answers : List (Nat × Answer)} (hstep : s.take transport fuel step = some (answers, after)) :
      Reachable transport after

theorem keeps_tidy (transport : Transport ω) :
    Schedule.Keeps (World.workshop transport) (fun _ w => w.service.Tidy)
      fun w request => request.Known w.service where
  pass since now w _ h := h.pass since now
  pass_fit since now w request hknown :=
    hknown.congr (w.service.pass_alike since now).registry
  act now w request h hknown := (World.act_turns transport now w request).tidy h hknown
  act_fit now w request other _ _ hother :=
    hother.congr (World.act_turns transport now w request).registry
  next now w request duration next h hknown hturn := by
    have hturns := World.act_turns transport now w request
    change (World.act transport now w request).2 = _ at hturn
    rw [hturn] at hturns
    exact hturns.known h.own hknown

theorem Reachable.tidy {s : Session ω} (h : Reachable transport s) : s.world.service.Tidy := by
  induction h with
  | start strategy tokens events state => exact Service.tidy_create strategy tokens events
  | @step s after _ fuel step answers hstep ih =>
    cases step with
    | operate op =>
      cases hstep
      exact ih.operate s.now op
    | advance ms =>
      cases hstep
      exact ih.pass s.now (s.now + ms)
    | requests calls =>
      obtain ⟨outcome, hrun, heq⟩ := Option.map_eq_some_iff.1 hstep
      cases heq
      refine ((keeps_tidy transport).run ih (fun wake request hmem => ?_) hrun).2
      obtain ⟨call, -, heq⟩ := List.mem_map.1 hmem
      cases heq
      intro job hjob
      cases hjob

theorem Reachable.play {s after : Session ω} (h : Reachable transport s) {fuel : Nat} {steps : List Step}
    {answers : List (List (Nat × Answer))}
    (hplay : s.play transport fuel steps = some (answers, after)) : Reachable transport after := by
  induction steps generalizing s answers with
  | nil =>
    cases hplay
    exact h
  | cons step steps ih =>
    simp only [Session.play, Option.bind_eq_bind, Option.pure_def, Option.bind_eq_some_iff, Prod.exists,
      Option.some.injEq, Prod.mk.injEq] at hplay
    obtain ⟨first, next, htake, rest, last, hrest, -, rfl⟩ := hplay
    exact ih (h.step htake) hrest

end Session

/-! ## Beginning anew -/

namespace Service

variable {s s' : Service}

theorem OwnIds.operate (h : s.OwnIds) (now : Nat) (op : Operation) : (s.operate now op).1.OwnIds := by
  cases op with
  | register e =>
    simp only [Service.operate]
    split
    · exact h
    · next hreg => exact h.register hreg
  | update id u =>
    simp only [Service.operate, Service.update]
    cases hup : s.registry.update id u with
    | error error => exact h
    | ok updated =>
      obtain ⟨e, r⟩ := updated
      obtain ⟨old, hold, rfl, -, rfl⟩ := Registry.update_eq_ok hup
      obtain ⟨hid, hsep⟩ := h id old hold
      exact h.insert (e := old.apply u) hid hsep rfl
  | unregister id =>
    simp only [Service.operate, Service.unregister]
    cases hun : s.registry.unregister id with
    | error error => exact h
    | ok removed =>
      obtain ⟨e, r⟩ := removed
      obtain ⟨-, rfl⟩ := Registry.unregister_eq_ok hun
      exact h.erase rfl
  | importText text =>
    obtain ⟨-, heq⟩ | ⟨-, es, told, hflaw, hafter, -⟩ := importText_cases s text
    · rw [Service.operate, heq]
      exact h
    · exact hafter.own hflaw
  | clearCache | setToken | sweep | startMaintenance | stopMaintenance => exact h

/-- The operation puts the endpoint where there was none, or where everything was cleared before. -/
def Introduces (s : Service) (e : Endpoint) : Operation → Prop
  | .register e' => e' = e ∧ ∃ s', s.register e = .ok s'
  | .importText text => importClears text = true ∧ (s.importText text).2.registry.get? e.id = some e
  | _ => False

/-- What there is of an endpoint that is introduced: its definition, and statistics of no request. -/
theorem Tidy.part_of_introduces (h : s.Tidy) {e : Endpoint} (op : Operation) (hop : s.Introduces e op)
    (now : Nat) :
    (s.operate now op).1.part e.id = ⟨s.strategy, s.maintenance, s.tokens.map fun known => known.get? e.id,
      some e, none, some Stats.zero, ∅⟩ ∧ e.flaw? = none := by
  cases op with
  | register e' =>
    obtain ⟨rfl, s', hreg⟩ := hop
    have hblank := h.part_of_unregistered (register_eq_ok hreg).2.1
    obtain ⟨-, -, -, -, hwindow, -, hresponses⟩ := Part.mk.inj hblank
    simp only [Service.operate, hreg]
    unfold Service.register at hreg
    cases hr : s.registry.register e' with
    | error error =>
      rw [hr] at hreg
      cases hreg
    | ok r =>
      rw [hr] at hreg
      cases hreg
      obtain ⟨hflaw, -, rfl⟩ := Registry.register_eq_ok hr
      exact ⟨Part.ext rfl rfl rfl (Dict.get?_insert_self _ _ _) hwindow (Dict.get?_insert_self _ _ _)
        hresponses, hflaw⟩
  | importText text =>
    obtain ⟨hclears, hget⟩ := hop
    obtain ⟨hnot, -⟩ | ⟨-, es, told, hflaw, hafter, -⟩ := importText_cases s text
    · rw [hclears] at hnot
      cases hnot
    · have hzero : (s.importText text).2.metrics.get? e.id = some Stats.zero := by
        rw [hafter.stats, hget, Option.map_some]
      refine ⟨Part.ext hafter.strategy hafter.maintenance ?_ hget ?_ hzero ?_,
        hflaw e ((hafter.registry e.id e).1 hget).1⟩
      · exact congrArg (Option.map fun known => known.get? e.id) hafter.tokens
      · exact congrArg (fun l : Limiter => l.windows.get? e.id) hafter.limiter
      · exact congrArg (fun c : Cache Envelope => c.owned e.id) hafter.cache
  | _ => exact hop.elim

end Service

namespace Session

variable {ω : Type} {transport : Transport ω}

/-- The worlds have the same part for an id and the same transport; calls were sent before in the first one. -/
structure SamePart (id : String) (before : List Sent) (w w' : World ω) : Prop where
  own : w.service.OwnIds
  own' : w'.service.OwnIds
  part : w'.service.part id = w.service.part id
  wire : w.wire = ⟨w'.wire.state, w'.wire.sent ++ before⟩

theorem lockstep_samePart (transport : Transport ω) (id : String) (before : List Sent) :
    Lockstep (World.workshop transport) (World.workshop transport) (SamePart id before)
      fun request => request.Plain ∧ request.id = id where
  pass since now w w' h :=
    ⟨h.own.congr (w.service.pass_alike since now).registry,
      h.own'.congr (w'.service.pass_alike since now).registry, Service.part_pass_congr h.part since now,
      h.wire⟩
  act now w w' request h hfit := by
    obtain ⟨hplain, rfl⟩ := hfit
    have hturns := World.act_turns transport now w request
    have hreply : ∀ call,
        (transport.send w'.wire.state now call).1 = (transport.send w.wire.state now call).1 := by
      intro call
      rw [h.wire]
    obtain ⟨w₁', sent, hturns', hpart, hsent, hsent', hstate⟩ :=
      hturns.part_congr h.own hplain h.part hreply
    have hact := hturns'.act_eq
    have hregistry := hturns'.registry
    refine ⟨by simp only [World.workshop, hact], h.own.congr hturns.registry, ?_, ?_, ?_⟩
    · simp only [World.workshop, hact]
      exact h.own'.congr hregistry
    · simp only [World.workshop, hact]
      exact hpart
    · simp only [World.workshop, hact]
      have hsame := hstate (by rw [h.wire])
      rcases hw : (World.act transport now w request).1.wire with ⟨state, record⟩
      rw [hw] at hsent hsame
      dsimp only at hsent hsame
      rw [hsame, hsent, hsent', h.wire, List.append_assoc]
  next now w w' request duration next h hfit hturn := by
    have hturns := World.act_turns transport now w request
    change (World.act transport now w request).2 = _ at hturn
    rw [hturn] at hturns
    obtain ⟨hid, hplain⟩ := hturns.id_next h.own hfit.1
    exact ⟨hplain, hid.trans hfit.2⟩

/-- The answers of two sessions and what they come to are the same as far as an id is concerned. -/
def SameSteps {α : Type} (id : String) (before : List Sent) (r r' : α × Session ω) : Prop :=
  r'.1 = r.1 ∧ r'.2.now = r.2.now ∧ SamePart id before r.2.world r'.2.world

theorem take_congr (transport : Transport ω) {s s' : Session ω} {id : String} {before : List Sent}
    (hnow : s'.now = s.now) (h : SamePart id before s.world s'.world) {step : Step} (hstep : step.On id)
    (fuel : Nat) :
    Option.Rel (SameSteps id before) (s.take transport fuel step) (s'.take transport fuel step) := by
  cases step with
  | operate op =>
    refine .some ⟨rfl, hnow, h.own.operate s.now op, h.own'.operate s'.now op, ?_, h.wire⟩
    have hpart := Service.part_operate_congr h.own h.own' h.part s.now op
    rw [← hnow] at hpart
    simpa only [operate, modify, hnow] using hpart
  | advance ms =>
    refine .some ⟨rfl, congrArg (· + ms) hnow, ?_⟩
    simp only [advance, modify, hnow]
    exact (lockstep_samePart transport id before).pass s.now (s.now + ms) _ _ h
  | requests calls =>
    unfold take requests
    rw [hnow]
    have hrun := (lockstep_samePart transport id before).run fuel s.now h
      (calls.map fun call => .pending s.now (.arriving call.1 call.2)) fun wake request hmem => by
        obtain ⟨call, hcall, heq⟩ := List.mem_map.1 hmem
        cases heq
        exact ⟨Request.plain_arriving call.1 call.2, hstep call hcall⟩
    refine Schedule.rel_map (fun outcome outcome' hend => ?_) hrun
    obtain ⟨htime, hshared, hcourses⟩ := hend
    exact ⟨by rw [hcourses], htime, hshared⟩

/-- Sessions with the same part for an id answer all later requests to it alike, whatever else is done in
between. -/
theorem play_congr (transport : Transport ω) {s s' : Session ω} {id : String} {before : List Sent}
    (hnow : s'.now = s.now) (h : SamePart id before s.world s'.world) {steps : List Step}
    (hsteps : ∀ step ∈ steps, step.On id) (fuel : Nat) :
    Option.Rel (SameSteps id before) (s.play transport fuel steps) (s'.play transport fuel steps) := by
  induction steps generalizing s s' with
  | nil => exact .some ⟨rfl, hnow, h⟩
  | cons step steps ih =>
    have hfirst := take_congr transport hnow h (hsteps step List.mem_cons_self) fuel
    unfold play
    generalize s.take transport fuel step = taken at hfirst
    generalize s'.take transport fuel step = taken' at hfirst
    cases hfirst with
    | none => exact .none
    | @some r r' hafter =>
      obtain ⟨hanswers, htime, hsame⟩ := hafter
      have hrest := ih htime hsame fun step hmem => hsteps step (List.mem_cons_of_mem _ hmem)
      simp only [Option.bind_eq_bind, Option.bind_some, Option.pure_def, hanswers]
      generalize r.2.play transport fuel steps = played at hrest
      generalize r'.2.play transport fuel steps = played' at hrest
      cases hrest with
      | none => exact .none
      | some hend => exact .some ⟨by rw [hend.1], hend.2⟩

/-- In every session that complete operations lead to there are statistics of the registered ids and of no
others, and every window and every kept response is of a registered id. An endpoint that is registered or
imported after that is answered to, in whatever is done next, as in a new service with the same settings
where it was just registered: the requests to it have the same answers at the same times, send the same
calls, and leave the same statistics, window and kept responses. -/
theorem Reachable.tidy_and_clean {s : Session ω} (h : Reachable transport s) :
    s.world.service.Tidy ∧
      ∀ op e, s.world.service.Introduces e op → ∀ events, ∃ fresh : Service,
        ({ Service.create s.world.service.strategy s.world.service.tokens events with
          maintenance := s.world.service.maintenance } : Service).register e = .ok fresh ∧
        ∀ steps, (∀ step ∈ steps, Step.On e.id step) → ∀ fuel,
          Option.Rel (fun r r' => r'.1 = r.1 ∧ r'.2.now = r.2.now ∧
              r'.2.world.service.part e.id = r.2.world.service.part e.id ∧
              r.2.world.wire = ⟨r'.2.world.wire.state, r'.2.world.wire.sent ++ s.world.wire.sent⟩)
            ((s.operate op).1.play transport fuel steps)
            ((⟨s.now, ⟨fresh, ⟨s.world.wire.state, []⟩⟩⟩ : Session ω).play transport fuel steps) := by
  refine ⟨h.tidy, fun op e hop events => ?_⟩
  obtain ⟨hpart, hflaw⟩ := h.tidy.part_of_introduces op hop s.now
  let blank : Service := { Service.create s.world.service.strategy s.world.service.tokens events with
    maintenance := s.world.service.maintenance }
  have hblank : blank.Tidy :=
    (Service.tidy_create s.world.service.strategy s.world.service.tokens events).of_less rfl rfl
      (fun _ => rfl) (fun _ hid => hid) fun _ entry hentry => ⟨entry, hentry⟩
  obtain ⟨fresh, hfresh⟩ : ∃ fresh, blank.register e = .ok fresh := by
    have hnew : blank.registry.contains e.id = false := rfl
    simp [Service.register, Registry.register, hflaw, hnew]
  have hpart' := (hblank.part_of_introduces (.register e) ⟨rfl, fresh, hfresh⟩ s.now).1
  simp only [Service.operate, hfresh] at hpart'
  refine ⟨fresh, hfresh, fun steps hsteps fuel => ?_⟩
  let anew : Session ω := ⟨s.now, ⟨fresh, ⟨s.world.wire.state, []⟩⟩⟩
  have hsame : SamePart e.id s.world.wire.sent (s.operate op).1.world anew.world :=
    ⟨h.tidy.own.operate s.now op, hblank.own.register hfresh, hpart'.trans hpart.symm, rfl⟩
  have hnow : anew.now = (s.operate op).1.now := rfl
  have hplay := play_congr transport hnow hsame hsteps fuel
  exact Schedule.rel_imp (fun r r' hend => ⟨hend.1, hend.2.1, hend.2.2.part, hend.2.2.wire⟩) hplay

/-- A session in which an endpoint was asked once, with its response kept, and was removed. -/
def usedAndRemoved : Option (List (List (Nat × Answer)) × Session Unit) :=
  (start (.create .request none (.create 1 0)) ()).play .steady 9
    [.operate (.register .keeping), .requests [("a", .plain)], .operate (.unregister "a")]

/-- When the endpoint is registered again a request to it has the answer that it has in a new service, by a
call. -/
theorem Reachable.tidy_and_clean_usedAndRemoved :
    ∃ answers s fresh r r', usedAndRemoved = some (answers, s) ∧ s.world.wire.sent.length = 1 ∧
      (Service.create .request none (.create 1 0)).register .keeping = .ok fresh ∧
      (s.operate (.register .keeping)).1.play .steady 9 [.requests [("a", .plain)]] = some r ∧
      (⟨s.now, ⟨fresh, ⟨(), []⟩⟩⟩ : Session Unit).play .steady 9 [.requests [("a", .plain)]] = some r' ∧
      r'.1 = r.1 ∧ r'.2.world.service.part "a" = r.2.world.service.part "a" ∧
      r.2.world.wire.sent = r'.2.world.wire.sent ++ s.world.wire.sent := by
  have hsome : usedAndRemoved.isSome = true := by rfl
  obtain ⟨⟨answers, s⟩, hplay⟩ := Option.isSome_iff_exists.1 hsome
  have hs : s = (usedAndRemoved.get hsome).2 := by simp only [hplay, Option.get_some]
  have hreachable : Reachable .steady s := (Reachable.start .request none (.create 1 0) ()).play hplay
  have hregister : ∃ s', s.world.service.register .keeping = .ok s' := by
    rw [hs]
    exact ⟨_, rfl⟩
  have hstrategy : s.world.service.strategy = .request := by rw [hs]; rfl
  have htokens : s.world.service.tokens = none := by rw [hs]; rfl
  have hmaintenance : s.world.service.maintenance = none := by rw [hs]; rfl
  obtain ⟨fresh, hfresh, hsteps⟩ := hreachable.tidy_and_clean.2 (.register .keeping) .keeping
    ⟨rfl, hregister⟩ (.create 1 0)
  rw [hstrategy, htokens, hmaintenance] at hfresh
  have hrel := hsteps [.requests [("a", .plain)]]
    (fun step hmem => by
      cases List.mem_singleton.1 hmem
      intro call hcall
      cases List.mem_singleton.1 hcall
      rfl) 9
  have hends : (usedAndRemoved.bind fun r => (r.2.operate (.register .keeping)).1.play .steady 9
      [.requests [("a", .plain)]]).isSome = true := by rfl
  rw [hplay, Option.bind_some] at hends
  obtain ⟨r, hr⟩ := Option.isSome_iff_exists.1 hends
  rw [hr] at hrel
  generalize hfreshPlay : Session.play _ _ _ _ = played at hrel
  cases hrel with
  | @some _ r' hend =>
    obtain ⟨hanswers, -, hpart, hwire⟩ := hend
    exact ⟨answers, s, fresh, r, r', hplay, by rw [hs]; rfl, hfresh, hr, hfreshPlay, hanswers, hpart,
      congrArg Wire.sent hwire⟩

end Session

end Egress
