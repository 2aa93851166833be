import Egress.Proofs.Service.Memory

/-!
# Requests in flight while endpoints come and go

`Traffic` is a service with any number of requests under way. They take their turns in any order, each
once its time has come, and anything may be done to the service between two turns. The log says, the
latest first, which request has looked up which endpoint, how it was answered, and when definitions were
replaced; `sinceReplaced id` is the part of it after the last time that the definition of `id` was
replaced.

* `Sound` ties registry, cache, statistics and the requests in flight to the log. Each move keeps to it
  (`Sound.step`), so it holds after all moves (`sound_run`).
-/

set_option autoImplicit false

namespace Egress

/-- A step in the log of a service with requests in flight. -/
inductive Deed
  /-- A request has found its endpoint. -/
  | found (flight : Nat) (job : Job)
  /-- A request that had found its endpoint was answered. -/
  | answered (flight : Nat) (job : Job) (answer : Answer)
  /-- The definition of an endpoint was replaced or removed; without an id, that of every endpoint. -/
  | replaced (id : Option String)

/-- Whether the definition of the endpoint was replaced or removed. -/
def Deed.replaces (id : String) : Deed → Bool
  | .replaced none => true
  | .replaced (some id') => id' = id
  | _ => false

/-- The log after the last replacement of the definition of an endpoint. -/
def sinceReplaced (id : String) (log : List Deed) : List Deed := log.takeWhile fun d => !d.replaces id

/-- The definitions that an operation replaces or removes. -/
def Service.replacedBy (s : Service) : Operation → List Deed
  | .update id u =>
    match s.update id u with
    | .ok _ => [.replaced (some id)]
    | .error _ => []
  | .unregister id =>
    match s.unregister id with
    | .ok _ => [.replaced (some id)]
    | .error _ => []
  | .importText text => if importClears text then [.replaced none] else []
  | _ => []

/-- What may happen next to a service with requests in flight. -/
inductive Move
  | operate (op : Operation)
  | arrive (id : String) (options : CallOptions)
  | turn (flight : Nat)
  | pass (ms : Nat)

/-- A service with requests in flight, and the log of what was done. -/
structure Traffic (ω : Type) where
  now : Nat
  world : World ω
  flights : List (Course Request Answer)
  log : List Deed

namespace Traffic

variable {ω : Type}

/-- A new service without requests. -/
def start (strategy : KeyStrategy) (tokens : Tokens) (events : Channel) (state : ω) : Traffic ω :=
  ⟨0, ⟨.create strategy tokens events, ⟨state, []⟩⟩, [], []⟩

/-- What a turn of a request that has found its endpoint adds to the log. -/
def ended (flight : Nat) (job : Job) : Turn Request Answer → List Deed
  | .finish answer => [.answered flight job answer]
  | .wait .. => []

/-- What a turn of a request adds to the log. -/
def deeds (s : Service) (now flight : Nat) (turn : Turn Request Answer) : Request → List Deed
  | .arriving id options =>
    match s.registry.get? id with
    | none => []
    | some e => ended flight ⟨e, options, now⟩ turn ++ [.found flight ⟨e, options, now⟩]
  | .queueing job => ended flight job turn
  | .working job _ => ended flight job turn

/-- The traffic after a turn of a request. -/
def act (transport : Transport ω) (t : Traffic ω) (flight : Nat) (request : Request) : Traffic ω :=
  let (world, turn) := World.act transport t.now t.world request
  { t with
    world
    flights := t.flights.set flight (turn.course t.now)
    log := deeds t.world.service t.now flight turn request ++ t.log }

/-- The traffic after a move. Nothing happens where a request is to take a turn that is answered already
or waits for a later time. -/
def step (transport : Transport ω) (t : Traffic ω) : Move → Traffic ω
  | .operate op =>
    { t with
      world := { t.world with service := (t.world.service.operate t.now op).1 }
      log := t.world.service.replacedBy op ++ t.log }
  | .arrive id options => { t with flights := t.flights ++ [.pending t.now (.arriving id options)] }
  | .turn flight =>
    match t.flights[flight]? with
    | some (.pending wake request) => if wake ≤ t.now then t.act transport flight request else t
    | _ => t
  | .pass ms =>
    { t with
      now := t.now + ms
      world := { t.world with service := t.world.service.pass t.now (t.now + ms) } }

/-- The traffic after moves. -/
def run (transport : Transport ω) (t : Traffic ω) (moves : List Move) : Traffic ω :=
  moves.foldl (step transport) t

end Traffic

/-! ## The log -/

theorem sinceReplaced_replaced {id : String} {other : Option String}
    (h : other = none ∨ other = some id) (log : List Deed) :
    sinceReplaced id (.replaced other :: log) = [] := by
  rcases h with rfl | rfl <;> simp [sinceReplaced, Deed.replaces]

theorem sinceReplaced_other {id other : String} (h : other ≠ id) (log : List Deed) :
    sinceReplaced id (.replaced (some other) :: log) =
      .replaced (some other) :: sinceReplaced id log := by
  simp [sinceReplaced, Deed.replaces, h]

@[simp] theorem sinceReplaced_found (id : String) (flight : Nat) (job : Job) (log : List Deed) :
    sinceReplaced id (.found flight job :: log) = .found flight job :: sinceReplaced id log := by
  simp [sinceReplaced, Deed.replaces]

@[simp] theorem sinceReplaced_answered (id : String) (flight : Nat) (job : Job) (answer : Answer)
    (log : List Deed) :
    sinceReplaced id (.answered flight job answer :: log) =
      .answered flight job answer :: sinceReplaced id log := by
  simp [sinceReplaced, Deed.replaces]

theorem sinceReplaced_subset (id : String) (log : List Deed) : sinceReplaced id log ⊆ log :=
  (List.takeWhile_prefix _).subset

/-! ## Statistics -/

theorem Metrics.isSome_record (m : Metrics) (id : String) (nanos : Nat) (hit : Bool)
    (result : Option RequestResult) (k : String) :
    ((m.record id nanos hit result).get? k).isSome = (decide (id = k) || (m.get? k).isSome) := by
  unfold record count label get? modifyStats
  dsimp only
  rw [Dict.get?_insert]
  by_cases h : id = k <;> simp [h]

theorem Metrics.isSome_recordLimitHit (m : Metrics) (id k : String) :
    ((m.recordLimitHit id).get? k).isSome = (decide (id = k) || (m.get? k).isSome) := by
  unfold recordLimitHit count label get? modifyStats
  dsimp only
  rw [Dict.get?_insert]
  by_cases h : id = k <;> simp [h]

/-- A request that has found its endpoint changes no statistics while it waits. -/
theorem World.Turns.metrics_wait {ω : Type} {transport : Transport ω} {now : Nat} {w w' : World ω}
    {request next : Request} {duration : Nat} {job : Job} (hjob : request.job? = some job)
    (h : World.Turns transport now w request w' (.wait duration next)) :
    w'.service.metrics = w.service.metrics := by
  cases h with
  | found => cases hjob
  | wait | call | again => rfl
  | @miss job limiter s wire duration result henter hlookup hcall =>
    have hmetrics := Service.lookup_metrics { w.service with limiter } now job
    rw [hlookup] at hmetrics
    exact hmetrics

/-- When it is answered there are statistics of its endpoint, and all others stay. -/
theorem World.Turns.metrics_finish {ω : Type} {transport : Transport ω} {now : Nat} {w w' : World ω}
    {request : Request} {answer : Answer} {job : Job} (hjob : request.job? = some job)
    (h : World.Turns transport now w request w' (.finish answer)) (k : String) :
    (w'.service.metrics.get? k).isSome =
      (decide (job.endpoint.id = k) || (w.service.metrics.get? k).isSome) := by
  cases h with
  | unknown | found => cases hjob
  | refuse henter =>
    cases hjob
    simp only [Service.refuse, Service.publish, Metrics.isSome_record, Metrics.isSome_recordLimitHit,
      Bool.or_self_left]
  | @hit job limiter envelope s henter hlookup =>
    cases hjob
    have hmetrics : s.metrics = w.service.metrics :=
      (congrArg (fun r => r.2.metrics) hlookup).symm.trans (Service.lookup_metrics _ now job)
    simp only [Service.recordHit, Service.publishSuccess, Service.publish, Metrics.isSome_record,
      hmetrics]
  | answer hjudge =>
    cases hjob
    cases answer <;>
      simp only [Service.conclude, Service.publishSuccess, Service.publish, Metrics.isSome_record]

theorem Service.metrics_register {s s' : Service} {e : Endpoint} (h : s.register e = .ok s') {k : String}
    (hk : k ≠ e.id) : s'.metrics.get? k = s.metrics.get? k := by
  unfold register at h
  split at h
  · cases h
  · cases h
    exact Dict.get?_insert_of_ne _ _ (Ne.symm hk)

/-- What is kept after an answer was kept before, or is the answer under its key. -/
theorem Service.get?_of_get?_conclude {s : Service} {now : Nat} {job : Job} {envelope : Envelope}
    {key : String} {entry : Cache.Entry Envelope}
    (h : (s.conclude now job (.ok envelope)).cache.entries.get? key = some entry) :
    (key = s.strategy.key job.endpoint.id job.options ∧ entry.value = envelope) ∨
      s.cache.entries.get? key = some entry := by
  simp only [conclude, publishSuccess, publish, cacheKey?] at h
  cases httl : job.endpoint.cacheTtl? with
  | none =>
    rw [httl] at h
    exact .inr h
  | some ttl =>
    rw [httl] at h
    simp only [Option.map_some, Cache.put, Dict.get?_insert] at h
    split at h
    · next heq =>
      cases h
      exact .inl ⟨heq.symm, rfl⟩
    · exact .inr h

/-! ## What ties the service to the log -/

namespace Traffic

/-- The response kept under the key was brought by a request that was answered after the last replacement
of its endpoint's definition. -/
def Brought (strategy : KeyStrategy) (log : List Deed) (key : String) (kept : Envelope) : Prop :=
  ∃ flight job, Deed.answered flight job (.ok kept) ∈ sinceReplaced job.endpoint.id log ∧
    kept.cached = false ∧ key = strategy.key job.endpoint.id job.options

/-- A request to the endpoint was answered after the last replacement of its definition. -/
def Answered (id : String) (log : List Deed) : Prop :=
  ∃ flight job answer, Deed.answered flight job answer ∈ sinceReplaced id log ∧ job.endpoint.id = id

/-- A request in flight that has found its endpoint did so according to the log, and what it waits for is
not from the cache. -/
def Known (log : List Deed) (flight : Nat) : Request → Prop
  | .arriving .. => True
  | .queueing job => Deed.found flight job ∈ log
  | .working job stage => Deed.found flight job ∈ log ∧ stage.Fresh

variable {ω : Type}

/-- Registry, requests, cache and statistics are as the log says. -/
structure Sound (t : Traffic ω) : Prop where
  own : t.world.service.OwnIds
  plain : ∀ flight job, Deed.found flight job ∈ t.log → keySeparator ∉ job.endpoint.id.toList
  current : ∀ flight job, Deed.found flight job ∈ sinceReplaced job.endpoint.id t.log →
    t.world.service.registry.get? job.endpoint.id = some job.endpoint
  before : ∀ flight job answer, Deed.answered flight job answer ∈ t.log →
    Deed.found flight job ∈ t.log
  flying : ∀ flight wake request, t.flights[flight]? = some (.pending wake request) →
    Known t.log flight request
  stored : ∀ key entry, t.world.service.cache.entries.get? key = some entry →
    Brought t.world.service.strategy t.log key entry.value
  counted : ∀ id, t.world.service.registry.get? id = none →
    ((t.world.service.metrics.get? id).isSome = true ↔ Answered id t.log)

theorem sound_start (strategy : KeyStrategy) (tokens : Tokens) (events : Channel) (state : ω) :
    Sound (start strategy tokens events state) where
  own _ _ h := by cases h
  plain _ _ h := by cases h
  current _ _ h := by cases h
  before _ _ _ h := by cases h
  flying _ _ _ h := by cases h
  stored _ _ h := by cases h
  counted _ _ := by
    refine iff_of_false (fun h => Bool.noConfusion h) ?_
    rintro ⟨_, _, _, h, -⟩
    cases h

variable {t : Traffic ω}

theorem Known.mono {log log' : List Deed} {flight : Nat} {request : Request}
    (h : Known log flight request) (hlog : log ⊆ log') : Known log' flight request := by
  cases request with
  | arriving id options => trivial
  | queueing job => exact hlog h
  | working job stage => exact ⟨hlog h.1, h.2⟩

theorem Known.found {log : List Deed} {flight : Nat} {request : Request} {job : Job}
    (h : Known log flight request) (hjob : request.job? = some job) : Deed.found flight job ∈ log := by
  cases request with
  | arriving id options => cases hjob
  | queueing job => cases hjob; exact h
  | working job stage => cases hjob; exact h.1

/-- After a turn the requests in flight are known if the one that took it is. -/
theorem known_set {log log' : List Deed} {flights : List (Course Request Answer)} {flight : Nat}
    {course : Course Request Answer}
    (h : ∀ other wake request, flights[other]? = some (.pending wake request) →
      Known log other request)
    (hlog : log ⊆ log')
    (hcourse : ∀ wake request, course = .pending wake request → Known log' flight request)
    (other wake : Nat) (request : Request)
    (hget : (flights.set flight course)[other]? = some (.pending wake request)) :
    Known log' other request := by
  rw [List.getElem?_set] at hget
  split at hget
  · next heq =>
    subst heq
    split at hget
    · cases hget
      exact hcourse wake request rfl
    · cases hget
  · exact (h other wake request hget).mono hlog

/-! ## Turns -/

/-- A request that finds its endpoint is in the place of one that waits for its turn. -/
theorem Sound.found (h : Sound t) {flight wake : Nat} {id : String} {options : CallOptions}
    {e : Endpoint} (hflight : t.flights[flight]? = some (.pending wake (.arriving id options)))
    (hid : t.world.service.registry.get? id = some e) :
    Sound { t with
      flights := t.flights.set flight (.pending wake (.queueing ⟨e, options, t.now⟩))
      log := .found flight ⟨e, options, t.now⟩ :: t.log } := by
  obtain ⟨rfl, hsep⟩ := h.own id e hid
  refine ⟨h.own, ?_, ?_, ?_, ?_, ?_, ?_⟩
  · intro flight' job hmem
    rcases List.mem_cons.1 hmem with heq | hmem
    · cases heq
      exact hsep
    · exact h.plain flight' job hmem
  · intro flight' job hmem
    simp only [sinceReplaced_found, List.mem_cons] at hmem
    rcases hmem with heq | hmem
    · cases heq
      exact hid
    · exact h.current flight' job hmem
  · intro flight' job answer hmem
    rcases List.mem_cons.1 hmem with heq | hmem
    · cases heq
    · exact List.mem_cons_of_mem _ (h.before flight' job answer hmem)
  · refine known_set h.flying (List.subset_cons_self _ _) fun wake' request heq => ?_
    cases heq
    exact List.mem_cons_self
  · intro key entry hget
    obtain ⟨flight', job, hmem, hcached, hkey⟩ := h.stored key entry hget
    exact ⟨flight', job, by simp [hmem], hcached, hkey⟩
  · intro id hnone
    rw [h.counted id hnone, Answered, Answered]
    simp

/-- A request that waits on has found nothing new. -/
theorem Sound.wait (h : Sound t) {transport : Transport ω} {flight wake duration : Nat}
    {request next : Request} {job : Job} {w' : World ω}
    (hflight : t.flights[flight]? = some (.pending wake request)) (hjob : request.job? = some job)
    (hturns : World.Turns transport t.now t.world request w' (.wait duration next)) :
    Sound { t with
      world := w'
      flights := t.flights.set flight (.pending (t.now + duration) next) } := by
  have hfound := (h.flying flight wake request hflight).found hjob
  refine ⟨fun id e he => h.own id e (hturns.registry ▸ he), h.plain, ?_, h.before, ?_, ?_, ?_⟩
  · intro flight' job' hmem
    show w'.service.registry.get? _ = _
    rw [hturns.registry]
    exact h.current flight' job' hmem
  · refine known_set h.flying (List.Subset.refl _) fun wake' request' heq => ?_
    cases heq
    obtain rfl | ⟨stage, rfl, hfresh⟩ := hturns.next hjob
    · exact hfound
    · exact ⟨hfound, hfresh⟩
  · intro key entry hget
    obtain ⟨halike, -⟩ | ⟨_, _, _, -, -, hturn⟩ := hturns.alike
    · show Brought w'.service.strategy _ _ _
      rw [halike.strategy]
      exact h.stored key entry (halike.kept key entry hget)
    · cases hturn
  · intro id hnone
    rw [hturns.metrics_wait hjob]
    exact h.counted id (hturns.registry ▸ hnone)

/-- What is kept after a request is answered was brought by it or was kept before. -/
theorem Sound.stored_finish (h : Sound t) {transport : Transport ω} {flight wake : Nat}
    {request : Request} {answer : Answer} {job : Job} {w' : World ω}
    (hflight : t.flights[flight]? = some (.pending wake request)) (hjob : request.job? = some job)
    (hturns : World.Turns transport t.now t.world request w' (.finish answer)) {key : String}
    {entry : Cache.Entry Envelope} (hget : w'.service.cache.entries.get? key = some entry) :
    Brought w'.service.strategy (.answered flight job answer :: t.log) key entry.value := by
  obtain ⟨halike, -⟩ | ⟨job', n, envelope, rfl, rfl, hturn⟩ := hturns.alike
  · obtain ⟨flight', job', hmem, hcached, hkey⟩ := h.stored key entry (halike.kept key entry hget)
    refine ⟨flight', job', by simp [hmem], hcached, ?_⟩
    rw [halike.strategy]
    exact hkey
  · cases hturn
    cases hjob
    obtain ⟨rfl, hvalue⟩ | hget := Service.get?_of_get?_conclude hget
    · -- what it waited for is not from the cache
      refine ⟨flight, job, by simp [hvalue], ?_, rfl⟩
      rw [hvalue]
      exact (h.flying flight wake _ hflight).2 envelope rfl
    · obtain ⟨flight', job', hmem, hcached, hkey⟩ := h.stored key entry hget
      exact ⟨flight', job', by simp [hmem], hcached, hkey⟩

/-- A request that is answered is in the log with its answer. -/
theorem Sound.finish (h : Sound t) {transport : Transport ω} {flight wake : Nat} {request : Request}
    {answer : Answer} {job : Job} {w' : World ω}
    (hflight : t.flights[flight]? = some (.pending wake request)) (hjob : request.job? = some job)
    (hturns : World.Turns transport t.now t.world request w' (.finish answer)) :
    Sound { t with
      world := w'
      flights := t.flights.set flight (.done t.now answer)
      log := .answered flight job answer :: t.log } := by
  have hfound := (h.flying flight wake request hflight).found hjob
  refine ⟨fun id e he => h.own id e (hturns.registry ▸ he), ?_, ?_, ?_, ?_,
    fun key entry hget => h.stored_finish hflight hjob hturns hget, ?_⟩
  · intro flight' job' hmem
    rcases List.mem_cons.1 hmem with heq | hmem
    · cases heq
    · exact h.plain flight' job' hmem
  · intro flight' job' hmem
    show w'.service.registry.get? _ = _
    rw [hturns.registry]
    exact h.current flight' job' (by simpa using hmem)
  · intro flight' job' answer' hmem
    rcases List.mem_cons.1 hmem with heq | hmem
    · cases heq
      exact List.mem_cons_of_mem _ hfound
    · exact List.mem_cons_of_mem _ (h.before flight' job' answer' hmem)
  · refine known_set h.flying (List.subset_cons_self _ _) fun wake' request' heq => ?_
    cases heq
  · intro id hnone
    have hold := h.counted id (hturns.registry ▸ hnone)
    rw [hturns.metrics_finish hjob, Bool.or_eq_true, decide_eq_true_eq, hold, Answered, Answered]
    constructor
    · rintro (rfl | ⟨flight', job', answer', hmem, hid⟩)
      · exact ⟨flight, job, answer, by simp, rfl⟩
      · exact ⟨flight', job', answer', by simp [hmem], hid⟩
    · rintro ⟨flight', job', answer', hmem, hid⟩
      simp only [sinceReplaced_answered, List.mem_cons, Deed.answered.injEq] at hmem
      obtain ⟨rfl, rfl, rfl⟩ | hmem := hmem
      · exact .inl hid
      · exact .inr ⟨flight', job', answer', hmem, hid⟩

/-- A request that has found its endpoint keeps to the log with its turn. -/
theorem Sound.act (h : Sound t) (transport : Transport ω) {flight wake : Nat} {request : Request}
    {job : Job} (hflight : t.flights[flight]? = some (.pending wake request))
    (hjob : request.job? = some job) : Sound (t.act transport flight request) := by
  have hturns := World.act_turns transport t.now t.world request
  unfold Traffic.act
  rcases hact : World.act transport t.now t.world request with ⟨w', turn⟩
  rw [hact] at hturns
  have hdeeds : deeds t.world.service t.now flight turn request = ended flight job turn := by
    cases request <;> cases hjob <;> rfl
  dsimp only at hturns ⊢
  rw [hdeeds]
  cases turn with
  | wait duration next => exact h.wait hflight hjob hturns
  | finish answer => exact h.finish hflight hjob hturns

/-! ## Operations -/

/-- What keeps endpoints and statistics and stores nothing keeps to the log. -/
theorem Sound.keep (h : Sound t) {now : Nat} {s : Service}
    (hregistry : s.registry = t.world.service.registry)
    (hstrategy : s.strategy = t.world.service.strategy)
    (hmetrics : s.metrics = t.world.service.metrics)
    (hkept : ∀ key entry, s.cache.entries.get? key = some entry →
      t.world.service.cache.entries.get? key = some entry) :
    Sound { t with now, world := { t.world with service := s } } where
  own id e he := h.own id e (hregistry ▸ he)
  plain := h.plain
  current flight job hmem := by
    show s.registry.get? _ = _
    rw [hregistry]
    exact h.current flight job hmem
  before := h.before
  flying := h.flying
  stored key entry hget := by
    show Brought s.strategy _ _ _
    rw [hstrategy]
    exact h.stored key entry (hkept key entry hget)
  counted id hnone := by
    show (s.metrics.get? id).isSome = true ↔ _
    rw [hmetrics]
    exact h.counted id (hregistry ▸ hnone)

/-- The definition of one endpoint is replaced or removed, and the responses kept from it are dropped. -/
theorem Sound.replace (h : Sound t) {id : String} {s : Service} (hid : keySeparator ∉ id.toList)
    (hown : s.OwnIds) (hstrategy : s.strategy = t.world.service.strategy)
    (hregistry : ∀ k, k ≠ id → s.registry.get? k = t.world.service.registry.get? k)
    (hcache : s.cache = t.world.service.cache.invalidateEndpoint id)
    (hmetrics : ∀ k, k ≠ id → s.metrics.get? k = t.world.service.metrics.get? k)
    (hremoved : s.registry.get? id = none → s.metrics.get? id = none) :
    Sound { t with
      world := { t.world with service := s }
      log := .replaced (some id) :: t.log } where
  own := hown
  plain flight job hmem := by
    rcases List.mem_cons.1 hmem with heq | hmem
    · cases heq
    · exact h.plain flight job hmem
  current flight job hmem := by
    show s.registry.get? _ = _
    by_cases hne : job.endpoint.id = id
    · rw [hne] at hmem
      simp only [sinceReplaced_replaced (.inr rfl)] at hmem
      cases hmem
    · simp only [sinceReplaced_other (Ne.symm hne), List.mem_cons, reduceCtorEq, false_or] at hmem
      rw [hregistry _ hne]
      exact h.current flight job hmem
  before flight job answer hmem := by
    rcases List.mem_cons.1 hmem with heq | hmem
    · cases heq
    · exact List.mem_cons_of_mem _ (h.before flight job answer hmem)
  flying flight wake request hget := (h.flying flight wake request hget).mono (List.subset_cons_self _ _)
  stored key entry hget := by
    show Brought s.strategy _ _ _
    rw [hcache] at hget
    obtain ⟨hget, hkeep⟩ := Dict.get?_filter_eq_some_iff.1 hget
    obtain ⟨flight, job, hmem, hcached, rfl⟩ := h.stored key entry hget
    have hfound := h.before flight job _ (sinceReplaced_subset _ _ hmem)
    -- a key of the endpoint itself would have been dropped
    have hne : job.endpoint.id ≠ id := by
      intro heq
      have hbelongs := (t.world.service.strategy.belongsTo_key job.options
        (h.plain flight job hfound) hid).2 heq
      simp [hbelongs] at hkeep
    refine ⟨flight, job, ?_, hcached, by rw [hstrategy]⟩
    rw [sinceReplaced_other (Ne.symm hne)]
    exact List.mem_cons_of_mem _ hmem
  counted k hnone := by
    show (s.metrics.get? k).isSome = true ↔ _
    by_cases hne : k = id
    · subst hne
      rw [hremoved hnone]
      refine iff_of_false Bool.false_ne_true ?_
      rintro ⟨flight, job, answer, hmem, -⟩
      simp only [sinceReplaced_replaced (.inr rfl)] at hmem
      cases hmem
    · rw [hmetrics k hne, h.counted k (hregistry k hne ▸ hnone), Answered, Answered]
      simp only [sinceReplaced_other (Ne.symm hne), List.mem_cons, reduceCtorEq, false_or]

theorem Sound.register (h : Sound t) {e : Endpoint} {s : Service}
    (hreg : t.world.service.register e = .ok s) :
    Sound { t with world := { t.world with service := s } } := by
  obtain ⟨-, hnew, hregistry, hstrategy, hcache⟩ := Service.register_eq_ok hreg
  have hmetrics : ∀ k, k ≠ e.id → s.metrics.get? k = t.world.service.metrics.get? k :=
    fun k hk => Service.metrics_register hreg hk
  have hget : ∀ k, k ≠ e.id → s.registry.get? k = t.world.service.registry.get? k := by
    intro k hk
    rw [hregistry]
    exact Dict.get?_insert_of_ne _ _ (Ne.symm hk)
  refine ⟨h.own.register hreg, h.plain, fun flight job hmem => ?_, h.before, h.flying,
    fun key entry hentry => ?_, fun id hnone => ?_⟩
  · have hold := h.current flight job hmem
    -- the id was not registered, so no look-up of it is still current
    have hne : job.endpoint.id ≠ e.id := by
      intro heq
      rw [heq, hnew] at hold
      cases hold
    show s.registry.get? _ = _
    rw [hget _ hne]
    exact hold
  · show Brought s.strategy _ _ _
    rw [hstrategy]
    exact h.stored key entry (hcache ▸ hentry)
  · have hne : id ≠ e.id := by
      rintro rfl
      have hnone : s.registry.get? e.id = none := hnone
      rw [hregistry, Registry.get?, Dict.get?_insert_self] at hnone
      cases hnone
    show (s.metrics.get? id).isSome = true ↔ _
    rw [hmetrics id hne]
    exact h.counted id (hget id hne ▸ hnone)

/-- After everything is cleared there are statistics of registered endpoints only. -/
theorem Sound.cleared (h : Sound t) {s : Service} (hown : s.OwnIds) (hcache : s.cache = .empty)
    (hmetrics : ∀ id, s.registry.get? id = none → s.metrics.get? id = none) :
    Sound { t with world := { t.world with service := s }, log := .replaced none :: t.log } where
  own := hown
  plain flight job hmem := by
    rcases List.mem_cons.1 hmem with heq | hmem
    · cases heq
    · exact h.plain flight job hmem
  current flight job hmem := by
    simp only [sinceReplaced_replaced (.inl rfl)] at hmem
    cases hmem
  before flight job answer hmem := by
    rcases List.mem_cons.1 hmem with heq | hmem
    · cases heq
    · exact List.mem_cons_of_mem _ (h.before flight job answer hmem)
  flying flight wake request hget := (h.flying flight wake request hget).mono (List.subset_cons_self _ _)
  stored key entry hget := by
    rw [hcache] at hget
    cases hget
  counted id hnone := by
    rw [hmetrics id hnone]
    refine iff_of_false Bool.false_ne_true ?_
    rintro ⟨flight, job, answer, hmem, -⟩
    simp only [sinceReplaced_replaced (.inl rfl)] at hmem
    cases hmem

theorem Sound.importText (h : Sound t) (text : String) :
    Sound { t with
      world := { t.world with service := (t.world.service.importText text).2 }
      log := (if Service.importClears text then [.replaced none] else []) ++ t.log } := by
  obtain ⟨hclears, heq⟩ | ⟨hclears, es, told, hflaw, hafter, -⟩ :=
    Service.importText_cases t.world.service text
  · rw [hclears, heq]
    exact h
  · rw [hclears]
    refine h.cleared (hafter.own hflaw) hafter.cache fun id hnone => ?_
    rw [hafter.stats, hnone, Option.map_none]

theorem Sound.operate (h : Sound t) (transport : Transport ω) (op : Operation) :
    Sound (t.step transport (.operate op)) := by
  cases op with
  | register e =>
    simp only [step, Service.operate, Service.replacedBy]
    split
    · exact h
    · next hreg => exact h.register hreg
  | update id u =>
    simp only [step, Service.operate, Service.replacedBy, Service.update]
    cases hup : t.world.service.registry.update id u with
    | error error => exact h
    | ok updated =>
      obtain ⟨e, r⟩ := updated
      obtain ⟨old, hold, rfl, hflaw, rfl⟩ := Registry.update_eq_ok hup
      obtain ⟨hid, hsep⟩ := h.own id old hold
      refine h.replace hsep (h.own.insert (e := old.apply u) hid hsep rfl) rfl
        (fun k hk => Dict.get?_insert_of_ne _ _ (Ne.symm hk)) rfl (fun _ _ => rfl) fun hnone => ?_
      cases (Dict.get?_insert_self _ _ _).symm.trans hnone
  | unregister id =>
    simp only [step, Service.operate, Service.replacedBy, Service.unregister]
    cases hun : t.world.service.registry.unregister id with
    | error error => exact h
    | ok removed =>
      obtain ⟨e, r⟩ := removed
      obtain ⟨he, rfl⟩ := Registry.unregister_eq_ok hun
      exact h.replace (h.own id e he).2 (h.own.erase rfl) rfl
        (fun k hk => Dict.get?_erase_of_ne _ (Ne.symm hk)) rfl
        (fun k hk => Dict.get?_erase_of_ne _ (Ne.symm hk)) fun _ => Dict.get?_erase_self _ _
  | clearCache id =>
    refine h.keep rfl rfl rfl fun key entry hget => ?_
    cases id with
    | none => cases hget
    | some id => exact (Dict.get?_filter_eq_some_iff.1 hget).1
  | importText text => exact h.importText text
  | setToken id token => exact h.keep rfl rfl rfl fun _ _ hget => hget
  | sweep => exact h.keep rfl rfl rfl fun _ _ hget => Cache.get?_of_get?_sweep hget
  | startMaintenance periods => exact h.keep rfl rfl rfl fun _ _ hget => hget
  | stopMaintenance => exact h.keep rfl rfl rfl fun _ _ hget => hget

/-- A request without an endpoint is answered at once and leaves nothing behind. -/
theorem act_unknown (transport : Transport ω) {flight : Nat} {id : String} {options : CallOptions}
    (hid : t.world.service.registry.get? id = none) :
    t.act transport flight (.arriving id options) =
      { t with flights := t.flights.set flight (.done t.now (.error (.registry (.notFound id)))) } := by
  simp [Traffic.act, World.act, hid, deeds, Turn.course]

theorem act_found (transport : Transport ω) (wake : Nat) {flight : Nat} {id : String}
    {options : CallOptions} {e : Endpoint} (hid : t.world.service.registry.get? id = some e) :
    t.act transport flight (.arriving id options) =
      ({ t with
        flights := t.flights.set flight (.pending wake (.queueing ⟨e, options, t.now⟩))
        log := .found flight ⟨e, options, t.now⟩ :: t.log } : Traffic ω).act transport flight
          (.queueing ⟨e, options, t.now⟩) := by
  simp [Traffic.act, World.act, hid, deeds]

theorem Sound.turn (h : Sound t) (transport : Transport ω) (flight : Nat) :
    Sound (t.step transport (.turn flight)) := by
  unfold Traffic.step
  dsimp only
  split
  · next wake request hflight =>
    split
    · cases hjob : request.job? with
      | some job => exact h.act transport hflight hjob
      | none =>
        rcases request with ⟨id, options⟩ | job | ⟨job, stage⟩
        · cases hid : t.world.service.registry.get? id with
          | none =>
            rw [act_unknown transport hid]
            refine ⟨h.own, h.plain, h.current, h.before, fun flight' wake' request hget => ?_,
              h.stored, h.counted⟩
            rw [List.getElem?_set] at hget
            split at hget
            · split at hget <;> cases hget
            · exact h.flying flight' wake' request hget
          | some e =>
            have hlt := (List.getElem?_eq_some_iff.1 hflight).1
            have hqueueing : (t.flights.set flight (.pending wake (.queueing ⟨e, options, t.now⟩)))[
                flight]? = some (.pending wake (.queueing ⟨e, options, t.now⟩)) := by
              simp [hlt]
            rw [act_found transport wake hid]
            exact (h.found hflight hid).act transport hqueueing rfl
        · cases hjob
        · cases hjob
    · exact h
  · exact h

/-- Every move keeps to the log. -/
theorem Sound.step (h : Sound t) (transport : Transport ω) (move : Move) :
    Sound (t.step transport move) := by
  cases move with
  | operate op => exact h.operate transport op
  | arrive id options =>
    refine ⟨h.own, h.plain, h.current, h.before, fun flight wake request hget => ?_, h.stored,
      h.counted⟩
    simp only [Traffic.step, List.getElem?_append] at hget
    split at hget
    · exact h.flying flight wake request hget
    · cases List.mem_singleton.1 (List.mem_of_getElem? hget)
      trivial
  | turn flight => exact h.turn transport flight
  | pass ms =>
    have halike := Service.pass_alike t.world.service t.now (t.now + ms)
    exact h.keep halike.registry halike.strategy (Service.pass_metrics _ _ _) halike.kept

theorem sound_run (transport : Transport ω) (h : Sound t) (moves : List Move) :
    Sound (t.run transport moves) := by
  induction moves generalizing t with
  | nil => exact h
  | cons move moves ih => exact ih (h.step transport move)

end Traffic

end Egress
