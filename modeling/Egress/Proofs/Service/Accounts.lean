import Egress.Proofs.Service.Answers
import Egress.Proofs.Service.Traffic

/-!
# Requests and what is counted of them

The ledger beside a `Traffic` has an entry for each answer to a request and for each time that an endpoint
is registered, the latest first. Nothing in it is read off the statistics or the events.

* `World.Turns.accounts`: an answer adds one record to the statistics of its endpoint and one event.
* `Balanced`: the statistics of each registered endpoint are a `Tally` of the answers since it was
  registered. Each move keeps to it (`Balanced.step`), whatever is in flight.
* `exists_moves_of_requests`: requests that a session makes side by side are moves like all others.
* `requests_accounted` says what that comes to for every run.
-/

set_option autoImplicit false

namespace Egress

/-! ## Counting answers -/

/-- The response was brought by a call. -/
def isFresh : Answer → Bool
  | .ok envelope => !envelope.cached
  | .error _ => false

/-- The response was served from the cache. -/
def isServed : Answer → Bool
  | .ok envelope => envelope.cached
  | .error _ => false

/-- The request failed. -/
def isFailed : Answer → Bool
  | .ok _ => false
  | .error _ => true

/-- The request was over the limit. -/
def isLimited : Answer → Bool
  | .error (.rateLimited ..) => true
  | _ => false

/-- The counts of statistics. -/
structure Tally where
  total : Nat
  successes : Nat
  failures : Nat
  limitHits : Nat

/-- The counts that the statistics hold. -/
def Stats.tally {α : Type} (s : Stats α) : Tally := ⟨s.total, s.successes, s.failures, s.limitHits⟩

namespace Tally

/-- The counts of answers. -/
def ofAnswers (answers : List Answer) : Tally :=
  ⟨answers.length, answers.countP isFresh, answers.countP isFailed, answers.countP isLimited⟩

/-- The counts after one more answer. -/
def add (t : Tally) (answer : Answer) : Tally where
  total := t.total + 1
  successes := if isFresh answer then t.successes + 1 else t.successes
  failures := if isFailed answer then t.failures + 1 else t.failures
  limitHits := if isLimited answer then t.limitHits + 1 else t.limitHits

theorem ofAnswers_cons (answer : Answer) (answers : List Answer) :
    ofAnswers (answer :: answers) = (ofAnswers answers).add answer := by
  simp only [ofAnswers, add, List.length_cons, List.countP_cons, mk.injEq, true_and]
  refine ⟨?_, ?_, ?_⟩ <;> split <;> rfl

end Tally

theorem length_eq_counts (answers : List Answer) :
    answers.length = answers.countP isFresh + answers.countP isServed + answers.countP isFailed := by
  induction answers with
  | nil => rfl
  | cons answer answers ih =>
    have hone : (if isFresh answer then 1 else 0) + (if isServed answer then 1 else 0) +
        (if isFailed answer then 1 else 0) = 1 := by
      rcases answer with failure | ⟨data, status, statusText, headers, url, _ | _⟩ <;> rfl
    simp only [List.length_cons, List.countP_cons, ih]
    omega

theorem countP_limited_le (answers : List Answer) : answers.countP isLimited ≤ answers.countP isFailed := by
  refine List.countP_mono_left fun answer _ h => ?_
  rcases answer with failure | envelope
  · rfl
  · cases h

/-! ## The ledger -/

/-- An entry of the ledger. -/
inductive Booking
  /-- The endpoint was registered, and its statistics started from zero. -/
  | opened (id : String)
  /-- A request that started at a time was answered at another one. -/
  | answered (started time : Nat) (id : String) (answer : Answer)

namespace Booking

/-- Whether the entry says that the endpoint was registered. -/
def opens (id : String) : Booking → Bool
  | .opened id' => id' = id
  | .answered .. => false

/-- The answer to a request for the endpoint. -/
def answerTo? (id : String) : Booking → Option Answer
  | .opened _ => none
  | .answered _ _ id' answer => if id' = id then some answer else none

/-- The event that subscribers are told of an answer. There is none where the endpoint is unknown. -/
def event? : Booking → Option Event
  | .opened _ => none
  | .answered started time id (.ok envelope) =>
    some (.succeeded id envelope.status (time - started) envelope.cached)
  | .answered _ _ id (.error failure) =>
    match failure with
    | .rateLimited .. => some (.rateLimited id)
    | .registry _ => none
    | failure => some (.failed id failure.message)

end Booking

/-- The answers to requests for an endpoint since it was last registered. -/
def answersSince (id : String) (ledger : List Booking) : List Answer :=
  (ledger.takeWhile fun b => !b.opens id).filterMap (·.answerTo? id)

/-- The event is about a request. -/
def Event.isOfRequest : Event → Bool
  | .succeeded .. => true
  | .failed .. => true
  | .rateLimited _ => true
  | _ => false

/-- When a request that takes a turn now started. -/
def Request.started (now : Nat) : Request → Nat
  | .arriving .. => now
  | .queueing job => job.started
  | .working job _ => job.started

/-- What a turn of a request adds to the ledger. -/
def Request.booked (request : Request) (now : Nat) : Turn Request Answer → List Booking
  | .finish answer => [.answered (request.started now) now request.id answer]
  | .wait .. => []

/-- What a move adds to the ledger. -/
def Traffic.booked {ω : Type} (transport : Transport ω) (t : Traffic ω) : Move → List Booking
  | .operate (.register e) =>
    match t.world.service.register e with
    | .ok _ => [.opened e.id]
    | .error _ => []
  | .operate (.importText text) =>
    if Service.importClears text then (t.world.service.importText text).2.registry.ids.map .opened else []
  | .turn flight =>
    match t.flights[flight]? with
    | some (.pending wake request) =>
      if wake ≤ t.now then request.booked t.now (World.act transport t.now t.world request).2 else []
    | _ => []
  | _ => []

/-- A service with requests in flight and the ledger of them. -/
structure Accounts (ω : Type) where
  traffic : Traffic ω
  ledger : List Booking

namespace Accounts

variable {ω : Type}

/-- The accounts after a move. -/
def step (transport : Transport ω) (a : Accounts ω) (move : Move) : Accounts ω :=
  ⟨a.traffic.step transport move, a.traffic.booked transport move ++ a.ledger⟩

/-- The accounts after moves. -/
def run (transport : Transport ω) (a : Accounts ω) (moves : List Move) : Accounts ω :=
  moves.foldl (step transport) a

theorem traffic_run (transport : Transport ω) (a : Accounts ω) (moves : List Move) :
    (a.run transport moves).traffic = a.traffic.run transport moves := by
  induction moves generalizing a with
  | nil => rfl
  | cons move moves ih => exact ih (a.step transport move)

end Accounts

theorem answersSince_opened (id : String) (ledger : List Booking) :
    answersSince id (.opened id :: ledger) = [] := by
  simp [answersSince, Booking.opens]

theorem answersSince_opened_of_ne {id other : String} (h : other ≠ id) (ledger : List Booking) :
    answersSince id (.opened other :: ledger) = answersSince id ledger := by
  simp [answersSince, Booking.opens, Booking.answerTo?, h]

theorem answersSince_answered (started time : Nat) (id k : String) (answer : Answer)
    (ledger : List Booking) :
    answersSince k (.answered started time id answer :: ledger) =
      if id = k then answer :: answersSince k ledger else answersSince k ledger := by
  simp only [answersSince, Booking.opens, Bool.not_false, List.takeWhile_cons_of_pos,
    List.filterMap_cons, Booking.answerTo?]
  split <;> simp_all

theorem answersSince_opened_all (id : String) (ids : List String) (ledger : List Booking) :
    answersSince id (ids.map .opened ++ ledger) = if id ∈ ids then [] else answersSince id ledger := by
  induction ids with
  | nil => rfl
  | cons other ids ih =>
    rw [List.map_cons, List.cons_append]
    by_cases hother : other = id
    · rw [hother, answersSince_opened, if_pos List.mem_cons_self]
    · rw [answersSince_opened_of_ne hother, ih]
      simp only [List.mem_cons, Ne.symm hother, false_or]

theorem event?_opened_all (ids : List String) (ledger : List Booking) :
    (ids.map Booking.opened ++ ledger).filterMap Booking.event? = ledger.filterMap Booking.event? := by
  induction ids with
  | nil => rfl
  | cons id ids ih => exact ih

/-! ## What a turn adds -/

namespace Metrics

/-- The counts for an endpoint, if there are statistics of it. -/
def tally? (m : Metrics) (id : String) : Option Tally := (m.get? id).map Stats.tally

theorem get?_record (m : Metrics) (id : String) (nanos : Nat) (hit : Bool)
    (result : Option RequestResult) (k : String) :
    (m.record id nanos hit result).get? k =
      if id = k then some (((m.get? id).getD Stats.zero).record nanos hit result) else m.get? k := by
  unfold record count label get? modifyStats
  exact Dict.get?_insert ..

theorem get?_recordLimitHit (m : Metrics) (id k : String) :
    (m.recordLimitHit id).get? k =
      if id = k then some ((m.get? id).getD Stats.zero).recordLimitHit else m.get? k := by
  unfold recordLimitHit count label get? modifyStats
  exact Dict.get?_insert ..

end Metrics

/-- The statistics and the channel after an answer: one more record for the endpoint, and one more event. -/
structure Service.Accounted (s s' : Service) (started now : Nat) (id : String) (answer : Answer) :
    Prop where
  tally : ∀ k, s'.metrics.tally? k =
    if id = k then some (((s.metrics.tally? k).getD (.ofAnswers [])).add answer)
    else s.metrics.tally? k
  event : ∃ event, Booking.event? (.answered started now id answer) = some event ∧
    event.isOfRequest = true ∧ s'.events.log = event :: s.events.log

namespace Service

theorem tally_getD (stats? : Option (Stats Float)) :
    (stats?.getD Stats.zero).tally = (stats?.map Stats.tally).getD (.ofAnswers []) := by
  cases stats? <;> rfl

theorem Accounted.refuse (s : Service) (now : Nat) (job : Job) (retryAfter : Nat) :
    Accounted s (s.refuse now job) job.started now job.endpoint.id
      (.error (.rateLimited job.endpoint.id retryAfter)) where
  tally k := by
    simp only [Service.refuse, publish, Metrics.tally?, Metrics.get?_record, Metrics.get?_recordLimitHit]
    split
    · next hk =>
      subst hk
      simp only [if_true, Option.getD_some, Option.map_some, ← tally_getD]
      rfl
    · rfl
  event := ⟨_, rfl, rfl, rfl⟩

theorem Accounted.recordHit (s : Service) (now : Nat) (job : Job) {envelope : Envelope}
    (hcached : envelope.cached = true) :
    Accounted s (s.recordHit now job envelope) job.started now job.endpoint.id (.ok envelope) where
  tally k := by
    simp only [Service.recordHit, publishSuccess, publish, Metrics.tally?, Metrics.get?_record]
    split
    · next hk =>
      subst hk
      simp only [Option.map_some, ← tally_getD, Tally.add, isFresh, isFailed, isLimited, hcached]
      rfl
    · rfl
  event := ⟨_, rfl, rfl, rfl⟩

theorem Accounted.conclude (s : Service) (now : Nat) (job : Job) {answer : Answer}
    (hfresh : ∀ envelope, answer = .ok envelope → envelope.cached = false) (hcall : OfCall answer) :
    Accounted s (s.conclude now job answer) job.started now job.endpoint.id answer where
  tally k := by
    rcases answer with failure | envelope
    · have hlimited : isLimited (.error failure) = false := by
        have := hcall failure rfl
        cases failure <;> simp_all [isLimited, Failure.turnsAway]
      simp only [Service.conclude, publish, Metrics.tally?, Metrics.get?_record]
      split
      · next hk =>
        subst hk
        simp only [Option.map_some, ← tally_getD, Tally.add, isFresh, isFailed, hlimited]
        rfl
      · rfl
    · simp only [Service.conclude, publishSuccess, publish, Metrics.tally?, Metrics.get?_record]
      split
      · next hk =>
        subst hk
        simp only [Option.map_some, ← tally_getD, Tally.add, isFresh, isFailed, isLimited,
          hfresh envelope rfl]
        rfl
      · rfl
  event := by
    rcases answer with failure | envelope
    · refine ⟨.failed job.endpoint.id failure.message, ?_, rfl, rfl⟩
      have := hcall failure rfl
      cases failure <;> simp_all [Booking.event?, Failure.turnsAway]
    · exact ⟨_, rfl, rfl, rfl⟩

/-- Statistics and events that do not change may be read off either service. -/
theorem Accounted.of_eq {s s' s'' : Service} {started now : Nat} {id : String} {answer : Answer}
    (h : Accounted s s'' started now id answer) (hmetrics : s.metrics = s'.metrics)
    (hevents : s.events = s'.events) : Accounted s' s'' started now id answer :=
  ⟨hmetrics ▸ h.tally, hevents ▸ h.event⟩

end Service

/-- What a request waits for is the result of a call. -/
def Request.Calling : Request → Prop
  | .working _ stage => stage.Fresh ∧ stage.OfCall
  | _ => True

namespace World

variable {ω : Type} {transport : Transport ω} {now : Nat} {w w' : World ω}

/-- A request that is answered has an unknown endpoint, and nothing happens, or is accounted for. -/
theorem Turns.accounted {request : Request} {answer : Answer} (hown : w.service.OwnIds)
    (hcalling : request.Calling) (h : Turns transport now w request w' (.finish answer)) :
    (w.service.registry.get? request.id = none ∧ w' = w ∧
        answer = .error (.registry (.notFound request.id))) ∨
      Service.Accounted w.service w'.service (request.started now) now request.id answer := by
  -- a request that has found its endpoint goes on as one that queues
  have hqueueing : ∀ {job : Job} {w' : World ω},
      Turns transport now w (.queueing job) w' (.finish answer) →
        Service.Accounted w.service w'.service job.started now job.endpoint.id answer := by
    intro job w' h
    cases h with
    | refuse henter => exact (Service.Accounted.refuse _ now job _).of_eq rfl rfl
    | @hit _ limiter envelope s henter hlookup =>
      have hs : s = (Service.lookup { w.service with limiter } now job).2 := by rw [hlookup]
      have hcached : envelope.cached = true := Service.cached_of_lookup (congrArg Prod.fst hlookup)
      refine (Service.Accounted.recordHit s now job hcached).of_eq ?_ ?_
      · rw [hs, Service.lookup_metrics]
      · rw [hs, Service.lookup_events]
  cases h with
  | unknown hid => exact .inl ⟨hid, rfl, rfl⟩
  | @found id options e _ _ hid hturn =>
    obtain ⟨rfl, -⟩ := hown id e hid
    exact .inr (hqueueing hturn)
  | refuse henter => exact .inr (hqueueing (.refuse henter))
  | hit henter hlookup => exact .inr (hqueueing (.hit henter hlookup))
  | @answer job n result _ hjudge =>
    have hfresh : ∀ envelope, answer = .ok envelope → envelope.cached = false := by
      rintro envelope rfl
      exact hcalling.1 envelope (judge_ok hjudge)
    exact .inr (Service.Accounted.conclude _ now job hfresh (ofCall_of_judge hjudge hcalling.2))

/-- A request that waits on changes no statistics and tells nobody. -/
theorem Turns.unaccounted {request next : Request} {duration : Nat}
    (h : Turns transport now w request w' (.wait duration next)) :
    w'.service.metrics = w.service.metrics ∧ w'.service.events = w.service.events ∧ next.Calling := by
  have hqueueing : ∀ {job : Job} {w' : World ω} {duration : Nat} {next : Request},
      Turns transport now w (.queueing job) w' (.wait duration next) →
        w'.service.metrics = w.service.metrics ∧ w'.service.events = w.service.events ∧
          next.Calling := by
    intro job w' duration next h
    cases h with
    | wait henter => exact ⟨rfl, rfl, trivial⟩
    | @miss _ limiter s wire _ result henter hlookup hcall =>
      have hs : s = (Service.lookup { w.service with limiter } now job).2 := by rw [hlookup]
      have hresult : (job.errand.call transport s.tokens now w.wire).2.2 = result := by rw [hcall]
      refine ⟨?_, ?_, fun envelope hok => ?_, ?_⟩
      · rw [hs, Service.lookup_metrics]
      · rw [hs, Service.lookup_events]
      · exact job.errand.cached_of_call transport s.tokens (hresult.trans hok)
      · exact hresult ▸ job.errand.ofCall_call transport s.tokens now w.wire
  cases h with
  | found hid hturn => exact hqueueing hturn
  | wait henter => exact hqueueing (.wait henter)
  | miss henter hlookup hcall => exact hqueueing (.miss henter hlookup hcall)
  | @call job n wire _ result hcall =>
    have hresult : (job.errand.call transport w.service.tokens now w.wire).2.2 = result := by rw [hcall]
    refine ⟨rfl, rfl, fun envelope hok => ?_, ?_⟩
    · exact job.errand.cached_of_call transport w.service.tokens (hresult.trans hok)
    · exact hresult ▸ job.errand.ofCall_call transport w.service.tokens now w.wire
  | again hjudge => exact ⟨rfl, rfl, trivial, trivial⟩

end World

/-! ## What ties the service to the ledger -/

namespace Accounts

variable {ω : Type}

/-- The statistics of registered endpoints and the events about requests are as the ledger says, apart from
the events before it was begun. -/
structure Balanced (earlier : List Event) (a : Accounts ω) : Prop where
  calling : ∀ wake request, Course.pending wake request ∈ a.traffic.flights → request.Calling
  tallied : ∀ id, a.traffic.world.service.registry.get? id ≠ none →
    a.traffic.world.service.metrics.tally? id = some (.ofAnswers (answersSince id a.ledger))
  known : ∀ id, a.traffic.world.service.registry.get? id ≠ none →
    ∀ answer ∈ answersSince id a.ledger, ∀ error, answer ≠ .error (.registry error)
  published : a.traffic.world.service.events.log.filter Event.isOfRequest =
    a.ledger.filterMap Booking.event? ++ earlier.filter Event.isOfRequest

variable {earlier : List Event} {a : Accounts ω}

theorem Balanced.act (h : Balanced earlier a) (hown : a.traffic.world.service.OwnIds)
    (transport : Transport ω) {flight wake : Nat} {request : Request}
    (hflight : a.traffic.flights[flight]? = some (.pending wake request)) :
    Balanced earlier ⟨a.traffic.act transport flight request,
      request.booked a.traffic.now (World.act transport a.traffic.now a.traffic.world request).2 ++
        a.ledger⟩ := by
  have hcalling := h.calling wake request (List.mem_of_getElem? hflight)
  have hturns := World.act_turns transport a.traffic.now a.traffic.world request
  unfold Traffic.act
  rcases hact : World.act transport a.traffic.now a.traffic.world request with ⟨w', turn⟩
  rw [hact] at hturns
  cases turn with
  | wait duration next =>
    obtain ⟨hmetrics, hevents, hnext⟩ := hturns.unaccounted
    refine ⟨fun wake' request' hmem => ?_, fun id hid => ?_, fun id hid => ?_, ?_⟩
    · rcases List.mem_or_eq_of_mem_set hmem with hmem | heq
      · exact h.calling wake' request' hmem
      · cases heq
        exact hnext
    · show w'.service.metrics.tally? id = _
      rw [hmetrics]
      exact h.tallied id (hturns.registry ▸ hid)
    · exact h.known id (hturns.registry ▸ hid)
    · show w'.service.events.log.filter _ = _
      rw [hevents]
      exact h.published
  | finish answer =>
    have hothers : ∀ wake' request', Course.pending wake' request' ∈
        a.traffic.flights.set flight (.done a.traffic.now answer) → request'.Calling := by
      intro wake' request' hmem
      rcases List.mem_or_eq_of_mem_set hmem with hmem | heq
      · exact h.calling wake' request' hmem
      · cases heq
    have hsince : ∀ id, answersSince id (request.booked a.traffic.now (.finish answer) ++ a.ledger) =
        if request.id = id then answer :: answersSince id a.ledger else answersSince id a.ledger :=
      fun id => answersSince_answered ..
    obtain ⟨hnone, rfl, rfl⟩ | ⟨htally, event, hevent, hkind, hlog⟩ := hturns.accounted hown hcalling
    · -- the answer is entered, but under an id that has no statistics
      have hne : ∀ id, a.traffic.world.service.registry.get? id ≠ none → request.id ≠ id := by
        rintro id hid rfl
        exact hid hnone
      refine ⟨hothers, fun id hid => ?_, fun id hid => ?_, h.published⟩
      · rw [hsince, if_neg (hne id hid)]
        exact h.tallied id hid
      · rw [hsince, if_neg (hne id hid)]
        exact h.known id hid
    · refine ⟨hothers, fun id hid => ?_, fun id hid => ?_, ?_⟩
      · have hold := h.tallied id (hturns.registry ▸ hid)
        show w'.service.metrics.tally? id = _
        rw [hsince, htally, hold]
        by_cases heq : request.id = id
        · rw [if_pos heq, if_pos heq, Tally.ofAnswers_cons]
          rfl
        · rw [if_neg heq, if_neg heq]
      · have hold := h.known id (hturns.registry ▸ hid)
        rw [hsince]
        split
        · intro answer' hmem error heq
          rcases List.mem_cons.1 hmem with rfl | hmem
          · rw [heq] at hevent
            cases hevent
          · exact hold answer' hmem error heq
        · exact hold
      · show w'.service.events.log.filter _ = List.filterMap _ (_ :: a.ledger) ++ _
        rw [hlog, List.filter_cons_of_pos hkind, List.filterMap_cons_some hevent, List.cons_append,
          ← h.published]

/-- An operation registers some endpoints and leaves the statistics of all others, and tells of no
request. -/
theorem Balanced.operated (h : Balanced earlier a) {now : Nat} {s : Service} {log : List Deed}
    (ids : List String) (hids : ∀ k ∈ ids, s.metrics.get? k = some Stats.zero)
    (hothers : ∀ k, k ∉ ids → s.registry.get? k ≠ none →
      a.traffic.world.service.registry.get? k ≠ none ∧
        s.metrics.get? k = a.traffic.world.service.metrics.get? k)
    (hevents : s.events.log.filter Event.isOfRequest =
      a.traffic.world.service.events.log.filter Event.isOfRequest) :
    Balanced earlier ⟨{ a.traffic with now, world := { a.traffic.world with service := s }, log },
      ids.map .opened ++ a.ledger⟩ where
  calling := h.calling
  tallied id hid := by
    show s.metrics.tally? id = _
    rw [answersSince_opened_all]
    by_cases hmem : id ∈ ids
    · rw [if_pos hmem, Metrics.tally?, hids id hmem]
      rfl
    · obtain ⟨hold, hsame⟩ := hothers id hmem hid
      rw [if_neg hmem, Metrics.tally?, hsame]
      exact h.tallied id hold
  known id hid := by
    rw [answersSince_opened_all]
    by_cases hmem : id ∈ ids
    · rw [if_pos hmem]
      intro answer hanswer
      cases hanswer
    · rw [if_neg hmem]
      exact h.known id (hothers id hmem hid).1
  published := by
    show s.events.log.filter _ = _
    rw [hevents, event?_opened_all]
    exact h.published

theorem Balanced.kept (h : Balanced earlier a) {now : Nat} {s : Service} {log : List Deed}
    (hregistry : ∀ k, s.registry.get? k ≠ none → a.traffic.world.service.registry.get? k ≠ none)
    (hmetrics : ∀ k, s.registry.get? k ≠ none →
      s.metrics.get? k = a.traffic.world.service.metrics.get? k)
    (hevents : s.events.log.filter Event.isOfRequest =
      a.traffic.world.service.events.log.filter Event.isOfRequest) :
    Balanced earlier ⟨{ a.traffic with now, world := { a.traffic.world with service := s }, log },
      a.ledger⟩ :=
  h.operated [] (fun k hk => by cases hk) (fun k _ hsome => ⟨hregistry k hsome, hmetrics k hsome⟩) hevents

end Accounts

namespace Service

theorem register_accounts {s s' : Service} {e : Endpoint} (h : s.register e = .ok s') :
    (∀ k, s'.metrics.get? k = if e.id = k then some Stats.zero else s.metrics.get? k) ∧
      s'.events.log = .registered e.id :: s.events.log := by
  unfold register at h
  split at h
  · cases h
  · cases h
    exact ⟨fun k => Dict.get?_insert .., rfl⟩

theorem importText_accounts {s : Service} {text : String} (h : importClears text = true) :
    (∀ id, (s.importText text).2.registry.get? id ≠ none →
        (s.importText text).2.metrics.get? id = some Stats.zero) ∧
      (s.importText text).2.events.log.filter Event.isOfRequest =
        s.events.log.filter Event.isOfRequest := by
  obtain ⟨hnot, -⟩ | ⟨-, es, told, -, hafter, htold⟩ := s.importText_cases text
  · rw [h] at hnot
    cases hnot
  · refine ⟨fun id hid => ?_, ?_⟩
    · obtain ⟨e, he⟩ := Option.ne_none_iff_exists'.1 hid
      rw [hafter.stats, he, Option.map_some]
    · have hnone : told.reverse.filter Event.isOfRequest = [] := by
        refine List.filter_eq_nil_iff.2 fun event hevent => ?_
        obtain ⟨id, rfl⟩ | ⟨count, rfl⟩ := htold event (List.mem_reverse.1 hevent) <;>
          exact Bool.false_ne_true
      rw [hafter.events, Channel.log_publishAll, List.filter_append, hnone, List.nil_append]

end Service

namespace Accounts

variable {ω : Type} {earlier : List Event} {a : Accounts ω}

theorem Balanced.operate (h : Balanced earlier a) (transport : Transport ω) (op : Operation) :
    Balanced earlier (a.step transport (.operate op)) := by
  cases op with
  | register e =>
    simp only [step, Traffic.step, Traffic.booked, Service.operate]
    cases hreg : a.traffic.world.service.register e with
    | error error => exact h
    | ok s =>
      obtain ⟨-, -, hregistry, -⟩ := Service.register_eq_ok hreg
      obtain ⟨hmetrics, hlog⟩ := Service.register_accounts hreg
      refine h.operated [e.id] (fun k hk => ?_) (fun k hk hsome => ?_) ?_
      · rw [hmetrics, if_pos (List.mem_singleton.1 hk).symm]
      · have hne : e.id ≠ k := fun heq => hk (List.mem_singleton.2 heq.symm)
        rw [hregistry, Registry.get?, Dict.get?_insert_of_ne _ _ hne] at hsome
        exact ⟨hsome, by rw [hmetrics, if_neg hne]⟩
      · rw [hlog]
        rfl
  | update id u =>
    cases hup : a.traffic.world.service.registry.update id u with
    | error error =>
      simp only [step, Traffic.step, Traffic.booked, Service.operate, Service.update, hup]
      exact h.kept (fun _ hsome => hsome) (fun _ _ => rfl) rfl
    | ok updated =>
      obtain ⟨e, r⟩ := updated
      simp only [step, Traffic.step, Traffic.booked, Service.operate, Service.update, hup]
      obtain ⟨old, hold, rfl, -, rfl⟩ := Registry.update_eq_ok hup
      refine h.kept (fun k hsome => ?_) (fun _ _ => rfl) rfl
      by_cases hk : id = k
      · rw [← hk, hold]
        exact Option.some_ne_none old
      · have hsome : Dict.get? (Dict.insert _ id _) k ≠ none := hsome
        rwa [Dict.get?_insert_of_ne _ _ hk] at hsome
  | unregister id =>
    cases hun : a.traffic.world.service.registry.unregister id with
    | error error =>
      simp only [step, Traffic.step, Traffic.booked, Service.operate, Service.unregister, hun]
      exact h.kept (fun _ hsome => hsome) (fun _ _ => rfl) rfl
    | ok removed =>
      obtain ⟨e, r⟩ := removed
      simp only [step, Traffic.step, Traffic.booked, Service.operate, Service.unregister, hun]
      obtain ⟨he, rfl⟩ := Registry.unregister_eq_ok hun
      have hne : ∀ k, Dict.get? (Dict.erase a.traffic.world.service.registry.endpoints id) k ≠ none →
          id ≠ k := by
        rintro k hsome rfl
        exact hsome (Dict.get?_erase_self _ _)
      refine h.kept (fun k hsome => ?_) (fun k hsome => Dict.get?_erase_of_ne _ (hne k hsome)) rfl
      have hk := hne k hsome
      have hsome : Dict.get? (Dict.erase _ id) k ≠ none := hsome
      rwa [Dict.get?_erase_of_ne _ hk] at hsome
  | clearCache id => exact h.kept (fun _ hsome => hsome) (fun _ _ => rfl) rfl
  | importText text =>
    simp only [step, Traffic.step, Traffic.booked, Service.operate]
    cases hclears : Service.importClears text with
    | true =>
      obtain ⟨hzero, hevents⟩ := Service.importText_accounts (s := a.traffic.world.service) hclears
      refine h.operated (Service.importText _ text).2.registry.ids (fun k hk => ?_) (fun k hk hsome => ?_)
        hevents
      · exact hzero k (Registry.mem_ids.1 hk)
      · exact absurd (Registry.mem_ids.2 hsome) hk
    | false =>
      obtain ⟨-, heq⟩ | ⟨hclears', -⟩ := Service.importText_cases a.traffic.world.service text
      · rw [heq]
        exact h.kept (fun _ hsome => hsome) (fun _ _ => rfl) rfl
      · rw [hclears] at hclears'
        cases hclears'
  | setToken id token => exact h.kept (fun _ hsome => hsome) (fun _ _ => rfl) rfl
  | sweep => exact h.kept (fun _ hsome => hsome) (fun _ _ => rfl) rfl
  | startMaintenance periods => exact h.kept (fun _ hsome => hsome) (fun _ _ => rfl) rfl
  | stopMaintenance => exact h.kept (fun _ hsome => hsome) (fun _ _ => rfl) rfl

/-- Every move keeps to the ledger. -/
theorem Balanced.step (h : Balanced earlier a) (hown : a.traffic.world.service.OwnIds)
    (transport : Transport ω) (move : Move) : Balanced earlier (a.step transport move) := by
  cases move with
  | operate op => exact h.operate transport op
  | arrive id options =>
    refine ⟨fun wake request hmem => ?_, h.tallied, h.known, h.published⟩
    rcases List.mem_append.1 hmem with hmem | hmem
    · exact h.calling wake request hmem
    · cases List.mem_singleton.1 hmem
      trivial
  | turn flight =>
    unfold Accounts.step Traffic.step Traffic.booked
    dsimp only
    cases hflight : a.traffic.flights[flight]? with
    | none => exact h
    | some course =>
      cases course with
      | done time answer => exact h
      | pending wake request =>
        dsimp only
        split
        · exact h.act hown transport hflight
        · exact h
  | pass ms =>
    have hregistry :=
      (Service.pass_alike a.traffic.world.service a.traffic.now (a.traffic.now + ms)).registry
    refine h.kept (fun k hsome => hregistry ▸ hsome) (fun k _ => ?_) ?_
    · rw [Service.pass_metrics]
    · rw [Service.pass_events]

theorem balanced_run (transport : Transport ω) (h : Balanced earlier a) (hsound : a.traffic.Sound)
    (moves : List Move) : Balanced earlier (a.run transport moves) := by
  induction moves generalizing a with
  | nil => exact h
  | cons move moves ih => exact ih (h.step hsound.own transport move) (hsound.step transport move)

end Accounts

/-! ## Requests that a session makes -/

namespace Traffic

variable {ω : Type}

theorem run_append (transport : Transport ω) (t : Traffic ω) (moves moves' : List Move) :
    t.run transport (moves ++ moves') = (t.run transport moves).run transport moves' :=
  List.foldl_append

theorem run_arrive (transport : Transport ω) (t : Traffic ω) (calls : List (String × CallOptions)) :
    t.run transport (calls.map fun call => .arrive call.1 call.2) =
      { t with flights := t.flights ++
          calls.map fun call => .pending t.now (.arriving call.1 call.2) } := by
  induction calls generalizing t with
  | nil => simp [run]
  | cons call calls ih =>
    rw [List.map_cons, run, List.foldl_cons, ← run, ih]
    simp [step]

/-- When its time has come a request in flight takes a turn, as it does in a schedule. -/
theorem run_pass_turn (transport : Transport ω) {t : Traffic ω}
    {before after : List (Course Request Answer)} {wake : Nat} {request : Request}
    (hflights : t.flights = before ++ .pending wake request :: after) :
    let time := max t.now wake
    let next := World.act transport time { t.world with service := t.world.service.pass t.now time } request
    ∃ moves, (t.run transport moves).now = time ∧ (t.run transport moves).world = next.1 ∧
      (t.run transport moves).flights = before ++ next.2.course time :: after := by
  intro time next
  have htime : t.now + (time - t.now) = time := Nat.add_sub_cancel' (Nat.le_max_left ..)
  have hwake : wake ≤ time := Nat.le_max_right ..
  have hflight : t.flights[before.length]? = some (.pending wake request) := by simp [hflights]
  have hrun : t.run transport [.pass (time - t.now), .turn before.length] = ({ t with
      now := time
      world := { t.world with service := t.world.service.pass t.now time } } : Traffic ω).act transport
        before.length request := by
    simp only [run, List.foldl_cons, List.foldl_nil, step, htime, hflight, hwake, if_true]
  refine ⟨_, by rw [hrun]; rfl, by rw [hrun]; rfl, ?_⟩
  rw [hrun]
  simp only [act, hflights, List.set_append_right _ _ (Nat.le_refl before.length), Nat.sub_self,
    List.set_cons_zero]
  rfl

/-- Requests that a session makes side by side, in a batch, as health checks or alone, arrive and take
their turns by moves. -/
theorem exists_moves_of_requests (transport : Transport ω) (t : Traffic ω) {fuel : Nat}
    {calls : List (String × CallOptions)} {answers : List (Nat × Answer)} {after : Session ω}
    (h : (⟨t.now, t.world⟩ : Session ω).requests transport fuel calls = some (answers, after)) :
    ∃ moves courses, (t.run transport moves).now = after.now ∧
      (t.run transport moves).world = after.world ∧
      (t.run transport moves).flights = t.flights ++ courses ∧ Schedule.results courses = answers := by
  unfold Session.requests at h
  obtain ⟨outcome, hrun, heq⟩ := Option.map_eq_some_iff.1 h
  cases heq
  have hstart := run_arrive transport t calls
  obtain ⟨⟨moves, hnow, hworld, hflights⟩, -⟩ := Schedule.run_invariant (World.workshop transport)
    (P := fun now world courses => ∃ moves, (t.run transport moves).now = now ∧
      (t.run transport moves).world = world ∧ (t.run transport moves).flights = t.flights ++ courses)
    (fun now world before wake request after hbefore => by
      obtain ⟨moves, rfl, rfl, hflights⟩ := hbefore
      rw [← List.append_assoc] at hflights
      obtain ⟨moves', hnow, hworld, hnext⟩ := run_pass_turn transport hflights
      refine ⟨moves ++ moves', ?_⟩
      rw [run_append, ← List.append_assoc]
      exact ⟨hnow, hworld, hnext⟩)
    ⟨_, by rw [hstart], by rw [hstart], by rw [hstart]⟩ hrun
  exact ⟨moves, outcome.courses, hnow, hworld, hflights, rfl⟩

end Traffic

namespace Accounts

variable {ω : Type}

/-- The accounts of a new service. -/
def start (strategy : KeyStrategy) (tokens : Tokens) (events : Channel) (state : ω) : Accounts ω :=
  ⟨.start strategy tokens events state, []⟩

theorem balanced_start (strategy : KeyStrategy) (tokens : Tokens) (events : Channel) (state : ω) :
    Balanced events.log (start strategy tokens events state) where
  calling _ _ h := by cases h
  tallied _ h := absurd rfl h
  known _ h := absurd rfl h
  published := rfl

/-- In every run, whatever is in flight, the statistics of a registered endpoint count the requests for it
that were answered since it was registered: all of them, those that brought a response from a call, those
that failed and those over the limit; the others were served from the cache. Each of them is told of by one
event of its kind and there are no other events about requests. A request for an endpoint that is not
registered changes nothing. Batches and health checks are requests like all others. -/
theorem requests_accounted (transport : Transport ω) (strategy : KeyStrategy) (tokens : Tokens)
    (events : Channel) (state : ω) (moves : List Move) :
    let a := (start strategy tokens events state).run transport moves
    let s := a.traffic.world.service
    a.traffic = (Traffic.start strategy tokens events state).run transport moves ∧
    (∀ id, s.registry.get? id ≠ none →
      let answers := answersSince id a.ledger
      (∃ stats, s.metrics.get? id = some stats ∧ stats.total = answers.length ∧
        stats.successes = answers.countP isFresh ∧ stats.failures = answers.countP isFailed ∧
        stats.limitHits = answers.countP isLimited ∧
        stats.total - stats.successes - stats.failures = answers.countP isServed ∧
        stats.limitHits ≤ stats.failures ∧ stats.failures ≤ stats.total) ∧
      ∀ answer ∈ answers, ∀ started time,
        (Booking.event? (.answered started time id answer)).isSome = true) ∧
    s.events.log.filter Event.isOfRequest =
      a.ledger.filterMap Booking.event? ++ events.log.filter Event.isOfRequest ∧
    (∀ id options, s.registry.get? id = none →
      World.act transport a.traffic.now a.traffic.world (.arriving id options) =
        (a.traffic.world, .finish (.error (.registry (.notFound id))))) ∧
    ∀ fuel calls answers (after : Session ω),
      (⟨a.traffic.now, a.traffic.world⟩ : Session ω).requests transport fuel calls =
        some (answers, after) →
      ∃ further courses, (a.traffic.run transport further).now = after.now ∧
        (a.traffic.run transport further).world = after.world ∧
        (a.traffic.run transport further).flights = a.traffic.flights ++ courses ∧
        Schedule.results courses = answers := by
  intro a s
  have hbalanced : Balanced events.log a :=
    balanced_run transport (balanced_start ..) (Traffic.sound_start ..) moves
  refine ⟨traffic_run .., fun id hid => ⟨?_, fun answer hmem started time => ?_⟩, hbalanced.published,
    fun id options hid => ?_, fun fuel calls answers after h => ?_⟩
  · obtain ⟨stats, hstats, htally⟩ := Option.map_eq_some_iff.1 (hbalanced.tallied id hid)
    have htotal : stats.total = (answersSince id a.ledger).length := congrArg Tally.total htally
    have hsuccesses : stats.successes = (answersSince id a.ledger).countP isFresh :=
      congrArg Tally.successes htally
    have hfailures : stats.failures = (answersSince id a.ledger).countP isFailed :=
      congrArg Tally.failures htally
    have hlimitHits : stats.limitHits = (answersSince id a.ledger).countP isLimited :=
      congrArg Tally.limitHits htally
    have hsum := length_eq_counts (answersSince id a.ledger)
    have hlimited := countP_limited_le (answersSince id a.ledger)
    exact ⟨stats, hstats, htotal, hsuccesses, hfailures, hlimitHits, by omega, by omega, by omega⟩
  · have hknown := hbalanced.known id hid answer hmem
    rcases answer with failure | envelope
    · cases failure <;> first | rfl | exact absurd rfl (hknown _)
    · rfl
  · simp only [World.act, s] at hid ⊢
    rw [hid]
  · exact Traffic.exists_moves_of_requests transport a.traffic h

/-- Three requests to an endpoint that takes two calls a second and keeps responses, and one to an endpoint
that is not there. -/
def fourRequests : List Move :=
  [.operate (.register { Endpoint.keeping with rateLimit := some ⟨2, 1000, false, none⟩ }),
    .arrive "a" .plain, .turn 0, .pass 5, .turn 0, .arrive "a" .plain, .turn 1,
    .arrive "a" .plain, .turn 2, .arrive "b" .plain, .turn 3]

/-- The first request makes a call, the second one is served from the cache and the third one is over the
limit; nobody is told of the fourth one. -/
theorem requests_accounted_fourRequests :
    let s := ((start .request none (.create 1 0) ()).run .steady fourRequests).traffic.world.service
    (∃ stats, s.metrics.get? "a" = some stats ∧ stats.total = 3 ∧ stats.successes = 1 ∧
      stats.failures = 1 ∧ stats.limitHits = 1 ∧ stats.total - stats.successes - stats.failures = 1) ∧
    s.events.log.filter Event.isOfRequest =
      [.rateLimited "a", .succeeded "a" 204 0 true, .succeeded "a" 204 5 false] := by
  intro s
  obtain ⟨-, haccounted, hevents, -⟩ :=
    requests_accounted .steady .request none (.create 1 0) () fourRequests
  obtain ⟨⟨stats, hstats, htotal, hsuccesses, hfailures, hlimitHits, hserved, -⟩, -⟩ :=
    haccounted "a" (Option.some_ne_none _)
  exact ⟨⟨stats, hstats, htotal, hsuccesses, hfailures, hlimitHits, hserved⟩,
    hevents.trans (by decide)⟩

end Accounts

end Egress
