import Egress.Proofs.Service.Memory

/-!
# What a request is answered with

A request that finds its endpoint checks the limiter, perhaps several times (`Service.Polls`). The check
that admits it decides: it is answered at once from the cache, or later by its errand
(`alone_of_admitted`). With the history of the session, `cached_iff_lastResponse` says which of the two
it is.
-/

set_option autoImplicit false

namespace Egress

namespace Service

/-- A request for `e` that checks the limiter at `now` for the first time finds the second service when
it checks at `t`; before that it was told to wait each time. -/
inductive Polls (e : Endpoint) (now : Nat) (s : Service) : Nat → Service → Prop
  | first : Polls e now s now s
  | again {t delay : Nat} {s' : Service} {limiter : Limiter} (h : Polls e now s t s')
      (henter : s'.limiter.enter t e.id e.rateLimit = (.wait delay, limiter)) :
      Polls e now s (t + delay) (({ s' with limiter } : Service).pass t (t + delay))

variable {e : Endpoint} {now t : Nat} {s s' : Service}

theorem Polls.le (h : Polls e now s t s') : now ≤ t := by
  induction h with
  | first => exact Nat.le_refl now
  | again _ _ ih => exact Nat.le_add_right_of_le ih

theorem Polls.alike (h : Polls e now s t s') : Alike t s s' := by
  induction h with
  | first => exact .refl now s
  | @again t delay s' limiter _ _ ih =>
    have hlimiter : Alike t s' { s' with limiter } := .of_eq rfl rfl rfl
    exact (ih.trans hlimiter (Nat.le_refl t)).trans (pass_alike _ t (t + delay))
      (Nat.le_add_right t delay)

theorem Polls.tokens (h : Polls e now s t s') : s'.tokens = s.tokens := by
  induction h with
  | first => rfl
  | again _ _ ih => rw [pass_tokens]; exact ih

end Service

namespace World

variable {ω : Type} {transport : Transport ω} {job : Job}

/-- A request that waits for its turn goes on as it does from a later check. -/
theorem alone_of_polls {e : Endpoint} {now t u : Nat} {s s' : Service}
    (h : Service.Polls e now s t s') (hjob : job.endpoint = e) {wire : Wire ω} {after : World ω}
    {answer : Answer}
    (hrest : Schedule.Alone (workshop transport) t ⟨s', wire⟩ (.queueing job) u after answer) :
    Schedule.Alone (workshop transport) now ⟨s, wire⟩ (.queueing job) u after answer := by
  subst hjob
  induction h with
  | first => exact hrest
  | @again t delay s' limiter _ henter ih =>
    refine ih (.wait (Turns.act_eq (.wait henter)) ?_)
    exact hrest

/-- A request that finds its endpoint is in the place of one that waits for its turn. -/
theorem alone_arriving {id : String} {options : CallOptions} {e : Endpoint} {now u : Nat}
    {w after : World ω} {answer : Answer} (hid : w.service.registry.get? id = some e)
    (h : Schedule.Alone (workshop transport) now w (.queueing ⟨e, options, now⟩) u after answer) :
    Schedule.Alone (workshop transport) now w (.arriving id options) u after answer := by
  have hact : act transport now w (.arriving id options) =
      act transport now w (.queueing ⟨e, options, now⟩) := by
    simp only [act, hid]
  cases h with
  | finish h => exact .finish (hact.trans h)
  | wait h hrest => exact .wait (hact.trans h) hrest

/-- A request whose errand is under way is answered when the errand is, and as the errand is. -/
theorem alone_working {tokens : Tokens} {now u : Nat} {wire wire' : Wire ω} {stage : Errand.Stage}
    {answer : Answer}
    (h : Schedule.Alone (job.errand.workshop transport tokens) now wire stage u wire' answer)
    {s : Service} (htokens : s.tokens = tokens) :
    ∃ s', Schedule.Alone (workshop transport) now ⟨s, wire⟩ (.working job stage) u ⟨s', wire'⟩ answer := by
  induction h generalizing s with
  | @finish now wire wire' stage answer h =>
    have hact : act transport now ⟨s, wire⟩ (.working job stage) =
        (⟨s.conclude now job answer, wire'⟩, .finish answer) := by
      have herrand : job.errand.act transport tokens now wire stage = (wire', .finish answer) := h
      simp only [act, work, htokens, herrand]
    exact ⟨_, .finish hact⟩
  | @wait now duration u wire called wire' stage next answer h hrest ih =>
    have hact : act transport now ⟨s, wire⟩ (.working job stage) =
        (⟨s, called⟩, .wait duration (.working job next)) := by
      have herrand : job.errand.act transport tokens now wire stage = (called, .wait duration next) :=
        h
      simp only [act, work, htokens, herrand]
    obtain ⟨s', hrest'⟩ := ih (s := s.pass now (now + duration)) ((s.pass_tokens _ _).trans htokens)
    exact ⟨s', .wait hact hrest'⟩

/-- A request that is admitted is answered at once if the look-up brings something, and else by its
errand. -/
theorem alone_of_admitted (transport : Transport ω) (job : Job) {t : Nat} {s : Service}
    (hadmitted : (s.limiter.enter t job.endpoint.id job.endpoint.rateLimit).1 = .admitted)
    (wire : Wire ω) :
    ∃ u s' wire' answer,
      Schedule.Alone (workshop transport) t ⟨s, wire⟩ (.queueing job) u ⟨s', wire'⟩ answer ∧
      match (s.lookup t job).1 with
      | some envelope => u = t ∧ wire' = wire ∧ answer = .ok envelope
      | none =>
        Schedule.Alone (job.errand.workshop transport s.tokens) t wire (.pausing 1) u wire' answer := by
  rcases henter : s.limiter.enter t job.endpoint.id job.endpoint.rateLimit with ⟨entry, limiter⟩
  rw [henter] at hadmitted
  dsimp only at hadmitted
  subst hadmitted
  have hsame : (s.lookup t job).1 = (Service.lookup { s with limiter } t job).1 := by
    rw [Service.lookup_fst, Service.lookup_fst]
  have htokens := Service.lookup_tokens { s with limiter } t job
  rw [hsame]
  rcases hlookup : Service.lookup { s with limiter } t job with ⟨_ | envelope, s'⟩
  · rw [hlookup] at htokens
    obtain ⟨u, wire', answer, herrand⟩ := job.errand.exists_alone transport s.tokens t 1 wire
    obtain ⟨called, duration, result, hcall⟩ :
        ∃ called duration result,
          job.errand.call transport s.tokens t wire = (called, duration, result) := ⟨_, _, _, rfl⟩
    have hpause : (job.errand.workshop transport s.tokens).act t wire (.pausing 1) =
        (called, .wait duration (.calling 1 result)) := by
      simp only [Errand.workshop, Errand.act, hcall]
    have hmiss : act transport t ⟨s, wire⟩ (.queueing job) =
        (⟨s', called⟩, .wait duration (.working job (.calling 1 result))) :=
      Turns.act_eq (.miss henter hlookup (by rw [htokens]; exact hcall))
    obtain ⟨s'', hrest⟩ := alone_working (herrand.rest hpause)
      (s := s'.pass t (t + duration)) ((s'.pass_tokens _ _).trans htokens)
    exact ⟨u, s'', wire', answer, .wait hmiss hrest, herrand⟩
  · exact ⟨t, _, wire, .ok envelope, .finish (Turns.act_eq (.hit henter hlookup)), rfl, rfl, rfl⟩

end World

namespace Session

variable {ω : Type} {transport : Transport ω} {s after : Session ω} {id : String}
  {options : CallOptions}

/-- With turns enough a request is answered as its task is on its own. -/
theorem request_of_alone {u : Nat} {w : World ω} {answer : Answer}
    (h : Schedule.Alone (World.workshop transport) s.now s.world (.arriving id options) u w answer) :
    ∃ enough, ∀ fuel, enough ≤ fuel →
      s.request transport fuel id options = some (answer, ⟨u, w⟩) := by
  have hpassed : (World.workshop transport).pass s.now s.now s.world = s.world := by
    simp only [World.workshop, Service.pass_self]
  obtain ⟨enough, hrun⟩ := h.run_eq (Nat.le_refl s.now) hpassed
  refine ⟨enough, fun fuel hfuel => ?_⟩
  simp [request, requests, hrun fuel hfuel, Schedule.results]

/-- A request that fails changes nothing that is served, and stores nothing. -/
theorem alike_of_request_error {fuel : Nat} {failure : Failure}
    (h : s.request transport fuel id options = some (.error failure, after)) :
    Service.Alike after.now s.world.service after.world.service := by
  unfold request requests at h
  simp only [Option.bind_eq_bind, Option.pure_def, List.map_cons, List.map_nil,
    Option.bind_eq_some_iff, Option.map_eq_some_iff, Prod.exists, Option.some.injEq,
    Prod.mk.injEq] at h
  obtain ⟨answers, _, ⟨outcome, hrun, rfl, rfl⟩, time, answer, hhead, rfl, rfl⟩ := h
  let P (now : Nat) (w : World ω) (courses : List (Course Request Answer)) :=
    courses.length = 1 ∧ (Service.Alike now s.world.service w.service ∨
      ∃ time envelope, Course.done time (.ok envelope) ∈ courses)
  have hstep : ∀ now w before wake task after, P now w (before ++ .pending wake task :: after) →
      P (max now wake) ((World.workshop transport).act (max now wake)
          ((World.workshop transport).pass now (max now wake) w) task).1
        (before ++ ((World.workshop transport).act (max now wake)
          ((World.workshop transport).pass now (max now wake) w) task).2.course (max now wake) ::
            after) := by
    rintro now w before wake task after ⟨hlength, hP⟩
    have htime : now ≤ max now wake := Nat.le_max_left now wake
    generalize max now wake = time at htime
    refine ⟨by simpa using hlength, ?_⟩
    rcases hP with halike | ⟨u, envelope, hmem⟩
    · have hpassed := halike.trans (Service.pass_alike w.service now time) htime
      have hturns := World.act_turns transport time ⟨w.service.pass now time, w.wire⟩ task
      obtain ⟨hsame, -⟩ | ⟨job, n, envelope, -, -, hturn⟩ := hturns.alike
      · exact .inl (hpassed.trans hsame (Nat.le_refl time))
      · exact .inr ⟨time, envelope, by simp [World.workshop, hturn, Turn.course]⟩
    · refine .inr ⟨u, envelope, ?_⟩
      simp only [List.mem_append, List.mem_cons, reduceCtorEq, false_or] at hmem ⊢
      exact hmem.imp_right .inr
  obtain ⟨⟨hlength, hend⟩, hdone⟩ := Schedule.run_invariant (World.workshop transport) (P := P) hstep
    ⟨rfl, .inl (.refl _ _)⟩ hrun
  obtain ⟨course, hcourse⟩ := List.length_eq_one_iff.1 hlength
  rcases hend with halike | ⟨u, envelope, hmem⟩
  · exact halike
  · rw [hcourse, List.mem_singleton] at hmem
    subst hmem
    simp [hcourse, Schedule.results] at hhead

end Session

/-- What the look-up of a request brings, going by the history. -/
theorem Service.Faithful.lookup_eq_some_iff {t : Nat} {s : Service} {past : List Happening}
    (h : Faithful t s past) {job : Job}
    (hjob : s.registry.get? job.endpoint.id = some job.endpoint) (envelope : Envelope) :
    (s.lookup t job).1 = some envelope ↔
      job.options.forceRefresh = false ∧ ∃ ttl u kept, job.endpoint.cacheTtl? = some ttl ∧
        lastResponse? s.strategy job.endpoint.id (s.strategy.key job.endpoint.id job.options) past =
          some (u, kept) ∧ t < u + ttl ∧ envelope = kept.asCached := by
  rw [lookup_fst]
  cases job.options.forceRefresh with
  | true => simp
  | false =>
    rw [h.kept _ _ t (h.own _ _ hjob).2 (Nat.le_refl t), remembered?, hjob, Option.bind_some]
    cases job.endpoint.cacheTtl? with
    | none => simp
    | some ttl =>
      cases lastResponse? s.strategy job.endpoint.id
          (s.strategy.key job.endpoint.id job.options) past with
      | none => simp
      | some last =>
        obtain ⟨u, kept⟩ := last
        simp only [Bool.false_eq_true, if_false, Option.bind_some, true_and, Option.some.injEq,
          Prod.mk.injEq]
        constructor
        · intro hsome
          split at hsome
          · next hlt =>
            exact ⟨ttl, u, kept, rfl, ⟨rfl, rfl⟩, hlt, (Option.some.inj hsome).symm⟩
          · cases hsome
        · rintro ⟨_, _, _, rfl, ⟨rfl, rfl⟩, hlt, rfl⟩
          rw [if_pos hlt]
          rfl

/-- A request that is admitted at `t` is answered with a response marked as kept exactly if it does not
insist on a fresh one, the endpoint keeps responses, and in the history there is a last response of the
same key whose time is not over at `t`. It is that response then, at once, and nothing is sent; in all
other cases the answer is that of the errand. A request that fails changes nothing that is kept. -/
theorem Session.Reached.cached_iff_lastResponse {ω : Type} {transport : Transport ω} {s : Session ω}
    {past : List Happening} (h : Session.Reached transport s past) (id : String)
    (options : CallOptions) :
    (∀ e t s', s.world.service.registry.get? id = some e → s.world.service.Polls e s.now t s' →
      (s'.limiter.enter t id e.rateLimit).1 = .admitted →
      ∃ answer after enough,
        (∀ fuel, enough ≤ fuel → s.request transport fuel id options = some (answer, after)) ∧
        ((∃ envelope, answer = .ok envelope ∧ envelope.cached = true) ↔
          options.forceRefresh = false ∧ ∃ ttl u kept, e.cacheTtl? = some ttl ∧
            lastResponse? s.world.service.strategy id (s.world.service.strategy.key id options) past =
              some (u, kept) ∧ t < u + ttl) ∧
        (∀ envelope, answer = .ok envelope → envelope.cached = true →
          (∃ u kept, lastResponse? s.world.service.strategy id
              (s.world.service.strategy.key id options) past = some (u, kept) ∧
            envelope = { kept with cached := true }) ∧
          after.now = t ∧ after.world.wire = s.world.wire) ∧
        ((¬∃ envelope, answer = .ok envelope ∧ envelope.cached = true) →
          ∃ enough, ∀ fuel, enough ≤ fuel →
            (⟨e, options, e.effectiveRetryPolicy?⟩ : Errand).run transport s.world.service.tokens fuel
              t s.world.wire = some ⟨after.now, after.world.wire, [.done after.now answer]⟩)) ∧
    ∀ fuel failure after, s.request transport fuel id options = some (.error failure, after) →
      Service.Alike after.now s.world.service after.world.service := by
  refine ⟨fun e t s' hid hpolls hadmitted => ?_, fun fuel failure after => alike_of_request_error⟩
  have hfaithful := reached_faithful h
  have hpolled : Service.Faithful t s' past := hfaithful.alike hpolls.alike hpolls.le
  obtain ⟨rfl, -⟩ := hfaithful.own id e hid
  let job : Job := ⟨e, options, s.now⟩
  have hjob : s'.registry.get? job.endpoint.id = some job.endpoint := by
    rw [hpolls.alike.registry]
    exact hid
  obtain ⟨u, service, wire, answer, halone, hcase⟩ :=
    World.alone_of_admitted transport job hadmitted s.world.wire
  obtain ⟨enough, hrequest⟩ :=
    request_of_alone (World.alone_arriving hid (World.alone_of_polls hpolls rfl halone))
  refine ⟨answer, ⟨u, ⟨service, wire⟩⟩, enough, hrequest, ?_⟩
  have hlookup := hpolled.lookup_eq_some_iff hjob
  rw [hpolls.alike.strategy] at hlookup
  rw [hpolls.tokens] at hcase
  cases hkept : (s'.lookup t job).1 with
  | some envelope =>
    rw [hkept] at hcase
    obtain ⟨rfl, rfl, rfl⟩ := hcase
    obtain ⟨hfresh, ttl, v, kept, httl, hlast, hlt, rfl⟩ := (hlookup envelope).1 hkept
    refine ⟨iff_of_true ⟨_, rfl, rfl⟩ ⟨hfresh, ttl, v, kept, httl, hlast, hlt⟩, ?_, ?_⟩
    · intro envelope hok _
      cases hok
      exact ⟨⟨v, kept, hlast, rfl⟩, rfl, rfl⟩
    · intro hnot
      exact absurd ⟨_, rfl, rfl⟩ hnot
  | none =>
    rw [hkept] at hcase
    have hpausing : (Errand.Stage.pausing 1).Fresh := trivial
    have huncached := job.errand.cached_of_alone transport s.world.service.tokens hpausing hcase
    have hnot : ¬∃ envelope, answer = .ok envelope ∧ envelope.cached = true := by
      rintro ⟨envelope, rfl, hcached⟩
      rw [huncached envelope rfl] at hcached
      cases hcached
    refine ⟨iff_of_false hnot ?_, fun envelope hok hcached => ?_, fun _ => ?_⟩
    · rintro ⟨hfresh, ttl, v, kept, httl, hlast, hlt⟩
      have := (hlookup kept.asCached).2 ⟨hfresh, ttl, v, kept, httl, hlast, hlt, rfl⟩
      rw [hkept] at this
      cases this
    · exact absurd ⟨envelope, hok, hcached⟩ hnot
    · exact hcase.run_eq (Nat.le_refl t) rfl

/-- A transport that answers every call with no content after 5 milliseconds. -/
def Transport.steady : Transport Unit :=
  ⟨fun _ _ _ => (⟨5, .ok ⟨204, "No Content", [], []⟩⟩, ())⟩

/-- An endpoint whose responses are kept for 100 milliseconds. -/
def Endpoint.keeping : Endpoint :=
  { Endpoint.plain "a" "A" "http://h/" with cache := some ⟨true, 100, .memory⟩ }

/-- A session with one endpoint, after one request to it. -/
def Session.askedOnce : Option (List (Nat × Answer) × Session Unit × List Happening) :=
  ((Session.start (.create .request none (.create 1 0)) ()).operate
    (.register .keeping)).1.requestsNoting .steady 9 [] [("a", .plain)]

/-- A request that is made again at the time of the first answer is answered with the same response. -/
theorem Session.Reached.cached_iff_lastResponse_askedOnce :
    ∃ answers s past kept, Session.askedOnce = some (answers, s, past) ∧ s.now = 5 ∧
      lastResponse? .request "a" "a" past = some (5, kept) ∧
      ∃ after enough, (∀ fuel, enough ≤ fuel → s.request .steady fuel "a" .plain =
        some (.ok { kept with cached := true }, after)) ∧
        after.now = 5 ∧ after.world.wire = s.world.wire := by
  have hsome : Session.askedOnce.isSome = true := by rfl
  obtain ⟨⟨answers, s, past⟩, hrun⟩ := Option.isSome_iff_exists.1 hsome
  have hs : s = (Session.askedOnce.get hsome).2.1 := by simp only [hrun, Option.get_some]
  have hpast : past = (Session.askedOnce.get hsome).2.2 := by simp only [hrun, Option.get_some]
  have hreached : Session.Reached .steady s past :=
    .requests (.operate (.start .request none (.create 1 0) ()) (.register .keeping) trivial) hrun
  have hnow : s.now = 5 := by rw [hs]; rfl
  have hid : s.world.service.registry.get? "a" = some .keeping := by rw [hs]; rfl
  have hstrategy : s.world.service.strategy = .request := by rw [hs]; rfl
  obtain ⟨kept, hlast⟩ : ∃ kept, lastResponse? .request "a" "a" past = some (5, kept) := by
    rw [hpast]
    exact ⟨_, rfl⟩
  obtain ⟨answer, after, enough, hrequest, hiff, hcached, -⟩ :=
    (hreached.cached_iff_lastResponse "a" .plain).1 .keeping s.now s.world.service hid .first rfl
  have hkey : KeyStrategy.key .request "a" .plain = "a" := by decide
  rw [hstrategy, hkey, hlast] at hiff hcached
  obtain ⟨envelope, rfl, henvelope⟩ :=
    hiff.2 ⟨rfl, 100, 5, kept, rfl, rfl, by rw [hnow]; decide⟩
  obtain ⟨⟨u, kept', heq, rfl⟩, hafter, hwire⟩ := hcached envelope rfl henvelope
  cases heq
  exact ⟨answers, s, past, kept, hrun, hnow, hlast, after, enough, hrequest, hafter.trans hnow, hwire⟩

end Egress
