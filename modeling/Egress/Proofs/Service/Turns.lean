import Egress.Proofs.Cache.Contents
import Egress.Proofs.Errand
import Egress.Service.Request

/-!
# What a turn of a request does

`World.Turns` lists the turns of a request, one rule for each thing that may happen, and `act_turns` says
that a turn is one of them. `Service.Alike` relates services in which anyone who asks from some time
on finds the same endpoints and the same kept responses: sweeps and everything that a request does
before its errand is answered keep to it.
-/

set_option autoImplicit false

namespace Egress

namespace World

variable {ω : Type}

/-- The turns of a request. -/
inductive Turns (transport : Transport ω) (now : Nat) (w : World ω) :
    Request → World ω → Turn Request Answer → Prop
  | unknown {id : String} {options : CallOptions} (hid : w.service.registry.get? id = none) :
      Turns transport now w (.arriving id options) w (.finish (.error (.registry (.notFound id))))
  | found {id : String} {options : CallOptions} {e : Endpoint} {w' : World ω}
      {turn : Turn Request Answer} (hid : w.service.registry.get? id = some e)
      (hturn : Turns transport now w (.queueing ⟨e, options, now⟩) w' turn) :
      Turns transport now w (.arriving id options) w' turn
  | wait {job : Job} {delay : Nat} {limiter : Limiter}
      (henter : w.service.limiter.enter now job.endpoint.id job.endpoint.rateLimit =
        (.wait delay, limiter)) :
      Turns transport now w (.queueing job) ⟨{ w.service with limiter }, w.wire⟩
        (.wait delay (.queueing job))
  | refuse {job : Job} {retryAfter : Nat} {limiter : Limiter}
      (henter : w.service.limiter.enter now job.endpoint.id job.endpoint.rateLimit =
        (.refused retryAfter, limiter)) :
      Turns transport now w (.queueing job)
        ⟨({ w.service with limiter } : Service).refuse now job, w.wire⟩
        (.finish (.error (.rateLimited job.endpoint.id retryAfter)))
  | hit {job : Job} {limiter : Limiter} {envelope : Envelope} {s : Service}
      (henter : w.service.limiter.enter now job.endpoint.id job.endpoint.rateLimit =
        (.admitted, limiter))
      (hlookup : ({ w.service with limiter } : Service).lookup now job = (some envelope, s)) :
      Turns transport now w (.queueing job) ⟨s.recordHit now job envelope, w.wire⟩
        (.finish (.ok envelope))
  | miss {job : Job} {limiter : Limiter} {s : Service} {wire : Wire ω} {duration : Nat}
      {result : Except Failure Envelope}
      (henter : w.service.limiter.enter now job.endpoint.id job.endpoint.rateLimit =
        (.admitted, limiter))
      (hlookup : ({ w.service with limiter } : Service).lookup now job = (none, s))
      (hcall : job.errand.call transport s.tokens now w.wire = (wire, duration, result)) :
      Turns transport now w (.queueing job) ⟨s, wire⟩ (.wait duration (.working job (.calling 1 result)))
  | call {job : Job} {n : Nat} {wire : Wire ω} {duration : Nat} {result : Except Failure Envelope}
      (hcall : job.errand.call transport w.service.tokens now w.wire = (wire, duration, result)) :
      Turns transport now w (.working job (.pausing n)) ⟨w.service, wire⟩
        (.wait duration (.working job (.calling n result)))
  | again {job : Job} {n delay : Nat} {result : Except Failure Envelope}
      (hjudge : judge job.errand.policy job.endpoint.id n result = .again delay) :
      Turns transport now w (.working job (.calling n result)) w
        (.wait delay (.working job (.pausing (n + 1))))
  | answer {job : Job} {n : Nat} {result answer : Except Failure Envelope}
      (hjudge : judge job.errand.policy job.endpoint.id n result = .finished answer) :
      Turns transport now w (.working job (.calling n result))
        ⟨w.service.conclude now job answer, w.wire⟩ (.finish answer)

variable {transport : Transport ω} {now : Nat} {w w' : World ω}

/-- A turn that is listed is the one that the request takes. -/
theorem Turns.act_eq {request : Request} {turn : Turn Request Answer}
    (h : Turns transport now w request w' turn) : act transport now w request = (w', turn) := by
  induction h with
  | unknown hid => simp only [act, hid]
  | found hid _ ih => simpa only [act, hid] using ih
  | wait henter => simp only [act, enter, henter]
  | refuse henter => simp only [act, enter, henter]
  | hit henter hlookup => simp only [act, enter, henter, hlookup]
  | miss henter hlookup hcall =>
    simp only [act, enter, henter, hlookup, work, Errand.act, hcall]
  | call hcall => simp only [act, work, Errand.act, hcall]
  | again hjudge =>
    simp only [act, work, Errand.act, Job.errand] at hjudge ⊢
    rw [hjudge]
  | answer hjudge =>
    simp only [act, work, Errand.act, Job.errand] at hjudge ⊢
    rw [hjudge]

theorem exists_turns_queueing (transport : Transport ω) (now : Nat) (w : World ω) (job : Job) :
    ∃ w' turn, Turns transport now w (.queueing job) w' turn := by
  rcases henter : w.service.limiter.enter now job.endpoint.id job.endpoint.rateLimit with
    ⟨_ | delay | retryAfter, limiter⟩
  · rcases hlookup : ({ w.service with limiter } : Service).lookup now job with ⟨_ | envelope, s⟩
    · exact ⟨_, _, .miss henter hlookup rfl⟩
    · exact ⟨_, _, .hit henter hlookup⟩
  · exact ⟨_, _, .wait henter⟩
  · exact ⟨_, _, .refuse henter⟩

/-- A request takes one of the turns that are listed. -/
theorem act_turns (transport : Transport ω) (now : Nat) (w : World ω) (request : Request) :
    Turns transport now w request (act transport now w request).1 (act transport now w request).2 := by
  have hone : ∃ w' turn, Turns transport now w request w' turn := by
    rcases request with ⟨id, options⟩ | job | ⟨job, n | ⟨n, result⟩⟩
    · cases hid : w.service.registry.get? id with
      | none => exact ⟨_, _, .unknown hid⟩
      | some e =>
        obtain ⟨w', turn, hturn⟩ := exists_turns_queueing transport now w ⟨e, options, now⟩
        exact ⟨w', turn, .found hid hturn⟩
    · exact exists_turns_queueing transport now w job
    · exact ⟨_, _, .call rfl⟩
    · cases hjudge : judge job.errand.policy job.endpoint.id n result with
      | finished answer => exact ⟨_, _, .answer hjudge⟩
      | again delay => exact ⟨_, _, .again hjudge⟩
  obtain ⟨w', turn, hturn⟩ := hone
  rw [hturn.act_eq]
  exact hturn

end World

/-- The job of a request that has found its endpoint. -/
def Request.job? : Request → Option Job
  | .arriving .. => none
  | .queueing job => some job
  | .working job _ => some job

namespace Service

/-- Anyone who asks from `now` on finds the same endpoints and kept responses in both services, and the
second one keeps nothing that the first one does not. -/
structure Alike (now : Nat) (s s' : Service) : Prop where
  registry : s'.registry = s.registry
  strategy : s'.strategy = s.strategy
  peek : ∀ t key, now ≤ t → s'.cache.peek t key = s.cache.peek t key
  kept : ∀ key entry, s'.cache.entries.get? key = some entry → s.cache.entries.get? key = some entry

theorem Alike.refl (now : Nat) (s : Service) : Alike now s s :=
  ⟨rfl, rfl, fun _ _ _ => rfl, fun _ _ h => h⟩

theorem Alike.trans {t t' : Nat} {s₁ s₂ s₃ : Service} (h : Alike t s₁ s₂) (h' : Alike t' s₂ s₃)
    (ht : t ≤ t') : Alike t' s₁ s₃ :=
  ⟨h'.registry.trans h.registry, h'.strategy.trans h.strategy,
    fun u key hu => (h'.peek u key hu).trans (h.peek u key (Nat.le_trans ht hu)),
    fun key entry hk => h.kept key entry (h'.kept key entry hk)⟩

theorem Alike.of_eq {now : Nat} {s s' : Service} (hregistry : s'.registry = s.registry)
    (hstrategy : s'.strategy = s.strategy) (hcache : s'.cache = s.cache) : Alike now s s' :=
  ⟨hregistry, hstrategy, fun _ _ _ => by rw [hcache], fun _ _ h => hcache ▸ h⟩

theorem pass_self (s : Service) (now : Nat) : s.pass now now = s := by
  unfold pass
  cases hm : s.maintenance with
  | none => rfl
  | some m =>
    simp only [Maintenance.sweepCache, Maintenance.sweepLimiter, Maintenance.lastTick?_self,
      Option.elim_none, ← hm]

/-- Time that passes changes nothing but what is kept. -/
theorem pass_eq (s : Service) (since now : Nat) :
    s.pass since now =
      { s with cache := (s.pass since now).cache, limiter := (s.pass since now).limiter } := by
  unfold pass
  split
  · rfl
  · rfl

@[simp] theorem pass_tokens (s : Service) (since now : Nat) : (s.pass since now).tokens = s.tokens := by
  rw [pass_eq]

theorem pass_metrics (s : Service) (since now : Nat) : (s.pass since now).metrics = s.metrics := by
  rw [pass_eq]

theorem pass_events (s : Service) (since now : Nat) : (s.pass since now).events = s.events := by
  rw [pass_eq]

theorem pass_alike (s : Service) (since now : Nat) : Alike now s (s.pass since now) := by
  unfold pass
  cases s.maintenance with
  | none => exact .refl now s
  | some m =>
    exact ⟨rfl, rfl, fun t key ht => m.peek_sweepCache s.cache ht key,
      fun key entry h => Maintenance.get?_of_get?_sweepCache h⟩

theorem sweep_alike (s : Service) (now : Nat) : Alike now s (s.sweep now) :=
  ⟨rfl, rfl, fun _ key ht => s.cache.peek_sweep ht key, fun _ _ h => Cache.get?_of_get?_sweep h⟩

theorem lookup_alike (s : Service) (now : Nat) (job : Job) : Alike now s (s.lookup now job).2 := by
  unfold lookup
  split
  · exact .refl now s
  · split
    · exact .refl now s
    · exact ⟨rfl, rfl, fun _ k ht => s.cache.peek_get ht _ k, fun _ _ h => Cache.get?_of_get?_get h⟩

/-- A look-up changes nothing but what is kept. -/
theorem lookup_snd (s : Service) (now : Nat) (job : Job) :
    (s.lookup now job).2 = { s with cache := (s.lookup now job).2.cache } := by
  unfold lookup
  split
  · rfl
  · split <;> rfl

theorem lookup_tokens (s : Service) (now : Nat) (job : Job) :
    (s.lookup now job).2.tokens = s.tokens := by
  rw [lookup_snd]

theorem lookup_metrics (s : Service) (now : Nat) (job : Job) :
    (s.lookup now job).2.metrics = s.metrics := by
  rw [lookup_snd]

theorem lookup_events (s : Service) (now : Nat) (job : Job) :
    (s.lookup now job).2.events = s.events := by
  rw [lookup_snd]

/-- What a look-up brings. -/
theorem lookup_fst (s : Service) (now : Nat) (job : Job) :
    (s.lookup now job).1 =
      if job.options.forceRefresh then none
      else job.endpoint.cacheTtl?.bind fun _ =>
        (s.cache.peek now (s.strategy.key job.endpoint.id job.options)).map Envelope.asCached := by
  unfold lookup cacheKey?
  split
  · rfl
  · cases job.endpoint.cacheTtl? with
    | none => rfl
    | some ttl => simp [Cache.get_fst]

/-- What a look-up brings is marked as kept. -/
theorem cached_of_lookup {s : Service} {now : Nat} {job : Job} {envelope : Envelope}
    (h : (s.lookup now job).1 = some envelope) : envelope.cached = true := by
  unfold lookup at h
  split at h
  · cases h
  · split at h
    · cases h
    · obtain ⟨kept, -, rfl⟩ := Option.map_eq_some_iff.1 h
      rfl

theorem conclude_error_alike (s : Service) (now : Nat) (job : Job) (failure : Failure) :
    Alike now s (s.conclude now job (.error failure)) := .of_eq rfl rfl rfl

end Service

namespace World

variable {ω : Type} {transport : Transport ω} {now : Nat} {w w' : World ω}

/-- Nothing but the answer of an errand changes what is kept, or answers with a response that is not marked
as kept. -/
theorem Turns.alike {request : Request} {turn : Turn Request Answer}
    (h : Turns transport now w request w' turn) :
    (Service.Alike now w.service w'.service ∧
        ∀ envelope, turn = .finish (.ok envelope) → envelope.cached = true) ∨
      ∃ job n envelope, request = .working job (.calling n (.ok envelope)) ∧
        w' = ⟨w.service.conclude now job (.ok envelope), w.wire⟩ ∧ turn = .finish (.ok envelope) := by
  induction h with
  | unknown hid => exact .inl ⟨.refl now _, fun _ h => by cases h⟩
  | found hid _ ih =>
    obtain h | ⟨job, n, envelope, heq, -⟩ := ih
    · exact .inl h
    · cases heq
  | wait henter => exact .inl ⟨.of_eq rfl rfl rfl, fun _ h => by cases h⟩
  | refuse henter => exact .inl ⟨.of_eq rfl rfl rfl, fun _ h => by cases h⟩
  | @hit job limiter envelope s henter hlookup =>
    have hs : s = (Service.lookup { w.service with limiter } now job).2 := by rw [hlookup]
    have hcached : envelope.cached = true := Service.cached_of_lookup (congrArg Prod.fst hlookup)
    have hlimiter : Service.Alike now w.service { w.service with limiter } := .of_eq rfl rfl rfl
    have hlooked := hlimiter.trans (Service.lookup_alike _ now job) (Nat.le_refl _)
    subst hs
    refine .inl ⟨hlooked.trans (.of_eq rfl rfl rfl) (Nat.le_refl _), fun _ h => ?_⟩
    cases h
    exact hcached
  | @miss job limiter s wire duration result henter hlookup hcall =>
    have hs : s = (Service.lookup { w.service with limiter } now job).2 := by rw [hlookup]
    have hlimiter : Service.Alike now w.service { w.service with limiter } := .of_eq rfl rfl rfl
    subst hs
    exact .inl ⟨hlimiter.trans (Service.lookup_alike _ now job) (Nat.le_refl _),
      fun _ h => by cases h⟩
  | call hcall => exact .inl ⟨.refl now _, fun _ h => by cases h⟩
  | again hjudge => exact .inl ⟨.refl now _, fun _ h => by cases h⟩
  | @answer job n result answer hjudge =>
    cases answer with
    | error failure =>
      exact .inl ⟨Service.conclude_error_alike _ now job failure, fun _ h => by cases h⟩
    | ok envelope =>
      obtain rfl := judge_ok hjudge
      exact .inr ⟨job, n, envelope, rfl, rfl, rfl⟩

theorem Turns.registry {request : Request} {turn : Turn Request Answer}
    (h : Turns transport now w request w' turn) : w'.service.registry = w.service.registry := by
  obtain ⟨h, -⟩ | ⟨job, n, envelope, -, rfl, -⟩ := h.alike
  · exact h.registry
  · rfl

/-- A request that has found its endpoint keeps to it, and what it waits for is not from the cache. -/
theorem Turns.next {request next : Request} {duration : Nat} {job : Job}
    (hjob : request.job? = some job) (h : Turns transport now w request w' (.wait duration next)) :
    next = .queueing job ∨ ∃ stage, next = .working job stage ∧ stage.Fresh := by
  cases h with
  | found => cases hjob
  | wait => exact .inl (by cases hjob; rfl)
  | @miss job limiter s wire duration result henter hlookup hcall =>
    cases hjob
    have hresult : (job.errand.call transport s.tokens now w.wire).2.2 = result := by rw [hcall]
    exact .inr ⟨_, rfl, fun envelope hok =>
      job.errand.cached_of_call transport s.tokens (hresult.trans hok)⟩
  | @call job n wire duration result hcall =>
    cases hjob
    have hresult : (job.errand.call transport w.service.tokens now w.wire).2.2 = result := by
      rw [hcall]
    exact .inr ⟨_, rfl, fun envelope hok =>
      job.errand.cached_of_call transport w.service.tokens (hresult.trans hok)⟩
  | again =>
    cases hjob
    exact .inr ⟨_, rfl, trivial⟩

end World

end Egress
