import Egress.Errand
import Egress.Service.Basic

/-!
Requests to the service.

A request looks up its endpoint once and goes by what it found. It is admitted by the limiter, perhaps
after waiting, then served from the cache or by the attempts of an errand. Whatever comes of it is recorded
and told to the subscribers.
-/

set_option autoImplicit false

namespace Egress

/-- A request under way: the endpoint it found and when. -/
structure Job where
  endpoint : Endpoint
  options : CallOptions
  started : Nat

def Job.errand (job : Job) : Errand :=
  ⟨job.endpoint, job.options, job.endpoint.effectiveRetryPolicy?⟩

/-- Nanoseconds since the request started. -/
def Job.elapsed (job : Job) (now : Nat) : Nat := (now - job.started) * nanosPerMilli

/-- Where a request stands. -/
inductive Request
  /-- It has not started. -/
  | arriving (id : String) (options : CallOptions)
  /-- It waits for its turn to be admitted. -/
  | queueing (job : Job)
  /-- It waits for an attempt. -/
  | working (job : Job) (stage : Errand.Stage)

abbrev Answer := Except Failure Envelope

namespace Service

/-- The key of the response to a request, if responses of its endpoint are kept. -/
def cacheKey? (s : Service) (job : Job) : Option (String × Nat) :=
  job.endpoint.cacheTtl?.map fun ttl => (s.strategy.key job.endpoint.id job.options, ttl)

/-- Records a request that was not admitted. -/
def refuse (s : Service) (now : Nat) (job : Job) : Service :=
  let id := job.endpoint.id
  let metrics := (s.metrics.recordLimitHit id).record id (job.elapsed now) false (some .failure)
  ({ s with metrics } : Service).publish (.rateLimited id)

def publishSuccess (s : Service) (now : Nat) (job : Job) (envelope : Envelope) : Service :=
  s.publish (.succeeded job.endpoint.id envelope.status (now - job.started) envelope.cached)

/-- Records a request that was served from the cache. -/
def recordHit (s : Service) (now : Nat) (job : Job) (envelope : Envelope) : Service :=
  let metrics := s.metrics.record job.endpoint.id (job.elapsed now) true none
  ({ s with metrics } : Service).publishSuccess now job envelope

/-- Records a request that its errand has answered, and keeps the response. -/
def conclude (s : Service) (now : Nat) (job : Job) : Answer → Service
  | .ok envelope =>
    let id := job.endpoint.id
    let cache :=
      match s.cacheKey? job with
      | some (key, ttl) => s.cache.put now key envelope ttl
      | none => s.cache
    let metrics := s.metrics.record id (job.elapsed now) false (some .success)
    ({ s with cache, metrics } : Service).publishSuccess now job envelope
  | .error failure =>
    let id := job.endpoint.id
    let metrics := s.metrics.record id (job.elapsed now) false (some .failure)
    ({ s with metrics } : Service).publish (.failed id failure.message)

/-- The kept response that may serve a request, if any. -/
def lookup (s : Service) (now : Nat) (job : Job) : Option Envelope × Service :=
  if job.options.forceRefresh then (none, s)
  else
    match s.cacheKey? job with
    | none => (none, s)
    | some (key, _) =>
      let (hit, cache) := s.cache.get now key
      (hit.map Envelope.asCached, { s with cache })

end Service

/-- A service with its way to the outside. -/
structure World (ω : Type) where
  service : Service
  wire : Wire ω

namespace World

variable {ω : Type}

def work (w : World ω) (transport : Transport ω) (now : Nat) (job : Job) (stage : Errand.Stage) :
    World ω × Turn Request Answer :=
  match job.errand.act transport w.service.tokens now w.wire stage with
  | (wire, .wait duration stage) => (⟨w.service, wire⟩, .wait duration (.working job stage))
  | (wire, .finish answer) => (⟨w.service.conclude now job answer, wire⟩, .finish answer)

/-- A request that has found its endpoint: is it admitted, and is there a kept response? -/
def enter (w : World ω) (transport : Transport ω) (now : Nat) (job : Job) :
    World ω × Turn Request Answer :=
  let id := job.endpoint.id
  let (entry, limiter) := w.service.limiter.enter now id job.endpoint.rateLimit
  let s := { w.service with limiter }
  match entry with
  | .wait delay => (⟨s, w.wire⟩, .wait delay (.queueing job))
  | .refused retryAfter =>
    (⟨s.refuse now job, w.wire⟩, .finish (.error (.rateLimited id retryAfter)))
  | .admitted =>
    match s.lookup now job with
    | (some envelope, s) => (⟨s.recordHit now job envelope, w.wire⟩, .finish (.ok envelope))
    | (none, s) => work ⟨s, w.wire⟩ transport now job (.pausing 1)

def act (transport : Transport ω) (now : Nat) (w : World ω) : Request → World ω × Turn Request Answer
  | .arriving id options =>
    match w.service.registry.get? id with
    | none => (w, .finish (.error (.registry (.notFound id))))
    | some endpoint => w.enter transport now ⟨endpoint, options, now⟩
  | .queueing job => w.enter transport now job
  | .working job stage => w.work transport now job stage

/-- Requests side by side, with sweeps in between. -/
def workshop (transport : Transport ω) : Workshop (World ω) Request Answer where
  act := act transport
  pass since now w := { w with service := w.service.pass since now }

end World

end Egress
