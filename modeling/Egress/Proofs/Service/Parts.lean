import Egress.Proofs.Service.Accounts
import Egress.Proofs.Service.Sweeps

/-!
# The parts of a service

`Service.part s id` is all that the service goes by in dealing with the endpoint `id`: its definition, its
window, its statistics and the responses kept from it, with the settings that all endpoints share.
A key belongs to the id before its first separator (`Cache.owner`), so that the parts do not overlap.

* `World.Turns.part_of_ne`: a turn of a request leaves the parts of all other ids as they are.
* `World.Turns.part_congr`: what a turn does and what becomes of the part depends on the part only.
* `Service.part_pass_congr`, `Service.part_operate_congr`: so it is with time that passes and with operations.
* `Service.part_operate_of_ne`: an operation on one id leaves the parts of all other ids as they are.
-/

set_option autoImplicit false

namespace Egress

/-! ## Owners of keys -/

namespace Cache

variable {α : Type}

/-- The id that a key belongs to: the text before the first separator. -/
def owner (key : String) : String := String.ofList (key.toList.takeWhile (· ≠ keySeparator))

theorem takeWhile_append_separator {cs : List Char} (h : keySeparator ∉ cs) (rest : List Char) :
    (cs ++ keySeparator :: rest).takeWhile (· ≠ keySeparator) = cs := by
  have hall : ∀ c ∈ cs, decide (c ≠ keySeparator) = true := by
    intro c hc
    exact decide_eq_true fun heq => h (heq ▸ hc)
  rw [List.takeWhile_append_of_pos hall, List.takeWhile_cons_of_neg (by simp), List.append_nil]

theorem owner_of_plain {id : String} (h : keySeparator ∉ id.toList) : owner id = id := by
  have hall : ∀ c ∈ id.toList, decide (c ≠ keySeparator) = true := by
    intro c hc
    exact decide_eq_true fun heq => h (heq ▸ hc)
  have hself : (id.toList ++ []).takeWhile (· ≠ keySeparator) = id.toList ++ [] :=
    List.takeWhile_append_of_pos hall
  rw [List.append_nil] at hself
  rw [owner, hself, String.ofList_toList]

theorem owner_key (strategy : KeyStrategy) {id : String} (options : CallOptions)
    (h : keySeparator ∉ id.toList) : owner (strategy.key id options) = id := by
  rcases strategy.toList_key id options with hkey | ⟨text, hkey⟩
  · rw [String.toList_inj.1 hkey]
    exact owner_of_plain h
  · rw [owner, hkey, takeWhile_append_separator h, String.ofList_toList]

/-- What a call to clear the responses of an id takes is what the id owns. -/
theorem belongsTo_iff_owner (key : String) {id : String} (h : keySeparator ∉ id.toList) :
    belongsTo key id = true ↔ owner key = id := by
  rw [belongsTo_iff]
  constructor
  · rintro (rfl | ⟨rest, hrest⟩)
    · exact owner_of_plain h
    · rw [owner, hrest, takeWhile_append_separator h, String.ofList_toList]
  · intro howner
    have hid : key.toList.takeWhile (· ≠ keySeparator) = id.toList := by
      rw [← howner, owner, String.toList_ofList]
    have hcut := List.takeWhile_append_dropWhile (p := (· ≠ keySeparator)) (l := key.toList)
    rw [hid] at hcut
    cases hrest : key.toList.dropWhile (· ≠ keySeparator) with
    | nil =>
      rw [hrest, List.append_nil] at hcut
      exact .inl (String.toList_inj.1 hcut.symm)
    | cons c rest =>
      have hhead := List.head?_dropWhile_not (fun c => decide (c ≠ keySeparator)) key.toList
      rw [hrest] at hhead
      have hc : c = keySeparator := by simpa using hhead
      rw [hrest, hc] at hcut
      exact .inr ⟨rest, hcut.symm⟩

/-- The entries whose keys belong to an id. -/
def owned (c : Cache α) (id : String) : Dict (Entry α) := c.entries.filter fun key _ => owner key = id

theorem get?_owned (c : Cache α) (id key : String) :
    (c.owned id).get? key = if owner key = id then c.entries.get? key else none := by
  rw [owned, Dict.get?_filter]
  by_cases h : owner key = id <;> cases c.entries.get? key <;> simp [h, Option.filter]

theorem owned_eq_iff {c c' : Cache α} {id : String} :
    c'.owned id = c.owned id ↔
      ∀ key, owner key = id → c'.entries.get? key = c.entries.get? key := by
  constructor
  · intro h key hkey
    have hget := congrArg (fun d => d.get? key) h
    simpa only [get?_owned, if_pos hkey] using hget
  · intro h
    refine Dict.ext_get? fun key => ?_
    rw [get?_owned, get?_owned]
    split
    · next hkey => exact h key hkey
    · rfl

theorem owned_put_of_ne (c : Cache α) (now : Nat) {key id : String} (value : α) (ttl : Nat)
    (h : owner key ≠ id) : (c.put now key value ttl).owned id = c.owned id := by
  refine owned_eq_iff.2 fun key' hkey' => ?_
  exact Dict.get?_insert_of_ne _ _ fun heq => h (heq ▸ hkey')

theorem owned_put_congr {c c' : Cache α} {id : String} (h : c'.owned id = c.owned id) (now : Nat)
    (key : String) (value : α) (ttl : Nat) :
    (c'.put now key value ttl).owned id = (c.put now key value ttl).owned id := by
  refine owned_eq_iff.2 fun key' hkey' => ?_
  simp only [put, Dict.get?_insert, owned_eq_iff.1 h key' hkey']

/-- What a look-up leaves of another entry. -/
theorem get?_get_of_ne (c : Cache α) (now : Nat) {key k : String} (h : key ≠ k) :
    (c.get now key).2.entries.get? k = c.entries.get? k := by
  unfold get
  split
  · rfl
  · split
    · exact Dict.get?_erase_of_ne _ h
    · rfl

theorem owned_get_of_ne (c : Cache α) (now : Nat) {key id : String} (h : owner key ≠ id) :
    (c.get now key).2.owned id = c.owned id :=
  owned_eq_iff.2 fun _ hkey' => c.get?_get_of_ne now fun heq => h (heq ▸ hkey')

theorem get_congr {c c' : Cache α} {key id : String} (h : c'.owned id = c.owned id)
    (hkey : owner key = id) (now : Nat) :
    (c'.get now key).1 = (c.get now key).1 ∧
      (c'.get now key).2.owned id = (c.get now key).2.owned id := by
  have hget := owned_eq_iff.1 h
  unfold get
  rw [hget key hkey]
  cases c.entries.get? key with
  | none => exact ⟨rfl, h⟩
  | some e =>
    dsimp only
    split
    · refine ⟨rfl, owned_eq_iff.2 fun key' hkey' => ?_⟩
      simp only [Dict.get?_erase, hget key' hkey']
    · exact ⟨rfl, h⟩

theorem owned_filter_congr {c c' : Cache α} {id : String} (h : c'.owned id = c.owned id)
    (keep : String → Entry α → Bool) :
    Cache.owned ⟨c'.entries.filter keep⟩ id = Cache.owned ⟨c.entries.filter keep⟩ id := by
  refine owned_eq_iff.2 fun key hkey => ?_
  simp only [Dict.get?_filter, owned_eq_iff.1 h key hkey]

theorem owned_invalidateEndpoint_of_ne (c : Cache α) {id other : String}
    (hother : keySeparator ∉ other.toList) (h : other ≠ id) :
    (c.invalidateEndpoint other).owned id = c.owned id := by
  refine owned_eq_iff.2 fun key hkey => ?_
  have hbelongs : belongsTo key other = false := by
    rw [← Bool.not_eq_true, belongsTo_iff_owner key hother, hkey]
    exact Ne.symm h
  rw [invalidateEndpoint, Dict.get?_filter]
  cases c.entries.get? key <;> simp [Option.filter, hbelongs]

theorem owned_invalidateEndpoint_self (c : Cache α) {id : String} (h : keySeparator ∉ id.toList) :
    (c.invalidateEndpoint id).owned id = ∅ := by
  refine Dict.ext_get? fun key => ?_
  rw [get?_owned]
  split
  · next hkey =>
    rw [invalidateEndpoint, Dict.get?_filter, (belongsTo_iff_owner key h).2 hkey]
    cases c.entries.get? key <;> rfl
  · rfl

end Cache

/-! ## Windows -/

namespace Limiter

theorem get?_enter_of_ne (l : Limiter) (now : Nat) {id k : String} (h : id ≠ k)
    (limit : Option RateLimit) : (l.enter now id limit).2.windows.get? k = l.windows.get? k := by
  cases limit with
  | none => rfl
  | some limit => rw [enter_some, get?_check, if_neg h]

/-- What comes of a caller depends on the window of its source only. -/
theorem enter_congr {l l' : Limiter} {id : String} (h : l'.windows.get? id = l.windows.get? id)
    (now : Nat) (limit : Option RateLimit) :
    (l'.enter now id limit).1 = (l.enter now id limit).1 ∧
      (l'.enter now id limit).2.windows.get? id = (l.enter now id limit).2.windows.get? id := by
  cases limit with
  | none => exact ⟨rfl, h⟩
  | some limit =>
    have hwindow := windowAt_congr h now limit.window
    have hanswer : (l'.check now id limit).1 = (l.check now id limit).1 := by
      simp only [check, hwindow]
      split <;> rfl
    simp only [enter_some, get?_check, hanswer, hwindow, if_true, and_self]

end Limiter

/-! ## Parts -/

/-- All that a service goes by in dealing with one endpoint. -/
@[ext] structure Part where
  strategy : KeyStrategy
  maintenance : Option Maintenance
  /-- The token, where there is a source of tokens. -/
  token : Option (Option String)
  endpoint : Option Endpoint
  window : Option Window
  stats : Option (Stats Float)
  responses : Dict (Cache.Entry Envelope)

/-- The part of the service that has to do with one id. -/
def Service.part (s : Service) (id : String) : Part where
  strategy := s.strategy
  maintenance := s.maintenance
  token := s.tokens.map fun known => known.get? id
  endpoint := s.registry.get? id
  window := s.limiter.windows.get? id
  stats := s.metrics.get? id
  responses := s.cache.owned id

namespace Service

variable {s s' : Service} {id : String} {now : Nat}

/-- The services deal alike with one id if they agree in each field of its part. -/
theorem part_eq_iff :
    s'.part id = s.part id ↔ s'.strategy = s.strategy ∧ s'.maintenance = s.maintenance ∧
      (s'.tokens.map fun known => known.get? id) = (s.tokens.map fun known => known.get? id) ∧
      s'.registry.get? id = s.registry.get? id ∧
      s'.limiter.windows.get? id = s.limiter.windows.get? id ∧
      s'.metrics.get? id = s.metrics.get? id ∧ s'.cache.owned id = s.cache.owned id := by
  simp only [part, Part.mk.injEq]

/-! ## What a request does to a service -/

section

variable {job : Job}

theorem part_limiter_of_ne (s : Service) {now : Nat} {other : String} (h : other ≠ id)
    (limit : Option RateLimit) :
    ({ s with limiter := (s.limiter.enter now other limit).2 } : Service).part id = s.part id :=
  part_eq_iff.2 ⟨rfl, rfl, rfl, rfl, s.limiter.get?_enter_of_ne now h limit, rfl, rfl⟩

theorem part_limiter_congr (h : s'.part id = s.part id) (now : Nat) (limit : Option RateLimit) :
    (s'.limiter.enter now id limit).1 = (s.limiter.enter now id limit).1 ∧
      ({ s' with limiter := (s'.limiter.enter now id limit).2 } : Service).part id =
        ({ s with limiter := (s.limiter.enter now id limit).2 } : Service).part id := by
  obtain ⟨hstrategy, hmaintenance, htoken, hendpoint, hwindow, hstats, hresponses⟩ := part_eq_iff.1 h
  obtain ⟨hentry, hafter⟩ := Limiter.enter_congr hwindow now limit
  exact ⟨hentry,
    part_eq_iff.2 ⟨hstrategy, hmaintenance, htoken, hendpoint, hafter, hstats, hresponses⟩⟩

theorem part_lookup_of_ne (s : Service) (now : Nat) (hplain : keySeparator ∉ job.endpoint.id.toList)
    (h : job.endpoint.id ≠ id) : (s.lookup now job).2.part id = s.part id := by
  unfold lookup cacheKey?
  split
  · rfl
  · cases job.endpoint.cacheTtl? with
    | none => rfl
    | some ttl =>
      refine part_eq_iff.2 ⟨rfl, rfl, rfl, rfl, rfl, rfl, s.cache.owned_get_of_ne now ?_⟩
      rw [Cache.owner_key _ _ hplain]
      exact h

theorem part_lookup_congr (hplain : keySeparator ∉ job.endpoint.id.toList)
    (h : s'.part job.endpoint.id = s.part job.endpoint.id) (now : Nat) :
    (s'.lookup now job).1 = (s.lookup now job).1 ∧
      (s'.lookup now job).2.part job.endpoint.id = (s.lookup now job).2.part job.endpoint.id := by
  obtain ⟨hstrategy, hmaintenance, htoken, hendpoint, hwindow, hstats, hresponses⟩ := part_eq_iff.1 h
  unfold lookup cacheKey?
  split
  · exact ⟨rfl, h⟩
  · cases job.endpoint.cacheTtl? with
    | none => exact ⟨rfl, h⟩
    | some ttl =>
      have hkey : s'.strategy.key job.endpoint.id job.options =
          s.strategy.key job.endpoint.id job.options := by rw [hstrategy]
      have howner := Cache.owner_key s.strategy job.options hplain
      obtain ⟨hhit, hafter⟩ := Cache.get_congr hresponses howner now
      simp only [Option.map_some, hkey, hhit]
      refine ⟨trivial, part_eq_iff.2 ?_⟩
      exact ⟨hstrategy, hmaintenance, htoken, hendpoint, hwindow, hstats, hafter⟩

theorem part_metrics_of_ne {metrics : Metrics} (h : metrics.get? id = s.metrics.get? id) :
    ({ s with metrics } : Service).part id = s.part id :=
  part_eq_iff.2 ⟨rfl, rfl, rfl, rfl, rfl, h, rfl⟩

theorem part_metrics_congr (h : s'.part id = s.part id) {metrics metrics' : Metrics}
    (hmetrics : metrics'.get? id = metrics.get? id) :
    ({ s' with metrics := metrics' } : Service).part id = ({ s with metrics } : Service).part id := by
  obtain ⟨hstrategy, hmaintenance, htoken, hendpoint, hwindow, -, hresponses⟩ := part_eq_iff.1 h
  exact part_eq_iff.2 ⟨hstrategy, hmaintenance, htoken, hendpoint, hwindow, hmetrics, hresponses⟩

theorem part_publish (s : Service) (event : Event) (id : String) : (s.publish event).part id = s.part id :=
  rfl

theorem part_refuse_of_ne (s : Service) (now : Nat) (h : job.endpoint.id ≠ id) :
    (s.refuse now job).part id = s.part id := by
  rw [refuse, part_publish]
  refine part_metrics_of_ne ?_
  rw [Metrics.get?_record, if_neg h, Metrics.get?_recordLimitHit, if_neg h]

theorem part_refuse_congr (h : s'.part job.endpoint.id = s.part job.endpoint.id) (now : Nat) :
    (s'.refuse now job).part job.endpoint.id = (s.refuse now job).part job.endpoint.id := by
  have hstats : s'.metrics.get? job.endpoint.id = s.metrics.get? job.endpoint.id :=
    congrArg Part.stats h
  rw [refuse, refuse, part_publish, part_publish]
  refine part_metrics_congr h ?_
  simp only [Metrics.get?_record, Metrics.get?_recordLimitHit, hstats]

theorem part_recordHit_of_ne (s : Service) (now : Nat) (envelope : Envelope)
    (h : job.endpoint.id ≠ id) : (s.recordHit now job envelope).part id = s.part id := by
  rw [recordHit, publishSuccess, part_publish]
  refine part_metrics_of_ne ?_
  rw [Metrics.get?_record, if_neg h]

theorem part_recordHit_congr (h : s'.part job.endpoint.id = s.part job.endpoint.id) (now : Nat)
    (envelope : Envelope) :
    (s'.recordHit now job envelope).part job.endpoint.id =
      (s.recordHit now job envelope).part job.endpoint.id := by
  have hstats : s'.metrics.get? job.endpoint.id = s.metrics.get? job.endpoint.id :=
    congrArg Part.stats h
  rw [recordHit, recordHit, publishSuccess, publishSuccess, part_publish, part_publish]
  refine part_metrics_congr h ?_
  simp only [Metrics.get?_record, hstats]

/-- The store after an answer of an errand. -/
theorem conclude_ok (s : Service) (now : Nat) (job : Job) (envelope : Envelope) :
    ∃ events, s.conclude now job (.ok envelope) = { s with
      cache := (s.cacheKey? job).elim s.cache fun kept => s.cache.put now kept.1 envelope kept.2
      metrics := s.metrics.record job.endpoint.id (job.elapsed now) false (some .success)
      events } := by
  unfold conclude
  cases s.cacheKey? job <;> exact ⟨_, rfl⟩

theorem part_conclude_of_ne (s : Service) (now : Nat)
    (hplain : keySeparator ∉ job.endpoint.id.toList) (h : job.endpoint.id ≠ id) (answer : Answer) :
    (s.conclude now job answer).part id = s.part id := by
  cases answer with
  | error failure =>
    rw [conclude, part_publish]
    refine part_metrics_of_ne ?_
    rw [Metrics.get?_record, if_neg h]
  | ok envelope =>
    obtain ⟨events, heq⟩ := s.conclude_ok now job envelope
    have hresponses : ((s.cacheKey? job).elim s.cache
        fun kept => s.cache.put now kept.1 envelope kept.2).owned id = s.cache.owned id := by
      unfold cacheKey?
      cases job.endpoint.cacheTtl? with
      | none => rfl
      | some ttl =>
        refine s.cache.owned_put_of_ne now envelope ttl ?_
        rw [Cache.owner_key _ _ hplain]
        exact h
    rw [heq]
    refine part_eq_iff.2 ⟨rfl, rfl, rfl, rfl, rfl, ?_, hresponses⟩
    rw [Metrics.get?_record, if_neg h]

theorem part_conclude_congr (h : s'.part job.endpoint.id = s.part job.endpoint.id) (now : Nat)
    (answer : Answer) :
    (s'.conclude now job answer).part job.endpoint.id =
      (s.conclude now job answer).part job.endpoint.id := by
  obtain ⟨hstrategy, hmaintenance, htoken, hendpoint, hwindow, hstats, hresponses⟩ := part_eq_iff.1 h
  cases answer with
  | error failure =>
    rw [conclude, conclude, part_publish, part_publish]
    refine part_metrics_congr h ?_
    simp only [Metrics.get?_record, hstats]
  | ok envelope =>
    obtain ⟨events, heq⟩ := s.conclude_ok now job envelope
    obtain ⟨events', heq'⟩ := s'.conclude_ok now job envelope
    rw [heq, heq']
    refine part_eq_iff.2 ⟨hstrategy, hmaintenance, htoken, hendpoint, hwindow, ?_, ?_⟩
    · simp only [Metrics.get?_record, hstats]
    · simp only [cacheKey?, hstrategy]
      cases job.endpoint.cacheTtl? with
      | none => exact hresponses
      | some ttl => exact Cache.owned_put_congr hresponses now _ envelope ttl

end

end Service

/-! ## Calls -/

theorem Service.token_of_part_eq {s s' : Service} {id : String} (h : s'.part id = s.part id) :
    s'.tokens.get? id = s.tokens.get? id := by
  have htoken := congrArg (fun p => p.token.join) h
  have hjoin : ∀ tokens : Tokens, (tokens.map fun known => known.get? id).join = tokens.get? id := by
    intro tokens
    cases tokens <;> rfl
  simpa only [part, hjoin] using htoken

/-- Of the tokens a call needs that of its endpoint. -/
theorem Call.prepare_congr {tokens tokens' : Tokens} {e : Endpoint}
    (h : tokens'.get? e.id = tokens.get? e.id) (options : CallOptions) :
    Call.prepare tokens' e options = Call.prepare tokens e options := by
  unfold Call.prepare Auth.apply Auth.header?
  simp only [h]

/-- An attempt sends at most one call, which depends on the endpoint's token only. What comes of it depends
on the reply. -/
theorem Errand.call_congr {ω : Type} (e : Errand) (transport : Transport ω) {tokens tokens' : Tokens}
    (htokens : tokens'.get? e.endpoint.id = tokens.get? e.endpoint.id) {now : Nat} {wire wire' : Wire ω}
    (hreply : ∀ call, (transport.send wire'.state now call).1 = (transport.send wire.state now call).1) :
    (e.call transport tokens' now wire').2 = (e.call transport tokens now wire).2 ∧
      ∃ sent, (e.call transport tokens now wire).1.sent = sent ++ wire.sent ∧
        (e.call transport tokens' now wire').1.sent = sent ++ wire'.sent ∧
        (wire'.state = wire.state → (e.call transport tokens' now wire').1.state =
          (e.call transport tokens now wire).1.state) := by
  unfold Errand.call
  rw [Call.prepare_congr htokens]
  cases Call.prepare tokens e.endpoint e.options with
  | error failure => exact ⟨rfl, [], rfl, rfl, id⟩
  | ok call =>
    simp only [Wire.send, hreply call]
    exact ⟨trivial, [⟨now, call⟩], rfl, rfl, fun hstate => by rw [hstate]⟩

/-! ## Turns -/

/-- A request that has found its endpoint goes to an id without separator. -/
def Request.Plain (request : Request) : Prop :=
  ∀ job, request.job? = some job → keySeparator ∉ job.endpoint.id.toList

theorem Request.plain_arriving (id : String) (options : CallOptions) :
    (Request.arriving id options).Plain := by
  intro job hjob
  cases hjob

namespace World

variable {ω : Type} {transport : Transport ω} {now : Nat} {w w' w₁ : World ω} {request : Request}
  {turn : Turn Request Answer}

/-- A request stays with the id that it is for. -/
theorem Turns.id_next {next : Request} {duration : Nat}
    (h : Turns transport now w request w₁ (.wait duration next)) (hown : w.service.OwnIds)
    (hplain : request.Plain) : next.id = request.id ∧ next.Plain := by
  generalize hturn : Turn.wait duration next = turn at h
  induction h with
  | unknown | refuse | hit | answer => cases hturn
  | @found id options e _ _ hid _ ih =>
    obtain ⟨heq, hsep⟩ := hown id e hid
    obtain ⟨hnext, hplain'⟩ := ih (fun job hjob => by cases hjob; exact heq ▸ hsep) hturn
    exact ⟨hnext.trans heq, hplain'⟩
  | wait | miss | call | again =>
    cases hturn
    exact ⟨rfl, fun job hjob => by cases hjob; exact hplain _ rfl⟩

/-- A turn of a request leaves the parts of all other ids as they are. -/
theorem Turns.part_of_ne (h : Turns transport now w request w₁ turn) (hown : w.service.OwnIds)
    (hplain : request.Plain) {id : String} (hid : request.id ≠ id) :
    w₁.service.part id = w.service.part id := by
  induction h with
  | unknown => rfl
  | @found id' options e _ _ hget _ ih =>
    obtain ⟨heq, hsep⟩ := hown id' e hget
    refine ih (fun job hjob => by cases hjob; exact heq ▸ hsep) ?_
    show e.id ≠ id
    rw [heq]
    exact hid
  | @wait job delay limiter henter =>
    have hlimiter : (w.service.limiter.enter now job.endpoint.id job.endpoint.rateLimit).2 = limiter := by
      rw [henter]
    rw [← hlimiter]
    exact w.service.part_limiter_of_ne hid job.endpoint.rateLimit
  | @refuse job retryAfter limiter henter =>
    have hlimiter : (w.service.limiter.enter now job.endpoint.id job.endpoint.rateLimit).2 = limiter := by
      rw [henter]
    refine (Service.part_refuse_of_ne _ now hid).trans ?_
    rw [← hlimiter]
    exact w.service.part_limiter_of_ne hid job.endpoint.rateLimit
  | @hit job limiter envelope s henter hlookup =>
    have hlimiter : (w.service.limiter.enter now job.endpoint.id job.endpoint.rateLimit).2 = limiter := by
      rw [henter]
    have hlooked : s = (Service.lookup { w.service with limiter } now job).2 := by rw [hlookup]
    refine (Service.part_recordHit_of_ne _ now envelope hid).trans ?_
    rw [hlooked, Service.part_lookup_of_ne _ now (hplain job rfl) hid, ← hlimiter]
    exact w.service.part_limiter_of_ne hid job.endpoint.rateLimit
  | @miss job limiter s wire duration result henter hlookup hcall =>
    have hlimiter : (w.service.limiter.enter now job.endpoint.id job.endpoint.rateLimit).2 = limiter := by
      rw [henter]
    have hlooked : s = (Service.lookup { w.service with limiter } now job).2 := by rw [hlookup]
    show s.part id = _
    rw [hlooked, Service.part_lookup_of_ne _ now (hplain job rfl) hid, ← hlimiter]
    exact w.service.part_limiter_of_ne hid job.endpoint.rateLimit
  | call | again => rfl
  | @answer job n result answer hjudge =>
    exact w.service.part_conclude_of_ne now (hplain job rfl) hid answer

/-- Where two services have the same part for the id of a request and the transport replies alike, the request
takes the same turn, sends the same calls, and leaves the same part. -/
theorem Turns.part_congr (h : Turns transport now w request w₁ turn) (hown : w.service.OwnIds)
    (hplain : request.Plain) (hpart : w'.service.part request.id = w.service.part request.id)
    (hreply : ∀ call,
      (transport.send w'.wire.state now call).1 = (transport.send w.wire.state now call).1) :
    ∃ w₁' sent, Turns transport now w' request w₁' turn ∧
      w₁'.service.part request.id = w₁.service.part request.id ∧
      w₁.wire.sent = sent ++ w.wire.sent ∧ w₁'.wire.sent = sent ++ w'.wire.sent ∧
      (w'.wire.state = w.wire.state → w₁'.wire.state = w₁.wire.state) := by
  induction h with
  | unknown hid =>
    have hget := congrArg Part.endpoint hpart
    exact ⟨w', [], .unknown (hget.trans hid), hpart, rfl, rfl, id⟩
  | @found id options e _ _ hid _ ih =>
    obtain ⟨rfl, hsep⟩ := hown id e hid
    have hget := congrArg Part.endpoint hpart
    obtain ⟨w₁', sent, hturn, hrest⟩ := ih (fun job hjob => by cases hjob; exact hsep) hpart
    exact ⟨w₁', sent, .found (hget.trans hid) hturn, hrest⟩
  | @wait job delay limiter henter =>
    obtain ⟨hentry, hafter⟩ := Service.part_limiter_congr hpart now job.endpoint.rateLimit
    simp only [Request.id, henter] at hentry hafter
    exact ⟨_, [], .wait (Prod.ext hentry rfl), hafter, rfl, rfl, id⟩
  | @refuse job retryAfter limiter henter =>
    obtain ⟨hentry, hafter⟩ := Service.part_limiter_congr hpart now job.endpoint.rateLimit
    simp only [Request.id, henter] at hentry hafter
    exact ⟨_, [], .refuse (Prod.ext hentry rfl), Service.part_refuse_congr hafter now, rfl, rfl, id⟩
  | @hit job limiter envelope s henter hlookup =>
    obtain ⟨hentry, hafter⟩ := Service.part_limiter_congr hpart now job.endpoint.rateLimit
    simp only [Request.id, henter] at hentry hafter
    obtain ⟨hhit, hlooked⟩ := Service.part_lookup_congr (hplain job rfl) hafter now
    simp only [hlookup] at hhit hlooked
    exact ⟨_, [], .hit (Prod.ext hentry rfl) (Prod.ext hhit rfl),
      Service.part_recordHit_congr hlooked now envelope, rfl, rfl, id⟩
  | @miss job limiter s wire duration result henter hlookup hcall =>
    obtain ⟨hentry, hafter⟩ := Service.part_limiter_congr hpart now job.endpoint.rateLimit
    simp only [Request.id, henter] at hentry hafter
    obtain ⟨hhit, hlooked⟩ := Service.part_lookup_congr (hplain job rfl) hafter now
    simp only [hlookup] at hhit hlooked
    obtain ⟨hresult, sent, hsent, hsent', hstate⟩ :=
      job.errand.call_congr transport (Service.token_of_part_eq hlooked) hreply
    rw [hcall] at hresult hsent hstate
    exact ⟨_, sent, .miss (Prod.ext hentry rfl) (Prod.ext hhit rfl) (Prod.ext rfl hresult), hlooked, hsent,
      hsent', hstate⟩
  | @call job n wire duration result hcall =>
    obtain ⟨hresult, sent, hsent, hsent', hstate⟩ :=
      job.errand.call_congr transport (Service.token_of_part_eq hpart) hreply
    rw [hcall] at hresult hsent hstate
    exact ⟨_, sent, .call (Prod.ext rfl hresult), hpart, hsent, hsent', hstate⟩
  | again hjudge => exact ⟨w', [], .again hjudge, hpart, rfl, rfl, id⟩
  | @answer job n result answer hjudge =>
    exact ⟨_, [], .answer hjudge, Service.part_conclude_congr hpart now answer, rfl, rfl, id⟩

end World

/-! ## Time and operations -/

/-- The operation is on one id. -/
def Operation.On (id : String) : Operation → Prop
  | .register e => e.id = id
  | .update id' _ => id' = id
  | .unregister id' => id' = id
  | .clearCache id' => id' = some id
  | .setToken id' _ => id' = id
  | _ => False

namespace Service

variable {s s' : Service} {id : String} {now : Nat}

theorem OwnIds.congr (h : s.OwnIds) (hregistry : s'.registry = s.registry) : s'.OwnIds :=
  fun id e he => h id e (hregistry ▸ he)

theorem part_pass_congr (h : s'.part id = s.part id) (since now : Nat) :
    (s'.pass since now).part id = (s.pass since now).part id := by
  obtain ⟨hstrategy, hmaintenance, htoken, hendpoint, hwindow, hstats, hresponses⟩ := part_eq_iff.1 h
  unfold pass
  cases hm : s.maintenance with
  | none =>
    rw [hmaintenance.trans hm]
    exact h
  | some m =>
    rw [hmaintenance.trans hm]
    refine part_eq_iff.2 ⟨hstrategy, rfl, htoken, hendpoint, ?_, hstats, ?_⟩
    · dsimp only [Maintenance.sweepLimiter]
      cases Maintenance.lastTick? m.start m.limiterPeriod since now with
      | none => exact hwindow
      | some tick => simp only [Option.elim_some, Limiter.sweep, Dict.get?_filter, hwindow]
    · dsimp only [Maintenance.sweepCache]
      cases Maintenance.lastTick? m.start m.cachePeriod since now with
      | none => exact hresponses
      | some tick => exact Cache.owned_filter_congr hresponses _

/-- An operation on one id leaves the parts of all other ids as they are. -/
theorem part_operate_of_ne (hown : s.OwnIds) {op : Operation} (hplain : op.Plain) {other : String}
    (hop : op.On other) (hne : other ≠ id) : (s.operate now op).1.part id = s.part id := by
  cases op with
  | register e =>
    subst hop
    simp only [operate, Service.register]
    cases hreg : s.registry.register e with
    | error error => rfl
    | ok r =>
      obtain ⟨-, -, rfl⟩ := Registry.register_eq_ok hreg
      exact part_eq_iff.2 ⟨rfl, rfl, rfl, Dict.get?_insert_of_ne _ _ hne, rfl,
        Dict.get?_insert_of_ne _ _ hne, rfl⟩
  | update id' u =>
    subst hop
    simp only [operate, Service.update]
    cases hup : s.registry.update id' u with
    | error error => rfl
    | ok updated =>
      obtain ⟨e, r⟩ := updated
      obtain ⟨old, hold, -, -, rfl⟩ := Registry.update_eq_ok hup
      exact part_eq_iff.2 ⟨rfl, rfl, rfl, Dict.get?_insert_of_ne _ _ hne, rfl, rfl,
        s.cache.owned_invalidateEndpoint_of_ne (hown id' old hold).2 hne⟩
  | unregister id' =>
    subst hop
    simp only [operate, Service.unregister]
    cases hun : s.registry.unregister id' with
    | error error => rfl
    | ok removed =>
      obtain ⟨e, r⟩ := removed
      obtain ⟨he, rfl⟩ := Registry.unregister_eq_ok hun
      exact part_eq_iff.2 ⟨rfl, rfl, rfl, Dict.get?_erase_of_ne _ hne, Dict.get?_erase_of_ne _ hne,
        Dict.get?_erase_of_ne _ hne, s.cache.owned_invalidateEndpoint_of_ne (hown id' e he).2 hne⟩
  | clearCache id' =>
    cases hop
    exact part_eq_iff.2 ⟨rfl, rfl, rfl, rfl, rfl, rfl, s.cache.owned_invalidateEndpoint_of_ne hplain hne⟩
  | setToken id' token =>
    subst hop
    refine part_eq_iff.2 ⟨rfl, rfl, ?_, rfl, rfl, rfl, rfl⟩
    simp only [operate, setToken, Option.map_map]
    congr 1
    funext known
    cases token with
    | none => exact Dict.get?_erase_of_ne _ hne
    | some token => exact Dict.get?_insert_of_ne _ _ hne
  | importText text => exact hop.elim
  | sweep => exact hop.elim
  | startMaintenance periods => exact hop.elim
  | stopMaintenance => exact hop.elim

/-- What registering several endpoints does to one id depends on the registry and the part of that id. -/
theorem part_registerAll_congr (hregistry : s'.registry = s.registry) (h : s'.part id = s.part id)
    (es : List Endpoint) :
    (s'.registerAll es).1 = (s.registerAll es).1 ∧
      (s'.registerAll es).2.part id = (s.registerAll es).2.part id := by
  induction es generalizing s s' with
  | nil => exact ⟨rfl, h⟩
  | cons e es ih =>
    simp only [registerAll, Service.register, hregistry]
    cases s.registry.register e with
    | error error => exact ⟨rfl, h⟩
    | ok r =>
      obtain ⟨hstrategy, hmaintenance, htoken, -, hwindow, hstats, hresponses⟩ := part_eq_iff.1 h
      refine ih rfl (part_eq_iff.2 ⟨hstrategy, hmaintenance, htoken, rfl, hwindow, ?_, hresponses⟩)
      show (s'.metrics.stats.insert e.id Stats.zero).get? id =
        (s.metrics.stats.insert e.id Stats.zero).get? id
      rw [Dict.get?_insert, Dict.get?_insert]
      split
      · rfl
      · exact hstats

theorem part_importText_congr (h : s'.part id = s.part id) (text : String) :
    (s'.importText text).1 = (s.importText text).1 ∧
      (s'.importText text).2.part id = (s.importText text).2.part id := by
  unfold importText
  cases Document.read text with
  | error error => exact ⟨rfl, h⟩
  | ok document =>
    dsimp only
    cases firstFlaw? document.endpoints with
    | some error => exact ⟨rfl, h⟩
    | none =>
      obtain ⟨hstrategy, hmaintenance, htoken, -⟩ := part_eq_iff.1 h
      have hcleared : s'.cleared.part id = s.cleared.part id :=
        part_eq_iff.2 ⟨hstrategy, hmaintenance, htoken, rfl, rfl, rfl, rfl⟩
      have hregistry : s'.cleared.registry = s.cleared.registry := rfl
      obtain ⟨hrefused, hafter⟩ := part_registerAll_congr hregistry hcleared document.endpoints
      rcases hs : s.cleared.registerAll document.endpoints with ⟨refused, after⟩
      rcases hs' : s'.cleared.registerAll document.endpoints with ⟨refused', after'⟩
      rw [hs, hs'] at hrefused hafter
      dsimp only at hrefused hafter
      subst hrefused
      cases refused' with
      | some error => exact ⟨rfl, hafter⟩
      | none => exact ⟨rfl, hafter⟩

/-! What an operation on an id does to the part of the id depends on that part only. -/

theorem part_register_congr {e : Endpoint} (h : s'.part e.id = s.part e.id) (now : Nat) :
    (s'.operate now (.register e)).1.part e.id = (s.operate now (.register e)).1.part e.id := by
  obtain ⟨hstrategy, hmaintenance, htoken, hendpoint, hwindow, hstats, hresponses⟩ := part_eq_iff.1 h
  have hcontains : s'.registry.contains e.id = s.registry.contains e.id :=
    congrArg Option.isSome hendpoint
  simp only [operate, Service.register, Registry.register, hcontains]
  cases e.flaw? with
  | some flaw => exact h
  | none =>
    cases s.registry.contains e.id with
    | true => exact h
    | false =>
      refine part_eq_iff.2 ⟨hstrategy, hmaintenance, htoken, ?_, hwindow, ?_, hresponses⟩
      · exact (Dict.get?_insert_self _ _ _).trans (Dict.get?_insert_self _ _ _).symm
      · exact (Dict.get?_insert_self _ _ _).trans (Dict.get?_insert_self _ _ _).symm

theorem part_update_congr (h : s'.part id = s.part id) (now : Nat) (u : EndpointUpdate) :
    (s'.operate now (.update id u)).1.part id = (s.operate now (.update id u)).1.part id := by
  obtain ⟨hstrategy, hmaintenance, htoken, hendpoint, hwindow, hstats, hresponses⟩ := part_eq_iff.1 h
  simp only [operate, Service.update, Registry.update, hendpoint]
  cases s.registry.get? id with
  | none => exact h
  | some old =>
    dsimp only
    cases (old.apply u).flaw? with
    | some flaw => exact h
    | none =>
      refine part_eq_iff.2 ⟨hstrategy, hmaintenance, htoken, ?_, hwindow, hstats,
        Cache.owned_filter_congr hresponses _⟩
      exact (Dict.get?_insert_self _ _ _).trans (Dict.get?_insert_self _ _ _).symm

theorem part_unregister_congr (h : s'.part id = s.part id) (now : Nat) :
    (s'.operate now (.unregister id)).1.part id = (s.operate now (.unregister id)).1.part id := by
  obtain ⟨hstrategy, hmaintenance, htoken, hendpoint, hwindow, hstats, hresponses⟩ := part_eq_iff.1 h
  simp only [operate, Service.unregister, Registry.unregister, hendpoint]
  cases s.registry.get? id with
  | none => exact h
  | some old =>
    have herased : ∀ {β : Type} (d d' : Dict β), (d'.erase id).get? id = (d.erase id).get? id :=
      fun d d' => (Dict.get?_erase_self _ _).trans (Dict.get?_erase_self _ _).symm
    exact part_eq_iff.2 ⟨hstrategy, hmaintenance, htoken, herased _ _, herased _ _, herased _ _,
      Cache.owned_filter_congr hresponses _⟩

theorem part_setToken_congr (h : s'.part id = s.part id) (now : Nat) (token : Option String) :
    (s'.operate now (.setToken id token)).1.part id = (s.operate now (.setToken id token)).1.part id := by
  obtain ⟨hstrategy, hmaintenance, htoken, hendpoint, hwindow, hstats, hresponses⟩ := part_eq_iff.1 h
  refine part_eq_iff.2 ⟨hstrategy, hmaintenance, ?_, hendpoint, hwindow, hstats, hresponses⟩
  have hset : ∀ known : Dict String, (token.elim (known.erase id) fun token =>
      known.insert id token).get? id = token := by
    intro known
    cases token with
    | none => exact Dict.get?_erase_self _ _
    | some token => exact Dict.get?_insert_self _ _ _
  have hsource := congrArg Option.isSome htoken
  simp only [Option.isSome_map] at hsource
  simp only [operate, setToken, Option.map_map, Function.comp_def, hset]
  cases hs : s.tokens <;> cases hs' : s'.tokens <;> simp [hs, hs'] at hsource ⊢

/-- What an operation does to the part of an id depends on that part only. -/
theorem part_operate_congr (hown : s.OwnIds) (hown' : s'.OwnIds) (h : s'.part id = s.part id) (now : Nat)
    (op : Operation) : (s'.operate now op).1.part id = (s.operate now op).1.part id := by
  obtain ⟨hstrategy, hmaintenance, htoken, hendpoint, hwindow, hstats, hresponses⟩ := part_eq_iff.1 h
  -- an operation on another id changes neither part, whether it succeeds or not
  have hother : ∀ {other : String}, op.Plain → op.On other → other ≠ id →
      (s'.operate now op).1.part id = (s.operate now op).1.part id := by
    intro other hplain hop hne
    rw [part_operate_of_ne hown hplain hop hne, part_operate_of_ne hown' hplain hop hne, h]
  cases op with
  | register e =>
    by_cases hid : e.id = id
    · subst hid
      exact part_register_congr h now
    · exact hother trivial rfl hid
  | update id' u =>
    by_cases hid : id' = id
    · subst hid
      exact part_update_congr h now u
    · exact hother trivial rfl hid
  | unregister id' =>
    by_cases hid : id' = id
    · subst hid
      exact part_unregister_congr h now
    · exact hother trivial rfl hid
  | clearCache id' =>
    -- the keys that are dropped are the same ones, whatever the id
    cases id' with
    | none => exact part_eq_iff.2 ⟨hstrategy, hmaintenance, htoken, hendpoint, hwindow, hstats, rfl⟩
    | some id' =>
      exact part_eq_iff.2 ⟨hstrategy, hmaintenance, htoken, hendpoint, hwindow, hstats,
        Cache.owned_filter_congr hresponses _⟩
  | importText text => exact (part_importText_congr h text).2
  | setToken id' token =>
    by_cases hid : id' = id
    · subst hid
      exact part_setToken_congr h now token
    · exact hother trivial rfl hid
  | sweep =>
    refine part_eq_iff.2 ⟨hstrategy, hmaintenance, htoken, hendpoint, ?_, hstats,
      Cache.owned_filter_congr hresponses _⟩
    simp only [operate, Service.sweep, Limiter.sweep, Dict.get?_filter, hwindow]
  | startMaintenance periods =>
    exact part_eq_iff.2 ⟨hstrategy, rfl, htoken, hendpoint, hwindow, hstats, hresponses⟩
  | stopMaintenance =>
    exact part_eq_iff.2 ⟨hstrategy, rfl, htoken, hendpoint, hwindow, hstats, hresponses⟩

end Service

end Egress
