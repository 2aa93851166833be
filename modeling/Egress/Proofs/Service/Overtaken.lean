import Egress.Proofs.Service.Answers
import Egress.Proofs.Service.Traffic

/-!
# Requests that are overtaken

A request that has looked up its endpoint is overtaken if the definition is replaced or removed before the
request is answered. Its answer is then stored and counted as if nothing had happened.

* `Sound.served`: a response from the cache was brought by a request that was answered after the last
  replacement, but which may have looked up its endpoint before it.
* `Sound.stats_of_unregistered`, `Sound.stored_of_unregistered`: what is kept about an endpoint that is
  not registered comes from overtaken requests.
* `fresh_unless_overtaken` is both for all runs, and `stale_of_overtaken` a run of each kind.
-/

set_option autoImplicit false

namespace Egress

namespace Traffic

variable {ω : Type} {t : Traffic ω}

/-- What a look-up brings is in the cache under the key of the request. -/
theorem exists_kept_of_lookup {s : Service} {now : Nat} {job : Job} {envelope : Envelope}
    (h : (s.lookup now job).1 = some envelope) :
    ∃ entry, s.cache.entries.get? (s.strategy.key job.endpoint.id job.options) = some entry ∧
      envelope = entry.value.asCached := by
  rw [Service.lookup_fst] at h
  split at h
  · cases h
  · simp only [Option.bind_eq_some_iff, Option.map_eq_some_iff] at h
    obtain ⟨ttl, -, kept, hpeek, rfl⟩ := h
    obtain ⟨expiry, hget, -⟩ := Cache.peek_eq_some_iff.1 hpeek
    exact ⟨⟨kept, expiry⟩, hget, rfl⟩

/-- A request to the endpoint was in flight when its definition was last replaced or removed, and has been
answered since. -/
def Overtaken (id : String) (log : List Deed) : Prop :=
  ∃ flight job answer, Deed.answered flight job answer ∈ sinceReplaced id log ∧
    job.endpoint.id = id ∧ Deed.found flight job ∉ sinceReplaced id log

/-- A response that serves an admitted request was brought by a request to the same endpoint. -/
theorem Sound.served_queueing (h : Sound t) {transport : Transport ω} {job : Job} {w' : World ω}
    {envelope : Envelope} (hsep : keySeparator ∉ job.endpoint.id.toList)
    (hturns : World.Turns transport t.now t.world (.queueing job) w' (.finish (.ok envelope))) :
    ∃ producer served kept, Deed.answered producer served (.ok kept) ∈
        sinceReplaced job.endpoint.id t.log ∧
      served.endpoint.id = job.endpoint.id ∧ envelope = kept.asCached := by
  cases hturns with
  | @hit job limiter envelope s henter hlookup =>
    obtain ⟨entry, hget, rfl⟩ := exists_kept_of_lookup (congrArg Prod.fst hlookup)
    obtain ⟨producer, served, hmem, -, hkey⟩ := h.stored _ entry hget
    have hplain := h.plain producer served (h.before _ _ _ (sinceReplaced_subset _ _ hmem))
    have hid := t.world.service.strategy.id_eq_of_key_eq hplain hsep hkey.symm
    exact ⟨producer, served, entry.value, hid ▸ hmem, hid, rfl⟩

/-- A response from the cache was brought by a request that was answered after the last replacement. -/
theorem Sound.served (h : Sound t) {transport : Transport ω} {flight wake : Nat} {request : Request}
    {w' : World ω} {envelope : Envelope}
    (hflight : t.flights[flight]? = some (.pending wake request))
    (hturns : World.Turns transport t.now t.world request w' (.finish (.ok envelope)))
    (hcached : envelope.cached = true) :
    ∃ producer served kept, Deed.answered producer served (.ok kept) ∈
        sinceReplaced request.id t.log ∧
      served.endpoint.id = request.id ∧ envelope = kept.asCached := by
  have hknown := h.flying flight wake request hflight
  cases hturns with
  | found hid hturn =>
    obtain ⟨rfl, hsep⟩ := h.own _ _ hid
    exact h.served_queueing hsep hturn
  | @hit job limiter _ service henter hlookup =>
    have hturn : World.Turns transport t.now t.world (.queueing job) _ _ := .hit henter hlookup
    exact h.served_queueing (h.plain flight job hknown) hturn
  | answer hjudge =>
    obtain rfl := judge_ok hjudge
    rw [hknown.2 envelope rfl] at hcached
    cases hcached

/-- A request to an endpoint that is not registered found it before it was removed. -/
theorem Sound.overtaken_of_answered (h : Sound t) {id : String} {flight : Nat} {job : Job}
    {answer : Answer} (hnone : t.world.service.registry.get? id = none)
    (hmem : Deed.answered flight job answer ∈ sinceReplaced id t.log) (hid : job.endpoint.id = id) :
    Overtaken id t.log := by
  refine ⟨flight, job, answer, hmem, hid, fun hfound => ?_⟩
  subst hid
  have hcurrent := h.current flight job hfound
  rw [hnone] at hcurrent
  cases hcurrent

theorem Sound.stats_of_unregistered (h : Sound t) {id : String}
    (hnone : t.world.service.registry.get? id = none) :
    (t.world.service.metrics.get? id).isSome = true ↔ Overtaken id t.log := by
  rw [h.counted id hnone]
  constructor
  · rintro ⟨flight, job, answer, hmem, hid⟩
    exact h.overtaken_of_answered hnone hmem hid
  · rintro ⟨flight, job, answer, hmem, hid, -⟩
    exact ⟨flight, job, answer, hmem, hid⟩

theorem Sound.stored_of_unregistered (h : Sound t) {id key : String} {entry : Cache.Entry Envelope}
    (hnone : t.world.service.registry.get? id = none) (hsep : keySeparator ∉ id.toList)
    (hget : t.world.service.cache.entries.get? key = some entry)
    (hbelongs : Cache.belongsTo key id = true) : Overtaken id t.log := by
  obtain ⟨flight, job, hmem, -, rfl⟩ := h.stored key entry hget
  have hplain := h.plain flight job (h.before _ _ _ (sinceReplaced_subset _ _ hmem))
  have hid := (t.world.service.strategy.belongsTo_key job.options hplain hsep).1 hbelongs
  exact h.overtaken_of_answered hnone (hid ▸ hmem) hid

/-- A response from the cache was brought by a request that was answered after the definition of the
endpoint was last replaced. It is a response of the definition that is registered now if that request had
also looked it up by then, which is so for all requests if none was overtaken by the replacement. Of an
endpoint that is not registered there are statistics exactly if a request was overtaken by its removal,
and kept responses only then. -/
theorem fresh_unless_overtaken (transport : Transport ω) (strategy : KeyStrategy) (tokens : Tokens)
    (events : Channel) (state : ω) (moves : List Move) :
    let t : Traffic ω := (start strategy tokens events state).run transport moves
    (∀ (flight wake : Nat) (request : Request) (w' : World ω) (envelope : Envelope),
      t.flights[flight]? = some (.pending wake request) →
      World.act transport t.now t.world request = (w', .finish (.ok envelope)) →
      envelope.cached = true →
      ∃ producer job kept, Deed.answered producer job (.ok kept) ∈ sinceReplaced request.id t.log ∧
        Deed.found producer job ∈ t.log ∧ job.endpoint.id = request.id ∧
        envelope = { kept with cached := true } ∧
        (Deed.found producer job ∈ sinceReplaced request.id t.log →
          t.world.service.registry.get? request.id = some job.endpoint) ∧
        (¬Overtaken request.id t.log →
          Deed.found producer job ∈ sinceReplaced request.id t.log)) ∧
    ∀ id, t.world.service.registry.get? id = none →
      ((t.world.service.metrics.get? id).isSome = true ↔ Overtaken id t.log) ∧
      (keySeparator ∉ id.toList → ∀ key, Cache.belongsTo key id = true →
        (t.world.service.cache.entries.get? key).isSome = true → Overtaken id t.log) := by
  intro t
  have hsound : Sound t := sound_run transport (sound_start strategy tokens events state) moves
  refine ⟨fun flight wake request w' envelope hflight hact hcached => ?_, fun id hnone => ?_⟩
  · have hturns := World.act_turns transport t.now t.world request
    rw [hact] at hturns
    obtain ⟨producer, job, kept, hmem, hid, rfl⟩ := hsound.served hflight hturns hcached
    refine ⟨producer, job, kept, hmem, hsound.before _ _ _ (sinceReplaced_subset _ _ hmem), hid, rfl,
      fun hfound => ?_, fun hnot => ?_⟩
    · rw [← hid] at hfound ⊢
      exact hsound.current producer job hfound
    · exact Classical.byContradiction fun hfound => hnot ⟨producer, job, _, hmem, hid, hfound⟩
  · refine ⟨hsound.stats_of_unregistered hnone, fun hsep key hbelongs hsome => ?_⟩
    obtain ⟨entry, hget⟩ := Option.isSome_iff_exists.1 hsome
    exact hsound.stored_of_unregistered hnone hsep hget hbelongs

/-- The traffic after moves, where every call is answered in the same way. -/
def steady (moves : List Move) : Traffic Unit :=
  (start .request none (.create 1 0) ()).run .steady moves

/-- One endpoint is called and another one comes and goes; then the first one is called again. -/
def calledAgain : List Move :=
  [.operate (.register .keeping), .arrive "a" .plain, .turn 0, .pass 5, .turn 0,
    .operate (.register { Endpoint.keeping with id := "b" }), .operate (.unregister "b"),
    .arrive "a" .plain]

/-- The second call is served with the response of the definition that is registered, and nothing is left of
the other endpoint. -/
theorem fresh_unless_overtaken_calledAgain :
    ∃ job kept w', (steady calledAgain).log =
        [.replaced (some "b"), .answered 0 job (.ok kept), .found 0 job] ∧
      World.act .steady (steady calledAgain).now (steady calledAgain).world (.arriving "a" .plain) =
        (w', .finish (.ok { kept with cached := true })) ∧
      (steady calledAgain).world.service.registry.get? "a" = some job.endpoint ∧
      (steady calledAgain).world.service.metrics.get? "b" = none ∧
      (steady calledAgain).world.service.cache.entries.get? "b" = none := by
  have hsteady : (start .request none (.create 1 0) ()).run .steady calledAgain = steady calledAgain :=
    rfl
  obtain ⟨hserved, hremoved⟩ :=
    fresh_unless_overtaken .steady .request none (.create 1 0) () calledAgain
  rw [hsteady] at hserved hremoved
  obtain ⟨job, kept, hlog⟩ : ∃ job kept, (steady calledAgain).log =
      [.replaced (some "b"), .answered 0 job (.ok kept), .found 0 job] := ⟨_, _, rfl⟩
  have ha : sinceReplaced "a" (steady calledAgain).log =
      [.replaced (some "b"), .answered 0 job (.ok kept), .found 0 job] := by
    rw [hlog]
    simp [sinceReplaced, Deed.replaces]
  have hb : sinceReplaced "b" (steady calledAgain).log = [] := by
    rw [hlog]
    exact sinceReplaced_replaced (.inr rfl) _
  have hnota : ¬Overtaken "a" (steady calledAgain).log := by
    rintro ⟨flight, job', answer, hmem, -, hfound⟩
    rw [ha] at hmem hfound
    simp only [List.mem_cons, reduceCtorEq, Deed.answered.injEq, List.not_mem_nil, or_false,
      false_or] at hmem
    obtain ⟨rfl, rfl, -⟩ := hmem
    exact hfound (by simp)
  have hnotb : ¬Overtaken "b" (steady calledAgain).log := by
    rintro ⟨flight, job', answer, hmem, -⟩
    rw [hb] at hmem
    cases hmem
  obtain ⟨hstats, hstored⟩ := hremoved "b" rfl
  obtain ⟨w', envelope, hact, hcached⟩ : ∃ w' envelope,
      World.act .steady (steady calledAgain).now (steady calledAgain).world (.arriving "a" .plain) =
        (w', .finish (.ok envelope)) ∧ envelope.cached = true := ⟨_, _, rfl, rfl⟩
  obtain ⟨producer, job', kept', hmem, -, -, rfl, hcurrent, hfresh⟩ :=
    hserved 1 5 (.arriving "a" .plain) w' envelope rfl hact hcached
  have hregistered := hcurrent (hfresh hnota)
  rw [show Request.id (.arriving "a" .plain) = "a" from rfl, ha] at hmem
  simp only [List.mem_cons, reduceCtorEq, Deed.answered.injEq, Except.ok.injEq, List.not_mem_nil,
    or_false, false_or] at hmem
  obtain ⟨rfl, rfl, rfl⟩ := hmem
  refine ⟨job', kept', w', hlog, hact, hregistered, ?_, ?_⟩
  · exact Option.not_isSome_iff_eq_none.1 fun hsome => hnotb (hstats.1 hsome)
  · exact Option.not_isSome_iff_eq_none.1 fun hsome =>
      hnotb (hstored (by decide) "b" (by decide) hsome)

/-- A request is answered after an operation that was done in the meantime; then another one is made. -/
def whileAnswering (op : Operation) : List Move :=
  [.operate (.register .keeping), .arrive "a" .plain, .turn 0, .operate op, .pass 5, .turn 0,
    .arrive "a" .plain]

/-- An update that sends requests elsewhere. -/
def elsewhere : EndpointUpdate :=
  ⟨none, some "http://new/", none, none, none, none, none, none, none, none, none, none⟩

/-- After an update a request is served with a response of the old definition, and after a removal there
are statistics and a response: in both cases they come from a request that was overtaken. -/
theorem stale_of_overtaken :
    (∃ t e w' kept, t = steady (whileAnswering (.update "a" elsewhere)) ∧
      t.world.service.registry.get? "a" = some e ∧ e.url = "http://new/" ∧
      t.flights[1]? = some (.pending t.now (.arriving "a" .plain)) ∧
      World.act .steady t.now t.world (.arriving "a" .plain) =
        (w', .finish (.ok { (kept : Envelope) with cached := true })) ∧
      kept.url = "http://h/") ∧
    ∃ t, t = steady (whileAnswering (.unregister "a")) ∧
      t.world.service.registry.get? "a" = none ∧
      (t.world.service.metrics.get? "a").isSome = true ∧
      (t.world.service.cache.entries.get? "a").isSome = true := by
  constructor
  · exact ⟨_, _, _, _, rfl, rfl, rfl, rfl, rfl, rfl⟩
  · exact ⟨_, rfl, rfl, rfl, rfl⟩

end Traffic

end Egress
