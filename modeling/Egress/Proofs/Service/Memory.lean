import Egress.Proofs.Service.Import
import Egress.Proofs.Service.Turns

/-!
# Kept responses and the history

In every session that operations lead to, the cache answers as the history says (`Faithful`): for each
id it has the last response of the same key, for as long as the endpoint's definition keeps responses.

* `Faithful.turn`: every turn of a request preserves it, the note of an answer included.
* `Faithful.operate`: so does every operation.
* `reached_faithful`: hence it holds in every session that is reached.
* `cached_iff_lastResponse`: what a request that is admitted at some time is answered with.
-/

set_option autoImplicit false

namespace Egress

namespace Service

/-- What the cache should have for a call of `id` at a time, going by the history. -/
def remembered? (s : Service) (id key : String) (past : List Happening) (t : Nat) : Option Envelope :=
  (s.registry.get? id).bind fun e => e.cacheTtl?.bind fun ttl =>
    (lastResponse? s.strategy id key past).bind fun last =>
      if t < last.1 + ttl then some last.2 else none

/-- Endpoints are listed under their own ids, which hold no separator. -/
def OwnIds (s : Service) : Prop :=
  ∀ id e, s.registry.get? id = some e → e.id = id ∧ keySeparator ∉ id.toList

/-- The cache has what it should have, going by the history. -/
structure Faithful (now : Nat) (s : Service) (past : List Happening) : Prop where
  own : s.OwnIds
  unknown : ∀ id key, s.registry.get? id = none → lastResponse? s.strategy id key past = none
  kept : ∀ id options t, keySeparator ∉ id.toList → now ≤ t →
    s.cache.peek t (s.strategy.key id options) =
      s.remembered? id (s.strategy.key id options) past t

variable {now : Nat} {s s' : Service} {past : List Happening}

theorem faithful_create (strategy : KeyStrategy) (tokens : Tokens) (events : Channel) :
    Faithful 0 (create strategy tokens events) [] where
  own _ _ h := by cases h
  unknown _ _ _ := rfl
  kept _ _ _ _ _ := rfl

theorem Faithful.alike {now' : Nat} (h : Faithful now s past) (halike : Alike now' s s')
    (hnow : now ≤ now') : Faithful now' s' past where
  own id e he := h.own id e (halike.registry ▸ he)
  unknown id key hid := by
    rw [halike.strategy]
    exact h.unknown id key (halike.registry ▸ hid)
  kept id options t hid ht := by
    rw [halike.strategy, halike.peek t _ ht, h.kept id options t hid (Nat.le_trans hnow ht), remembered?,
      remembered?, halike.registry, halike.strategy]

theorem remembered?_eq_none {id key : String} (h : lastResponse? s.strategy id key past = none) (t : Nat) :
    s.remembered? id key past t = none := by
  unfold remembered?
  rw [h]
  cases s.registry.get? id <;> simp

/-! ## Answers -/

theorem lastResponse?_skip (strategy : KeyStrategy) (id key : String) (time : Nat) (id' : String)
    (options : CallOptions) {answer : Answer}
    (h : ∀ envelope, answer = .ok envelope → envelope.cached = true) :
    lastResponse? strategy id key (.answered time id' options answer :: past) =
      lastResponse? strategy id key past := by
  cases answer with
  | error failure => rfl
  | ok envelope => simp [lastResponse?, h envelope rfl]

/-- Failures and responses from the cache leave no trace. -/
theorem Faithful.skip (h : Faithful now s past) (time : Nat) (id : String) (options : CallOptions)
    {answer : Answer} (hanswer : ∀ envelope, answer = .ok envelope → envelope.cached = true) :
    Faithful now s (.answered time id options answer :: past) where
  own := h.own
  unknown id' key hid := by
    rw [lastResponse?_skip _ _ _ _ _ _ hanswer]
    exact h.unknown id' key hid
  kept id' options' t hid ht := by
    rw [h.kept id' options' t hid ht, remembered?, remembered?, lastResponse?_skip _ _ _ _ _ _ hanswer]

theorem peek_conclude (s : Service) (now : Nat) (job : Job) (envelope : Envelope) (t : Nat)
    (key : String) :
    (s.conclude now job (.ok envelope)).cache.peek t key =
      if s.strategy.key job.endpoint.id job.options = key then
        job.endpoint.cacheTtl?.elim (s.cache.peek t key) fun ttl =>
          if t < now + ttl then some envelope else none
      else s.cache.peek t key := by
  simp only [conclude, publishSuccess, publish, cacheKey?]
  cases job.endpoint.cacheTtl? with
  | none => simp
  | some ttl => simp [Cache.peek_put]

/-- A response that an errand has brought is the last one of its key. -/
theorem Faithful.conclude (h : Faithful now s past) {job : Job}
    (hjob : s.registry.get? job.endpoint.id = some job.endpoint) {envelope : Envelope}
    (hcached : envelope.cached = false) :
    Faithful now (s.conclude now job (.ok envelope))
      (.answered now job.endpoint.id job.options (.ok envelope) :: past) where
  own := h.own
  unknown id key hid := by
    have hne : job.endpoint.id ≠ id := by
      rintro rfl
      rw [show s.registry.get? job.endpoint.id = none from hid] at hjob
      cases hjob
    simp only [lastResponse?, hne, false_and, if_false]
    exact h.unknown id key hid
  kept id options t hid ht := by
    show (s.conclude now job (.ok envelope)).cache.peek t (s.strategy.key id options) =
      remembered? s id (s.strategy.key id options) _ t
    rw [peek_conclude]
    by_cases hkey : s.strategy.key job.endpoint.id job.options = s.strategy.key id options
    · have hsame : job.endpoint.id = id :=
        s.strategy.id_eq_of_key_eq (h.own _ _ hjob).2 hid hkey
      subst hsame
      rw [if_pos hkey, remembered?, hjob, Option.bind_some]
      cases httl : job.endpoint.cacheTtl? with
      | none =>
        rw [Option.elim_none, h.kept _ options t hid ht, remembered?, hjob, Option.bind_some, httl]
        rfl
      | some ttl => simp [lastResponse?, hkey, hcached]
    · rw [if_neg hkey, h.kept id options t hid ht, remembered?, remembered?]
      have hskip : ¬(job.endpoint.id = id ∧
          s.strategy.key job.endpoint.id job.options = s.strategy.key id options ∧
          envelope.cached = false) := fun hc => hkey hc.2.1
      simp only [lastResponse?, if_neg hskip]

/-! ## Turns -/

end Service

/-- The endpoint of a request that has found one is the registered one, and what it waits for is not
from the cache. -/
def Request.Current (s : Service) : Request → Prop
  | .arriving .. => True
  | .queueing job => s.registry.get? job.endpoint.id = some job.endpoint
  | .working job stage => s.registry.get? job.endpoint.id = some job.endpoint ∧ stage.Fresh

theorem Request.Current.congr {s s' : Service} (hregistry : s'.registry = s.registry)
    {request : Request} (h : request.Current s) : request.Current s' := by
  cases request <;> simp only [Request.Current, hregistry] at h ⊢ <;> exact h

namespace Service

variable {ω : Type} {transport : Transport ω} {now : Nat} {w w' : World ω} {past : List Happening}

/-- A request that waits is still current. -/
theorem Faithful.current (hfaithful : Faithful now w.service past) {request next : Request}
    {duration : Nat} (hcurrent : request.Current w.service)
    (h : World.Turns transport now w request w' (.wait duration next)) : next.Current w'.service := by
  have hjob : ∀ {request : Request} {job : Job}, request.job? = some job →
      w.service.registry.get? job.endpoint.id = some job.endpoint →
      World.Turns transport now w request w' (.wait duration next) → next.Current w.service := by
    intro request job hjob hget h
    obtain rfl | ⟨stage, rfl, hfresh⟩ := h.next hjob
    · exact hget
    · exact ⟨hget, hfresh⟩
  refine Request.Current.congr h.registry ?_
  rcases request with ⟨id, options⟩ | job | ⟨job, stage⟩
  · cases h with
    | @found _ _ e _ _ hid hturn =>
      have hget : w.service.registry.get? e.id = some e := by
        rw [(hfaithful.own _ _ hid).1]
        exact hid
      exact hjob rfl hget hturn
  · exact hjob rfl hcurrent h
  · exact hjob rfl hcurrent.1 h

/-- A turn that ends in a wait keeps to the history as it is. -/
theorem Faithful.wait (hfaithful : Faithful now w.service past) {request next : Request}
    {duration : Nat} (h : World.Turns transport now w request w' (.wait duration next)) :
    Faithful now w'.service past := by
  obtain ⟨halike, -⟩ | ⟨_, _, _, -, -, hturn⟩ := h.alike
  · exact hfaithful.alike halike (Nat.le_refl now)
  · cases hturn

/-- A turn that answers keeps to the history with the answer. -/
theorem Faithful.finish (hfaithful : Faithful now w.service past) {request : Request} {answer : Answer}
    (hcurrent : request.Current w.service)
    (h : World.Turns transport now w request w' (.finish answer)) :
    Faithful now w'.service (.ofAnswer now request answer :: past) := by
  obtain ⟨halike, hcached⟩ | ⟨job, n, envelope, rfl, rfl, hturn⟩ := h.alike
  · refine (hfaithful.alike halike (Nat.le_refl now)).skip now _ _ fun envelope hok => ?_
    exact hcached envelope (by rw [hok])
  · cases hturn
    exact hfaithful.conclude hcurrent.1 (hcurrent.2 envelope rfl)

/-- The requests that have not been answered are current. -/
def AllCurrent (s : Service) (courses : List (Course Request Answer)) : Prop :=
  ∀ wake request, Course.pending wake request ∈ courses → request.Current s

theorem AllCurrent.replace {s s' : Service} (hregistry : s'.registry = s.registry)
    {before after : List (Course Request Answer)} {old new : Course Request Answer}
    (h : AllCurrent s (before ++ old :: after))
    (hnew : ∀ wake request, Course.pending wake request = new → request.Current s') :
    AllCurrent s' (before ++ new :: after) := by
  intro wake request hmem
  rw [List.mem_append, List.mem_cons] at hmem
  rcases hmem with hmem | hmem | hmem
  · exact (h wake request (List.mem_append_left _ hmem)).congr hregistry
  · exact hnew wake request hmem
  · refine (h wake request ?_).congr hregistry
    exact List.mem_append_right _ (List.mem_cons_of_mem _ hmem)

/-- Requests that are made side by side keep to the history with their answers. -/
theorem Faithful.requests {s after : Session ω} {past past' : List Happening} {fuel : Nat}
    {calls : List (String × CallOptions)} {answers : List (Nat × Answer)}
    (hfaithful : Faithful s.now s.world.service past)
    (hrun : s.requestsNoting transport fuel past calls = some (answers, after, past')) :
    Faithful after.now after.world.service past' := by
  unfold Session.requestsNoting at hrun
  obtain ⟨outcome, hschedule, heq⟩ := Option.map_eq_some_iff.1 hrun
  cases heq
  let P (now : Nat) (shared : World ω × List Happening) (courses : List (Course Request Answer)) :=
    Faithful now shared.1.service shared.2 ∧ AllCurrent shared.1.service courses
  have hstart : P s.now (s.world, past)
      (calls.map fun call => .pending s.now (.arriving call.1 call.2)) := by
    refine ⟨hfaithful, fun wake request hmem => ?_⟩
    obtain ⟨call, -, heq⟩ := List.mem_map.1 hmem
    cases heq
    trivial
  refine (Schedule.run_invariant _ (P := P) ?_ hstart hschedule).1.1
  rintro now ⟨w, past⟩ before wake request after ⟨hfaithful, hall⟩
  dsimp only
  have htime : now ≤ max now wake := Nat.le_max_left now wake
  generalize max now wake = time at htime
  have hpass := Service.pass_alike w.service now time
  have hpassed : Faithful time (w.service.pass now time) past := hfaithful.alike hpass htime
  have hcurrent : request.Current (w.service.pass now time) :=
    (hall wake request (by simp)).congr hpass.registry
  have hturns := World.act_turns transport time ⟨w.service.pass now time, w.wire⟩ request
  have hregistry := hturns.registry.trans hpass.registry
  simp only [World.workshop, Workshop.noting]
  rcases hact : World.act transport time ⟨w.service.pass now time, w.wire⟩ request with
    ⟨w', ⟨duration, next⟩ | answer⟩
  · rw [hact] at hturns hregistry
    refine ⟨hpassed.wait hturns, hall.replace hregistry fun wake' request' heq => ?_⟩
    cases heq
    exact hpassed.current hcurrent hturns
  · rw [hact] at hturns hregistry
    refine ⟨hpassed.finish hcurrent hturns, hall.replace hregistry fun wake' request' heq => ?_⟩
    cases heq

/-! ## Operations -/

theorem OwnIds.insert {s s' : Service} (h : s.OwnIds) {id : String} {e : Endpoint} (hid : e.id = id)
    (hsep : keySeparator ∉ id.toList)
    (hregistry : s'.registry = ⟨s.registry.endpoints.insert id e⟩) : s'.OwnIds := by
  intro k e' he'
  rw [hregistry, Registry.get?, Dict.get?_insert] at he'
  split at he'
  · next heq =>
    cases he'
    exact ⟨hid.trans heq, heq ▸ hsep⟩
  · exact h k e' he'

theorem OwnIds.erase {s s' : Service} (h : s.OwnIds) {id : String}
    (hregistry : s'.registry = ⟨s.registry.endpoints.erase id⟩) : s'.OwnIds := by
  intro k e' he'
  rw [hregistry, Registry.get?, Dict.get?_erase] at he'
  split at he'
  · cases he'
  · exact h k e' he'

theorem Faithful.drop {s s' : Service} (h : Faithful now s past) {id : String}
    (hid : keySeparator ∉ id.toList) (hown : s'.OwnIds) (hstrategy : s'.strategy = s.strategy)
    (hregistry : ∀ k, k ≠ id → s'.registry.get? k = s.registry.get? k)
    (hcache : s'.cache = s.cache.invalidateEndpoint id) :
    Faithful now s' (.dropped id :: past) where
  own := hown
  unknown k key hk := by
    rw [hstrategy]
    by_cases hne : k = id
    · simp [lastResponse?, hne]
    · simp only [lastResponse?, Ne.symm hne, if_false]
      exact h.unknown k key (hregistry k hne ▸ hk)
  kept k options t hk ht := by
    rw [hstrategy, hcache, Cache.peek_invalidateEndpoint, remembered?, hstrategy]
    by_cases hne : k = id
    · subst hne
      have hbelongs := (s.strategy.belongsTo_key options hk hk).2 rfl
      have hnone : lastResponse? s.strategy k (s.strategy.key k options) (.dropped k :: past) = none := by
        simp [lastResponse?]
      rw [if_pos hbelongs, hnone]
      simp
    · have hbelongs : Cache.belongsTo (s.strategy.key k options) id = false := by
        rw [← Bool.not_eq_true, s.strategy.belongsTo_key options hk hid]
        exact hne
      simp only [hbelongs, Bool.false_eq_true, if_false, lastResponse?, Ne.symm hne]
      rw [h.kept k options t hk ht, remembered?, hregistry k hne]

theorem register_eq_ok {s s' : Service} {e : Endpoint} (h : s.register e = .ok s') :
    e.flaw? = none ∧ s.registry.get? e.id = none ∧
      s'.registry = ⟨s.registry.endpoints.insert e.id e⟩ ∧ s'.strategy = s.strategy ∧
      s'.cache = s.cache := by
  unfold register at h
  split at h
  · cases h
  · next r hr =>
    cases h
    obtain ⟨hflaw, hnew, rfl⟩ := Registry.register_eq_ok hr
    exact ⟨hflaw, hnew, rfl, rfl, rfl⟩

theorem OwnIds.register {s s' : Service} {e : Endpoint} (h : s.OwnIds)
    (hreg : s.register e = .ok s') : s'.OwnIds := by
  obtain ⟨hflaw, -, hregistry, -⟩ := register_eq_ok hreg
  exact h.insert rfl (Endpoint.keySeparator_notMem_id hflaw) hregistry

theorem Faithful.register {s s' : Service} {e : Endpoint} (h : Faithful now s past)
    (hreg : s.register e = .ok s') : Faithful now s' past := by
  obtain ⟨-, hnew, hregistry, hstrategy, hcache⟩ := register_eq_ok hreg
  refine ⟨h.own.register hreg, fun id key hid => ?_, fun id options t hid ht => ?_⟩
  · rw [hstrategy]
    refine h.unknown id key ?_
    rw [hregistry, Registry.get?, Dict.get?_insert] at hid
    split at hid
    · cases hid
    · exact hid
  · rw [hstrategy, hcache, h.kept id options t hid ht, remembered?, remembered?, hregistry, hstrategy]
    by_cases hne : e.id = id
    · -- nothing was answered while the id was not registered
      subst hne
      rw [h.unknown e.id _ hnew]
      simp
    · rw [Registry.get?, Registry.get?, Dict.get?_insert_of_ne _ _ hne]

theorem Faithful.empty {s : Service} (hown : s.OwnIds) (hcache : s.cache = .empty) :
    Faithful now s (.emptied :: past) where
  own := hown
  unknown _ _ _ := rfl
  kept _ _ t _ _ := by
    rw [hcache, Cache.peek_empty]
    exact (remembered?_eq_none rfl t).symm

theorem Replaced.own {s after : Service} {es : List Endpoint} {told : List Event}
    (h : s.Replaced es told after) (hflaw : ∀ e ∈ es, e.flaw? = none) : after.OwnIds := by
  intro id e he
  obtain ⟨hmem, rfl⟩ := (h.registry id e).1 he
  exact ⟨rfl, Endpoint.keySeparator_notMem_id (hflaw e hmem)⟩

theorem Faithful.importText {s : Service} (h : Faithful now s past) (text : String) :
    Faithful now (s.importText text).2 ((if importClears text then [.emptied] else []) ++ past) := by
  obtain ⟨hclears, heq⟩ | ⟨hclears, es, told, hflaw, hafter, -⟩ := importText_cases s text
  · rw [hclears, heq]
    exact h
  · rw [hclears]
    exact Faithful.empty (hafter.own hflaw) hafter.cache

/-- Every operation keeps to the history with what happened. -/
theorem Faithful.operate {s : Service} (h : Faithful now s past) (op : Operation) (hop : op.Plain) :
    Faithful now (s.operate now op).1 ((s.operate now op).2 ++ past) := by
  cases op with
  | register e =>
    simp only [Service.operate]
    split
    · exact h
    · next hreg => exact h.register hreg
  | update id u =>
    simp only [Service.operate, Service.update]
    cases hup : s.registry.update id u with
    | error error => exact h
    | ok updated =>
      obtain ⟨e, r⟩ := updated
      obtain ⟨old, hold, rfl, hflaw, rfl⟩ := Registry.update_eq_ok hup
      obtain ⟨hid, hsep⟩ := h.own id old hold
      exact h.drop hsep (h.own.insert (e := old.apply u) hid hsep rfl) rfl
        (fun k hk => Dict.get?_insert_of_ne _ _ (Ne.symm hk)) rfl
  | unregister id =>
    simp only [Service.operate, Service.unregister]
    cases hun : s.registry.unregister id with
    | error error => exact h
    | ok removed =>
      obtain ⟨e, r⟩ := removed
      obtain ⟨he, rfl⟩ := Registry.unregister_eq_ok hun
      exact h.drop (h.own id e he).2 (h.own.erase rfl) rfl
        (fun k hk => Dict.get?_erase_of_ne _ (Ne.symm hk)) rfl
  | clearCache id =>
    cases id with
    | none =>
      have hown : (s.clearCache none).OwnIds := h.own
      exact Faithful.empty hown rfl
    | some id =>
      have hown : (s.clearCache (some id)).OwnIds := h.own
      exact h.drop hop hown rfl (fun _ _ => rfl) rfl
  | importText text => exact h.importText text
  | setToken id token => exact h.alike (.of_eq rfl rfl rfl) (Nat.le_refl now)
  | sweep => exact h.alike (sweep_alike s now) (Nat.le_refl now)
  | startMaintenance periods => exact h.alike (.of_eq rfl rfl rfl) (Nat.le_refl now)
  | stopMaintenance => exact h.alike (.of_eq rfl rfl rfl) (Nat.le_refl now)

end Service

/-- In every session that is reached the cache has what it should have. -/
theorem Session.reached_faithful {ω : Type} {transport : Transport ω} {s : Session ω}
    {past : List Happening} (h : Session.Reached transport s past) :
    Service.Faithful s.now s.world.service past := by
  induction h with
  | start strategy tokens events state => exact Service.faithful_create strategy tokens events
  | operate _ op hop ih => exact ih.operate op hop
  | @advance s past _ ms ih =>
    exact ih.alike (Service.pass_alike _ s.now (s.now + ms)) (Nat.le_add_right _ _)
  | requests _ hrun ih => exact ih.requests hrun

end Egress
