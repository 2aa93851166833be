import Egress.Proofs.Dict
import Egress.Registry

/-!
# What operations leave in a registry

* `Endpoint.valid_iff`: what it takes to be served, field by field.
* `perform_cases`: an operation is accepted and has its effect on the look-ups, or it is refused and nothing
  changes.
* `Valid`: endpoints are listed under their own ids and can be served. Every operation keeps to it
  (`Valid.perform`), so it holds after any number of them (`valid_run`), and then all that can be read off
  the registry agrees (`Valid.coherent`).

An endpoint at a domain name in another script is served with the encoded form of the name only
(`Url.parseHost`); with any other spelling an operation on it counts among those that are refused.
-/

set_option autoImplicit false

namespace Egress

/-! ## Endpoints that can be served -/

theorem RateLimit.flaw?_eq_none_iff {limit : RateLimit} :
    limit.flaw? = none ↔ 0 < limit.requests ∧ 0 < limit.window ∧ limit.throttleDelay ≠ some 0 := by
  unfold flaw?
  by_cases hrequests : limit.requests = 0
  · simp [hrequests]
  · by_cases hwindow : limit.window = 0
    · simp [hrequests, hwindow]
    · simp [hrequests, hwindow, Nat.pos_iff_ne_zero]

theorem Endpoint.urlFlaw?_eq_none_iff {e : Endpoint} :
    e.urlFlaw? = none ↔ ∃ url, Url.parse e.url = .ok url := by
  unfold urlFlaw?
  cases Url.parse e.url <;> simp

/-- An endpoint can be served if each of its fields allows it. -/
theorem Endpoint.valid_iff {e : Endpoint} :
    e.Valid ↔ Text.isBlankText e.id = false ∧ keySeparator ∉ e.id.toList ∧
      Text.isBlankText e.name = false ∧ (∃ url, Url.parse e.url = .ok url) ∧ 0 < e.timeout ∧
      (∀ limit, e.rateLimit = some limit → limit.flaw? = none) ∧
      ∀ policy, e.retryPolicy = some policy → policy.flaw? = none := by
  have htimeout : (if e.timeout = 0 then some Flaw.noTimeout else none) = none ↔ 0 < e.timeout := by
    simp [Nat.pos_iff_ne_zero]
  unfold Valid flaw?
  split
  · next hid => simp [hid]
  · next hid =>
    split
    · next hsep => simp_all
    · next hsep =>
      split
      · next hname => simp [hname]
      · next hname =>
        rw [Option.or_eq_none_iff, Option.or_eq_none_iff, Option.or_eq_none_iff,
          Endpoint.urlFlaw?_eq_none_iff, htimeout, Option.bind_eq_none_iff, Option.bind_eq_none_iff]
        simp_all

theorem Endpoint.keySeparator_notMem_id {e : Endpoint} (h : e.flaw? = none) :
    keySeparator ∉ e.id.toList :=
  (Endpoint.valid_iff.1 h).2.1

namespace Registry

/-! ## What can be read off a registry -/

theorem mem_ids {r : Registry} {id : String} : id ∈ r.ids ↔ r.get? id ≠ none := by
  rw [ids, Dict.keys, List.mem_map, Option.ne_none_iff_exists', get?]
  constructor
  · rintro ⟨⟨k, e⟩, hmem, rfl⟩
    exact ⟨e, Dict.get?_eq_some_iff.2 hmem⟩
  · rintro ⟨e, he⟩
    exact ⟨(id, e), Dict.get?_eq_some_iff.1 he, rfl⟩

theorem contains_iff {r : Registry} {id : String} : r.contains id = true ↔ r.get? id ≠ none := by
  rw [contains, Dict.contains, Option.isSome_iff_ne_none, get?]

/-- Ids, definitions and their number tell of the same endpoints, ascending by id. -/
structure Coherent (r : Registry) : Prop where
  ascending : r.ids.Pairwise (· < ·)
  ids_list : r.list.map (·.id) = r.ids
  mem_list : ∀ e, e ∈ r.list ↔ r.get? e.id = some e
  mem_ids : ∀ id, id ∈ r.ids ↔ r.contains id = true
  contains_get : ∀ id, r.contains id = true ↔ ∃ e, r.get? id = some e
  size_list : r.size = r.list.length

/-! ## What an operation leaves if it succeeds -/

theorem register_eq_ok {r r' : Registry} {e : Endpoint} (h : r.register e = .ok r') :
    e.flaw? = none ∧ r.get? e.id = none ∧ r' = ⟨r.endpoints.insert e.id e⟩ := by
  unfold register at h
  split at h
  · cases h
  · next hflaw =>
    split at h
    · cases h
    · next hnew =>
      cases h
      refine ⟨hflaw, ?_, rfl⟩
      simpa [contains, Dict.contains, get?] using hnew

theorem unregister_eq_ok {r r' : Registry} {id : String} {e : Endpoint}
    (h : r.unregister id = .ok (e, r')) : r.get? id = some e ∧ r' = ⟨r.endpoints.erase id⟩ := by
  unfold unregister at h
  split at h
  · cases h
  · next hget => cases h; exact ⟨hget, rfl⟩

theorem update_eq_ok {r r' : Registry} {id : String} {u : EndpointUpdate} {e : Endpoint}
    (h : r.update id u = .ok (e, r')) :
    ∃ old, r.get? id = some old ∧ e = old.apply u ∧ e.flaw? = none ∧
      r' = ⟨r.endpoints.insert id e⟩ := by
  unfold update at h
  split at h
  · cases h
  · next old hget =>
    dsimp only at h
    split at h
    · cases h
    · next hflaw => cases h; exact ⟨old, hget, rfl, hflaw, rfl⟩

/-- An update changes neither which endpoints there are nor the order in which they are listed. -/
theorem ids_update {r r' : Registry} {id : String} {u : EndpointUpdate} {e : Endpoint}
    (h : r.update id u = .ok (e, r')) : r'.ids = r.ids := by
  obtain ⟨old, hold, -, -, rfl⟩ := update_eq_ok h
  refine Dict.keys_congr fun k => ?_
  rw [Dict.get?_insert]
  split
  · next hk =>
    rw [get?, hk] at hold
    rw [hold, Option.isSome_some, Option.isSome_some]
  · rfl

/-! ## Operations -/

/-- What is asked of a registry. -/
inductive Action
  | register (e : Endpoint)
  | unregister (id : String)
  | update (id : String) (u : EndpointUpdate)
  | clear

/-- Why an operation is refused, if it is, and the registry after it. -/
def perform (r : Registry) : Action → Option RegistryError × Registry
  | .register e =>
    match r.register e with
    | .error error => (some error, r)
    | .ok r => (none, r)
  | .unregister id =>
    match r.unregister id with
    | .error error => (some error, r)
    | .ok (_, r) => (none, r)
  | .update id u =>
    match r.update id u with
    | .error error => (some error, r)
    | .ok (_, r) => (none, r)
  | .clear => (none, empty)

/-- The registry after operations, those that are refused included. -/
def run (r : Registry) (actions : List Action) : Registry :=
  actions.foldl (fun r a => (r.perform a).2) r

/-- What an operation needs: a new id and an endpoint that can be served, or an id that is known, with a
definition that can still be served after an update. -/
def Accepts (r : Registry) : Action → Prop
  | .register e => e.Valid ∧ r.get? e.id = none
  | .unregister id => r.get? id ≠ none
  | .update id u => ∃ old, r.get? id = some old ∧ (old.apply u).Valid
  | .clear => True

/-- Why an operation is refused. -/
def Refuses (r : Registry) : Action → RegistryError → Prop
  | .register e, error =>
    (∃ flaw, e.flaw? = some flaw ∧ error = .invalid e.id flaw) ∨
      e.Valid ∧ r.get? e.id ≠ none ∧ error = .duplicate e.id
  | .unregister id, error => r.get? id = none ∧ error = .notFound id
  | .update id u, error =>
    (r.get? id = none ∧ error = .notFound id) ∨
      ∃ old flaw, r.get? id = some old ∧ (old.apply u).flaw? = some flaw ∧ error = .invalid old.id flaw
  | .clear, _ => False

/-- What an operation that is accepted makes of the definition under an id. -/
def Action.effect (look : String → Option Endpoint) : Action → String → Option Endpoint
  | .register e, k => if e.id = k then some e else look k
  | .unregister id, k => if id = k then none else look k
  | .update id u, k => if id = k then (look k).map (·.apply u) else look k
  | .clear, _ => none

variable {r r' : Registry}

/-- An operation is accepted and has its effect, or it is refused and nothing changes. -/
theorem perform_cases (r : Registry) (a : Action) :
    (r.Accepts a ∧ (r.perform a).1 = none ∧ ∀ k, (r.perform a).2.get? k = a.effect r.get? k) ∨
      ∃ error, r.Refuses a error ∧ r.perform a = (some error, r) := by
  cases a with
  | register e =>
    simp only [perform]
    cases hreg : r.register e with
    | ok r' =>
      obtain ⟨hflaw, hnew, rfl⟩ := register_eq_ok hreg
      exact .inl ⟨⟨hflaw, hnew⟩, rfl, fun k => Dict.get?_insert ..⟩
    | error error =>
      refine .inr ⟨error, ?_, rfl⟩
      unfold register at hreg
      cases hflaw : e.flaw? with
      | some flaw =>
        rw [hflaw] at hreg
        cases hreg
        exact .inl ⟨flaw, hflaw, rfl⟩
      | none =>
        simp only [hflaw] at hreg
        split at hreg
        · next hcontains =>
          cases hreg
          exact .inr ⟨hflaw, contains_iff.1 hcontains, rfl⟩
        · cases hreg
  | unregister id =>
    simp only [perform]
    cases hun : r.unregister id with
    | ok removed =>
      obtain ⟨e, r'⟩ := removed
      obtain ⟨hget, rfl⟩ := unregister_eq_ok hun
      have hknown : r.get? id ≠ none := hget ▸ Option.some_ne_none e
      exact .inl ⟨hknown, rfl, fun k => Dict.get?_erase ..⟩
    | error error =>
      refine .inr ⟨error, ?_, rfl⟩
      unfold unregister at hun
      cases hget : r.get? id with
      | none =>
        rw [hget] at hun
        cases hun
        exact ⟨hget, rfl⟩
      | some e =>
        rw [hget] at hun
        cases hun
  | update id u =>
    simp only [perform]
    cases hup : r.update id u with
    | ok updated =>
      obtain ⟨e, r'⟩ := updated
      obtain ⟨old, hold, rfl, hflaw, rfl⟩ := update_eq_ok hup
      refine .inl ⟨⟨old, hold, hflaw⟩, rfl, fun k => ?_⟩
      rw [get?, Dict.get?_insert]
      simp only [Action.effect]
      split
      · next hk => rw [← hk, hold, Option.map_some]
      · rfl
    | error error =>
      refine .inr ⟨error, ?_, rfl⟩
      unfold update at hup
      cases hget : r.get? id with
      | none =>
        rw [hget] at hup
        cases hup
        exact .inl ⟨hget, rfl⟩
      | some old =>
        simp only [hget] at hup
        cases hflaw : (old.apply u).flaw? with
        | none =>
          rw [hflaw] at hup
          cases hup
        | some flaw =>
          rw [hflaw] at hup
          cases hup
          exact .inr ⟨old, flaw, hget, hflaw, rfl⟩
  | clear => exact .inl ⟨trivial, rfl, fun _ => rfl⟩

/-! ## Endpoints under their own ids -/

/-- Every endpoint is listed under its own id and can be served. -/
def Valid (r : Registry) : Prop := ∀ id e, r.get? id = some e → e.id = id ∧ e.flaw? = none

theorem valid_empty : empty.Valid := by
  intro id e he
  cases he

theorem Valid.perform (h : r.Valid) (a : Action) : (r.perform a).2.Valid := by
  obtain ⟨haccepts, -, heffect⟩ | ⟨error, -, heq⟩ := r.perform_cases a
  · intro k e hk
    rw [heffect] at hk
    cases a with
    | register e' =>
      simp only [Action.effect] at hk
      split at hk
      · next hid =>
        cases hk
        exact ⟨hid, haccepts.1⟩
      · exact h k e hk
    | unregister id =>
      simp only [Action.effect] at hk
      split at hk
      · cases hk
      · exact h k e hk
    | update id u =>
      simp only [Action.effect] at hk
      split at hk
      · next hid =>
        obtain ⟨old, hold, hflaw⟩ := haccepts
        rw [← hid, hold] at hk
        cases hk
        exact ⟨(h id old hold).1.trans hid, hflaw⟩
      · exact h k e hk
    | clear => cases hk
  · rw [heq]
    exact h

theorem valid_run (h : r.Valid) (actions : List Action) : (r.run actions).Valid := by
  induction actions generalizing r with
  | nil => exact h
  | cons a actions ih => exact ih (h.perform a)

theorem Valid.register (h : r.Valid) {e : Endpoint} (hreg : r.register e = .ok r') : r'.Valid := by
  have hperform := h.perform (.register e)
  rwa [Registry.perform, hreg] at hperform

theorem Valid.update (h : r.Valid) {id : String} {u : EndpointUpdate} {e : Endpoint}
    (hup : r.update id u = .ok (e, r')) : r'.Valid := by
  have hperform := h.perform (.update id u)
  rwa [Registry.perform, hup] at hperform

theorem Valid.unregister (h : r.Valid) {id : String} {e : Endpoint}
    (hun : r.unregister id = .ok (e, r')) : r'.Valid := by
  have hperform := h.perform (.unregister id)
  rwa [Registry.perform, hun] at hperform

theorem Valid.map_id (h : r.Valid) : r.list.map (·.id) = r.ids := by
  rw [list, Dict.values, ids, Dict.keys, List.map_map]
  refine List.map_congr_left fun m hm => ?_
  exact (h m.1 m.2 (Dict.get?_eq_some_iff.2 hm)).1

theorem Valid.mem_list (h : r.Valid) {e : Endpoint} : e ∈ r.list ↔ r.get? e.id = some e := by
  rw [list, Dict.values, List.mem_map, get?, Dict.get?_eq_some_iff]
  constructor
  · rintro ⟨⟨k, e'⟩, hmem, rfl⟩
    have hid := (h k e' (Dict.get?_eq_some_iff.2 hmem)).1
    exact hid ▸ hmem
  · exact fun hmem => ⟨(e.id, e), hmem, rfl⟩

theorem Valid.flaw?_of_mem (h : r.Valid) {e : Endpoint} (he : e ∈ r.list) : e.flaw? = none :=
  (h e.id e (h.mem_list.1 he)).2

theorem Valid.coherent (h : r.Valid) : r.Coherent where
  ascending := List.pairwise_map.2 r.endpoints.ascending
  ids_list := h.map_id
  mem_list _ := h.mem_list
  mem_ids _ := Registry.mem_ids.trans contains_iff.symm
  contains_get _ := contains_iff.trans Option.ne_none_iff_exists'
  size_list := (List.length_map ..).symm

end Registry

end Egress
