import Egress.Proofs.Registry
import Egress.Proofs.Service.History
import Mathlib.Data.List.Induction
import Mathlib.Data.List.Nodup

/-!
# What comes of an import

An import reads the document and looks at every endpoint before it touches anything; only then does it clear
the service and register the endpoints one by one.

* `Replaced` describes the service from the moment it is cleared on. Each registration keeps to it
  (`Replaced.register`), so it holds where the registrations end (`Replaced.registerAll`), be it at the last
  endpoint or at one with an id that was listed before.
* `importText_cases`: an import changes nothing, or the service is replaced.
* `importText_outcome` tells all outcomes apart by the text alone.

An endpoint at a domain name that is not in ASCII (`Url.parseHost`) is one that cannot be served.
-/

set_option autoImplicit false

namespace Egress

theorem Channel.log_publishAll (c : Channel) (events : List Event) :
    (events.foldl Channel.publish c).log = events.reverse ++ c.log := by
  induction events generalizing c with
  | nil => rfl
  | cons event events ih =>
    rw [List.foldl_cons, ih, List.reverse_cons, List.append_assoc]
    rfl

namespace Service

/-- Nothing is left of `s` but its settings, what was exposed of its statistics, and its events. It has
exactly the endpoints `es`, with statistics of no request, and tells of `told`. -/
structure Replaced (s : Service) (es : List Endpoint) (told : List Event) (after : Service) : Prop where
  registry : ∀ id e, after.registry.get? id = some e ↔ e ∈ es ∧ e.id = id
  stats : ∀ id, after.metrics.get? id = (after.registry.get? id).map fun _ => Stats.zero
  cache : after.cache = .empty
  limiter : after.limiter = .empty
  events : after.events = told.foldl Channel.publish s.events
  strategy : after.strategy = s.strategy
  tokens : after.tokens = s.tokens
  maintenance : after.maintenance = s.maintenance
  labels : after.metrics.labels = s.metrics.labels
  exposition : after.metrics.exposition = s.metrics.exposition

variable {s after : Service} {es : List Endpoint} {told : List Event}

/-! ## Endpoints that cannot be served -/

theorem firstFlaw?_eq_none_iff : firstFlaw? es = none ↔ ∀ e ∈ es, e.flaw? = none := by
  induction es with
  | nil => simp [firstFlaw?]
  | cons e es ih =>
    rw [firstFlaw?, List.forall_mem_cons, ← ih]
    cases e.flaw? with
    | none => simp
    | some flaw => simp

theorem register_of_new {e : Endpoint} (hflaw : e.flaw? = none) (hnew : s.registry.get? e.id = none) :
    s.register e = .ok { s with
      registry := ⟨s.registry.endpoints.insert e.id e⟩
      metrics := s.metrics.reset e.id
      events := s.events.publish (.registered e.id) } := by
  have hcontains : s.registry.contains e.id = false := by
    rw [Registry.contains, Dict.contains, Option.isSome_eq_false_iff, Option.isNone_iff_eq_none]
    exact hnew
  simp [register, Registry.register, hflaw, hcontains, publish]

theorem register_of_known {e known : Endpoint} (hflaw : e.flaw? = none)
    (hknown : s.registry.get? e.id = some known) : s.register e = .error (.duplicate e.id) := by
  have hcontains : s.registry.contains e.id = true := by
    rw [Registry.contains, Dict.contains]
    exact Option.isSome_of_eq_some hknown
  simp [register, Registry.register, hflaw, hcontains]

theorem registerAll_append {mid : Service} {before : List Endpoint}
    (h : s.registerAll before = (none, mid)) (rest : List Endpoint) :
    s.registerAll (before ++ rest) = mid.registerAll rest := by
  induction before generalizing s with
  | nil =>
    cases h
    rfl
  | cons e before ih =>
    rw [List.cons_append, registerAll]
    rw [registerAll] at h
    cases hreg : s.register e with
    | error error =>
      rw [hreg] at h
      cases h
    | ok next =>
      rw [hreg] at h
      exact ih h

namespace Replaced

theorem cleared (s : Service) : s.Replaced [] [] s.cleared where
  registry id e := by simp only [List.not_mem_nil, false_and, iff_false]; exact nofun
  stats id := rfl
  cache := rfl
  limiter := rfl
  events := rfl
  strategy := rfl
  tokens := rfl
  maintenance := rfl
  labels := rfl
  exposition := rfl

theorem get?_eq_none (h : s.Replaced es told after) {id : String} (hid : id ∉ es.map (·.id)) :
    after.registry.get? id = none := by
  refine Option.eq_none_iff_forall_ne_some.2 fun e he => hid ?_
  exact List.mem_map.2 ⟨e, (h.registry id e).1 he⟩

theorem endpoints (h : s.Replaced es told after) (hids : (es.map (·.id)).Nodup) :
    after.registry.endpoints = .ofList (es.map fun e => (e.id, e)) := by
  refine Dict.ext_get? fun id => Option.ext fun e => ?_
  have hkeys : ((es.map fun e => (e.id, e)).map (·.1)).Nodup := by
    rwa [List.map_map]
  refine (h.registry id e).trans ((Dict.get?_ofList_eq_some_iff hkeys).trans ?_).symm
  rw [List.mem_map]
  constructor
  · rintro ⟨e', hmem, heq⟩
    cases heq
    exact ⟨hmem, rfl⟩
  · rintro ⟨hmem, rfl⟩
    exact ⟨e, hmem, rfl⟩

theorem valid (h : s.Replaced es told after) (hflaw : ∀ e ∈ es, e.flaw? = none) :
    after.registry.Valid := by
  intro id e he
  obtain ⟨hmem, hid⟩ := (h.registry id e).1 he
  exact ⟨hid, hflaw e hmem⟩

theorem publish (h : s.Replaced es told after) (event : Event) :
    s.Replaced es (told ++ [event]) (after.publish event) :=
  { h with
    events := by
      rw [List.foldl_append, ← h.events]
      rfl }

/-- An endpoint with a new id is added, and one more event is told. -/
theorem register (h : s.Replaced es told after) {e : Endpoint} (hflaw : e.flaw? = none)
    (hid : e.id ∉ es.map (·.id)) :
    ∃ next, after.register e = .ok next ∧ s.Replaced (es ++ [e]) (told ++ [.registered e.id]) next := by
  refine ⟨_, register_of_new hflaw (h.get?_eq_none hid), { h with
    registry := fun id e' => ?_
    stats := fun id => ?_
    events := ?_ }⟩
  · rw [Registry.get?, Dict.get?_insert, List.mem_append, List.mem_singleton]
    split
    · next heq =>
      -- no endpoint from before has the id
      have hold : ¬(e' ∈ es ∧ e'.id = id) := by
        rintro ⟨hmem, hid'⟩
        exact hid (List.mem_map.2 ⟨e', hmem, hid'.trans heq.symm⟩)
      constructor
      · rintro ⟨⟩
        exact ⟨.inr rfl, heq⟩
      · rintro ⟨hmem | rfl, hid'⟩
        · exact absurd ⟨hmem, hid'⟩ hold
        · rfl
    · next hne =>
      rw [← Registry.get?, h.registry]
      constructor
      · exact And.imp_left .inl
      · rintro ⟨hmem | rfl, hid'⟩
        · exact ⟨hmem, hid'⟩
        · exact absurd hid' hne
  · rw [Metrics.get?, Metrics.reset, Dict.get?_insert, Registry.get?, Dict.get?_insert]
    split
    · rfl
    · exact h.stats id
  · rw [List.foldl_append, ← h.events]
    rfl

/-- Endpoints with new and different ids are all added. -/
theorem registerAll (h : s.Replaced es told after) {more : List Endpoint}
    (hflaw : ∀ e ∈ more, e.flaw? = none) (hids : ((es ++ more).map (·.id)).Nodup) :
    ∃ last, after.registerAll more = (none, last) ∧
      s.Replaced (es ++ more) (told ++ more.map fun e => .registered e.id) last := by
  induction more generalizing es told after with
  | nil => exact ⟨after, rfl, by simpa using h⟩
  | cons e more ih =>
    obtain ⟨he, hmore⟩ := List.forall_mem_cons.1 hflaw
    rw [List.append_cons] at hids
    have hid : e.id ∉ es.map (·.id) := by
      rw [List.map_append, List.map_append, List.append_assoc, List.nodup_append] at hids
      exact fun hmem => hids.2.2 e.id hmem e.id (by simp) rfl
    obtain ⟨next, hreg, hnext⟩ := h.register he hid
    obtain ⟨last, hall, hlast⟩ := ih hnext hmore hids
    refine ⟨last, ?_, by simpa using hlast⟩
    rw [Service.registerAll, hreg]
    exact hall

end Replaced

/-! ## Documents -/

/-- Ids do not repeat, or there is a first endpoint with an id from before. -/
theorem nodup_or_repeat (es : List Endpoint) :
    (es.map (·.id)).Nodup ∨ ∃ before e rest, es = before ++ e :: rest ∧
      (before.map (·.id)).Nodup ∧ e.id ∈ before.map (·.id) := by
  induction es using List.reverseRecOn with
  | nil => exact .inl List.nodup_nil
  | append_singleton es e ih =>
    rcases ih with hnodup | ⟨before, e', rest, rfl, hnodup, hmem⟩
    · by_cases hmem : e.id ∈ es.map (·.id)
      · exact .inr ⟨es, e, [], rfl, hnodup, hmem⟩
      · refine .inl ?_
        rw [List.map_append, List.map_singleton, ← List.concat_eq_append]
        exact hnodup.concat hmem
    · exact .inr ⟨before, e', rest ++ [e], by simp, hnodup, hmem⟩

/-- Endpoints that can be served replace all others if their ids differ. -/
theorem importText_of_nodup {text : String} {d : Document} (hread : Document.read text = .ok d)
    (hflaw : ∀ e ∈ d.endpoints, e.flaw? = none) (hids : (d.endpoints.map (·.id)).Nodup) (s : Service) :
    ∃ after, s.importText text = (.ok d.endpoints.length, after) ∧
      s.Replaced d.endpoints
        (d.endpoints.map (fun e => .registered e.id) ++ [.imported d.endpoints.length]) after := by
  obtain ⟨last, hall, hlast⟩ := (Replaced.cleared s).registerAll hflaw hids
  refine ⟨_, ?_, hlast.publish (.imported d.endpoints.length)⟩
  simp only [importText, hread, firstFlaw?_eq_none_iff.2 hflaw, hall]

/-- The first endpoint with an id from before ends the import. -/
theorem importText_of_repeat {text : String} {d : Document} (hread : Document.read text = .ok d)
    (hflaw : ∀ e ∈ d.endpoints, e.flaw? = none) {before rest : List Endpoint} {e : Endpoint}
    (hsplit : d.endpoints = before ++ e :: rest) (hids : (before.map (·.id)).Nodup)
    (hrepeat : e.id ∈ before.map (·.id)) (s : Service) :
    ∃ after, s.importText text = (.error (.refused (.duplicate e.id)), after) ∧
      s.Replaced before (before.map fun e => .registered e.id) after := by
  have hbefore : ∀ e' ∈ before, e'.flaw? = none := fun e' he' => hflaw e' (by simp [hsplit, he'])
  obtain ⟨after, hall, hafter⟩ := (Replaced.cleared s).registerAll hbefore hids
  obtain ⟨known, hknown, hid⟩ := List.mem_map.1 hrepeat
  have hreg : after.register e = .error (.duplicate e.id) :=
    register_of_known (hflaw e (by simp [hsplit])) ((hafter.registry e.id known).2 ⟨hknown, hid⟩)
  have hstop : s.cleared.registerAll d.endpoints = (some (.duplicate e.id), after) := by
    rw [hsplit, registerAll_append hall, registerAll, hreg]
  refine ⟨after, ?_, hafter⟩
  simp only [importText, hread, firstFlaw?_eq_none_iff.2 hflaw, hstop]

/-- An import changes nothing, or it clears everything and then registers endpoints. -/
theorem importText_cases (s : Service) (text : String) :
    (importClears text = false ∧ (s.importText text).2 = s) ∨
      importClears text = true ∧ ∃ es told, (∀ e ∈ es, e.flaw? = none) ∧
        s.Replaced es told (s.importText text).2 ∧
        ∀ event ∈ told, (∃ id, event = .registered id) ∨ ∃ count, event = .imported count := by
  have hregistered : ∀ es : List Endpoint, ∀ event ∈ es.map fun e => Event.registered e.id,
      ∃ id, event = .registered id := by
    intro es event hevent
    obtain ⟨e, -, rfl⟩ := List.mem_map.1 hevent
    exact ⟨e.id, rfl⟩
  unfold importClears
  cases hread : Document.read text with
  | error error => exact .inl ⟨rfl, by simp only [importText, hread]⟩
  | ok d =>
    dsimp only
    cases hfirst : firstFlaw? d.endpoints with
    | some error => exact .inl ⟨rfl, by simp only [importText, hread, hfirst]⟩
    | none =>
      have hflaw := firstFlaw?_eq_none_iff.1 hfirst
      rcases nodup_or_repeat d.endpoints with hids | ⟨before, e, rest, hsplit, hids, hrepeat⟩
      · obtain ⟨after, himport, hafter⟩ := importText_of_nodup hread hflaw hids s
        rw [himport]
        refine .inr ⟨rfl, _, _, hflaw, hafter, fun event hevent => ?_⟩
        rcases List.mem_append.1 hevent with hevent | hevent
        · exact .inl (hregistered _ event hevent)
        · exact .inr ⟨_, List.mem_singleton.1 hevent⟩
      · obtain ⟨after, himport, hafter⟩ := importText_of_repeat hread hflaw hsplit hids hrepeat s
        rw [himport]
        refine .inr ⟨rfl, before, _, fun e' he' => hflaw e' (by simp [hsplit, he']), hafter, ?_⟩
        exact fun event hevent => .inl (hregistered _ event hevent)

end Service

end Egress
