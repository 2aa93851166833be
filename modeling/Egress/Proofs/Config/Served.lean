import Egress.Cli.Program
import Egress.Proofs.Service.Import

/-!
# A configuration that passes its check is served

The check of a configuration goes over the endpoints and remembers their ids; its service registers the endpoints
one after another. Neither knows of the other, but both come to the same end.

* `Fit`: endpoints that can be served side by side. `Misfit` says why an endpoint is not taken in after others,
  in the words of the check and in those of the registry.
* `fit_or_misfit`: endpoints are fit, or there is a first one that is not taken in.
* `endpointsFlaw?_of_fit`, `endpointsFlaw?_of_misfit` and `service_of_fit`, `service_of_misfit`: what the check and
  the registrations come to in either case.
* `views_eq`: endpoints in the order of their ids, as lists show them.
* `flaw_iff_refused` puts them together, with what it means for commands that load a configuration.

Both refuse an endpoint at a domain name that is not in ASCII (`Url.parseHost`), for the same reason.
-/

set_option autoImplicit false

namespace Egress

namespace Config

/-- Endpoints that can be served side by side. -/
structure Fit (es : List Endpoint) : Prop where
  served : ∀ e ∈ es, e.flaw? = none
  distinct : (es.map (·.id)).Nodup

/-- Why an endpoint is not taken in after others, as the check says it and as the registry does. -/
inductive Misfit (before : List Endpoint) (e : Endpoint) : ConfigFlaw → RegistryError → Prop
  | flawed {flaw : Flaw} : e.flaw? = some flaw →
      Misfit before e (.endpoint before.length flaw) (.invalid e.id flaw)
  | repeated : e.flaw? = none → e.id ∈ before.map (·.id) →
      Misfit before e (.repeatedId before.length e.id) (.duplicate e.id)

variable {c : Config} {es before rest : List Endpoint} {e : Endpoint} {flaw : ConfigFlaw}
  {error : RegistryError}

/-- The setting at fault is the field that cannot be served with, or the id if it is there already. -/
theorem Misfit.field (h : Misfit before e flaw error) :
    flaw.field = "endpoints[" ++ toString before.length ++ "]." ++ e.flaw?.elim "id" Flaw.field := by
  cases h with
  | flawed hflaw =>
    rw [hflaw]
    rfl
  | repeated hflaw _ =>
    rw [hflaw]
    rfl

theorem fit_or_misfit (es : List Endpoint) :
    Fit es ∨ ∃ before e rest flaw error, es = before ++ e :: rest ∧ Fit before ∧
      Misfit before e flaw error := by
  induction es using List.reverseRecOn with
  | nil => exact .inl ⟨by simp, List.nodup_nil⟩
  | append_singleton es e ih =>
    rcases ih with hfit | ⟨before, e', rest, flaw, error, rfl, hfit, hmisfit⟩
    · cases hflaw : e.flaw? with
      | some flaw => exact .inr ⟨es, e, [], _, _, rfl, hfit, .flawed hflaw⟩
      | none =>
        by_cases hid : e.id ∈ es.map (·.id)
        · exact .inr ⟨es, e, [], _, _, rfl, hfit, .repeated hflaw hid⟩
        · refine .inl ⟨?_, ?_⟩
          · intro e' he'
            rcases List.mem_append.1 he' with he' | he'
            · exact hfit.served e' he'
            · rw [List.mem_singleton.1 he']
              exact hflaw
          · rw [List.map_append, List.map_singleton, ← List.concat_eq_append]
            exact hfit.distinct.concat hid
    · exact .inr ⟨before, e', rest ++ [e], flaw, error, by simp, hfit, hmisfit⟩

/-! ## The check -/

/-- The check goes past endpoints that are fit, and remembers their ids. -/
theorem endpointsFlaw?_append {seen : List String} (hfit : Fit before)
    (hseen : ∀ e ∈ before, e.id ∉ seen) (index : Nat) :
    endpointsFlaw? index seen (before ++ rest) =
      endpointsFlaw? (index + before.length) ((before.map (·.id)).reverse ++ seen) rest := by
  induction before generalizing index seen with
  | nil => rfl
  | cons e before ih =>
    obtain ⟨hserved, hdistinct⟩ := hfit
    obtain ⟨hflaw, hserved⟩ := List.forall_mem_cons.1 hserved
    obtain ⟨hid, hseen⟩ := List.forall_mem_cons.1 hseen
    obtain ⟨hnew, hdistinct⟩ := List.nodup_cons.1 hdistinct
    have hseen' : ∀ e' ∈ before, e'.id ∉ e.id :: seen := by
      intro e' he' hmem
      rcases List.mem_cons.1 hmem with heq | hmem
      · exact hnew (List.mem_map.2 ⟨e', he', heq⟩)
      · exact hseen e' he' hmem
    rw [List.cons_append, endpointsFlaw?, hflaw]
    simp only [List.contains_iff_mem, hid, if_false]
    rw [ih ⟨hserved, hdistinct⟩ hseen']
    simp only [List.length_cons, List.map_cons, List.reverse_cons, List.append_assoc, List.singleton_append]
    rw [Nat.add_assoc, Nat.add_comm 1]

theorem endpointsFlaw?_of_fit (h : Fit es) : endpointsFlaw? 0 [] es = none := by
  have hseen : ∀ e ∈ es, e.id ∉ [] := by simp
  rw [← List.append_nil es, endpointsFlaw?_append h hseen, endpointsFlaw?]

theorem endpointsFlaw?_of_misfit (hfit : Fit before) (h : Misfit before e flaw error) :
    endpointsFlaw? 0 [] (before ++ e :: rest) = some flaw := by
  rw [endpointsFlaw?_append hfit (by simp), Nat.zero_add, endpointsFlaw?]
  cases h with
  | flawed hflaw => rw [hflaw]
  | repeated hflaw hid =>
    rw [hflaw]
    simp [List.mem_map.1 hid]

/-- Endpoints pass the check exactly if they are fit. -/
theorem endpointsFlaw?_eq_none_iff : endpointsFlaw? 0 [] es = none ↔ Fit es := by
  refine ⟨fun h => ?_, endpointsFlaw?_of_fit⟩
  rcases fit_or_misfit es with hfit | ⟨before, e, rest, flaw, error, rfl, hfit, hmisfit⟩
  · exact hfit
  · rw [endpointsFlaw?_of_misfit hfit hmisfit] at h
    cases h

theorem fit_of_flaw? (h : c.flaw? = none) : Fit c.endpoints := by
  rw [← endpointsFlaw?_eq_none_iff]
  unfold flaw? at h
  split at h
  · cases h
  · split at h
    · cases h
    · split at h
      · cases h
      · exact h

/-! ## The registrations -/

/-- The service of a configuration before its endpoints are registered. -/
def blank (c : Config) : Service := .create c.keyStrategy none (.create Channel.defaultCapacity 0)

/-- The service has exactly these endpoints. -/
def Serves (s : Service) (es : List Endpoint) : Prop :=
  ∀ id e, s.registry.get? id = some e ↔ e ∈ es ∧ e.id = id

theorem registerAll_of_fit (c : Config) (h : Fit es) :
    ∃ s, c.blank.registerAll es = (none, s) ∧ Serves s es := by
  have hcleared : c.blank.cleared = c.blank := rfl
  obtain ⟨s, hall, hs⟩ := (Service.Replaced.cleared c.blank).registerAll h.served h.distinct
  rw [hcleared] at hall
  exact ⟨s, hall, hs.registry⟩

theorem register_of_misfit {s : Service} (hs : Serves s before) (h : Misfit before e flaw error) :
    s.register e = .error error := by
  cases h with
  | flawed hflaw => simp [Service.register, Registry.register, hflaw]
  | repeated hflaw hid =>
    obtain ⟨known, hknown, heq⟩ := List.mem_map.1 hid
    exact Service.register_of_known hflaw ((hs e.id known).2 ⟨hknown, heq⟩)

theorem service_of_registerAll (hagent : Offline.isHeaderValue c.client.userAgent = true)
    {error? : Option RegistryError} {s : Service} (h : c.blank.registerAll c.endpoints = (error?, s)) :
    c.service = error?.elim (.ok s) (.error <| .refused ·) := by
  unfold blank at h
  simp only [service, hagent, if_true, h]
  cases error? <;> rfl

/-- Endpoints that are fit are all registered. -/
theorem service_of_fit (hagent : Offline.isHeaderValue c.client.userAgent = true) (h : Fit c.endpoints) :
    ∃ s, c.service = .ok s ∧ Serves s c.endpoints := by
  obtain ⟨s, hall, hs⟩ := registerAll_of_fit c h
  exact ⟨s, service_of_registerAll hagent hall, hs⟩

/-- The first endpoint that is not taken in ends the registrations, with those before it in place. -/
theorem service_of_misfit (hagent : Offline.isHeaderValue c.client.userAgent = true)
    (hsplit : c.endpoints = before ++ e :: rest) (hfit : Fit before) (h : Misfit before e flaw error) :
    ∃ s, ({ c with endpoints := before } : Config).service = .ok s ∧ s.register e = .error error ∧
      c.service = .error (.refused error) := by
  obtain ⟨s, hall, hs⟩ := registerAll_of_fit c hfit
  have hregister := register_of_misfit hs h
  have hstop : c.blank.registerAll c.endpoints = (some error, s) := by
    rw [hsplit, Service.registerAll_append hall, Service.registerAll, hregister]
  refine ⟨s, ?_, hregister, service_of_registerAll hagent hstop⟩
  exact service_of_registerAll (c := { c with endpoints := before }) hagent hall

/-! ## The order of lists -/

theorem Serves.valid {s : Service} (hs : Serves s es) (h : Fit es) : s.registry.Valid := by
  intro id e he
  obtain ⟨hmem, hid⟩ := (hs id e).1 he
  exact ⟨hid, h.served e hmem⟩

/-- The service lists the endpoints, ascending by id. -/
theorem Serves.list {s : Service} (hs : Serves s es) (h : Fit es) :
    s.registry.list.Perm es ∧ s.registry.list.Pairwise fun a b => a.id < b.id := by
  have hcoherent := (hs.valid h).coherent
  have hordered : s.registry.list.Pairwise fun a b => a.id < b.id := by
    rw [← List.pairwise_map, hcoherent.ids_list]
    exact hcoherent.ascending
  refine ⟨?_, hordered⟩
  have hlist : s.registry.list.Nodup := by
    refine hordered.imp ?_
    rintro a _ hlt rfl
    exact String.lt_irrefl _ hlt
  refine (List.perm_ext_iff_of_nodup hlist (List.Nodup.of_map _ h.distinct)).2 fun e => ?_
  rw [hcoherent.mem_list, hs]
  simp

/-- Lists that are shown have the endpoints in the order in which the service lists them. -/
theorem views_eq {listed : List Endpoint} (hperm : listed.Perm es)
    (hordered : listed.Pairwise fun a b => a.id < b.id) : listed.map Endpoint.view = Cli.views es := by
  let le := fun a b : EndpointView => !decide (b.id < a.id)
  have htrans : ∀ a b c : EndpointView, le a b = true → le b c = true → le a c = true := by
    intro a b c hab hbc
    simp only [le, Bool.not_eq_true', decide_eq_false_iff_not, String.not_lt] at hab hbc ⊢
    exact String.le_trans hab hbc
  have htotal : ∀ a b : EndpointView, (le a b || le b a) = true := by
    intro a b
    simp only [le, Bool.or_eq_true, Bool.not_eq_true', decide_eq_false_iff_not, String.not_lt]
    exact String.le_total a.id b.id
  have hsorted : (Cli.views es).Pairwise fun a b => le a b = true :=
    List.pairwise_mergeSort htrans htotal (es.map Endpoint.view)
  have hlisted : (listed.map Endpoint.view).Pairwise fun a b => le a b = true := by
    refine List.pairwise_map.2 (hordered.imp ?_)
    intro a b hlt
    simp only [le, Bool.not_eq_true', decide_eq_false_iff_not, Endpoint.view]
    exact String.lt_asymm hlt
  have hviews : (listed.map Endpoint.view).Perm (Cli.views es) :=
    (hperm.map _).trans (List.mergeSort_perm (es.map Endpoint.view) le).symm
  have hids : (listed.map (·.id)).Nodup := by
    refine List.pairwise_map.2 (hordered.imp ?_)
    intro a b hlt heq
    exact String.lt_irrefl _ (heq ▸ hlt)
  refine hviews.eq_of_pairwise ?_ hlisted hsorted
  -- of one id there is one endpoint, so the order of the ids leaves no choice
  intro a b ha hb hab hba
  obtain ⟨x, hx, rfl⟩ := List.mem_map.1 ha
  obtain ⟨y, hy, rfl⟩ := List.mem_map.1 (hviews.mem_iff.2 hb)
  simp only [le, Bool.not_eq_true', decide_eq_false_iff_not, String.not_lt, Endpoint.view] at hab hba
  rw [List.inj_on_of_nodup_map hids hx hy (String.le_antisymm hab hba)]

/-! ## Loaded configurations -/

/-- A configuration that is loaded has passed its check. -/
theorem loadConfig_cases (env : Dict String) (path : String) (file : FileState) :
    (∃ error, Cli.loadConfig env path file = .error (.unloaded path error)) ∨
      (∃ flaw, Cli.loadConfig env path file = .error (.invalid flaw)) ∨
      ∃ c, Cli.loadConfig env path file = .ok c ∧ Fit c.endpoints := by
  unfold Cli.loadConfig
  cases load path file with
  | error error => exact .inl ⟨error, rfl⟩
  | ok loaded =>
    refine .inr ?_
    simp only [Except.mapError, bind, Except.bind]
    cases hflaw : (loaded.withEnvironment env).flaw? with
    | some flaw => exact .inl ⟨flaw, rfl⟩
    | none => exact .inr ⟨_, rfl, fit_of_flaw? hflaw⟩

/-- The service of a configuration that is loaded has all its endpoints. -/
theorem service_of_loadConfig {env : Dict String} {path : String} {file : FileState}
    (hload : Cli.loadConfig env path file = .ok c)
    (hagent : Offline.isHeaderValue c.client.userAgent = true) :
    ∃ s, c.service = .ok s ∧ Cli.loadService env path file = .ok s := by
  rcases loadConfig_cases env path file with ⟨error, h⟩ | ⟨flaw, h⟩ | ⟨c', h, hfit⟩
  · rw [h] at hload
    cases hload
  · rw [h] at hload
    cases hload
  · rw [h] at hload
    cases hload
    obtain ⟨s, hs, -⟩ := service_of_fit hagent hfit
    refine ⟨s, hs, ?_⟩
    simp [Cli.loadService, h, hs, bind, Except.bind, Except.mapError]

/-- Once a configuration is loaded, none of its endpoints is refused. -/
theorem loadService_ne_refused (env : Dict String) (path : String) (file : FileState)
    (error : RegistryError) : Cli.loadService env path file ≠ .error (.unserved (.refused error)) := by
  rcases loadConfig_cases env path file with ⟨error', h⟩ | ⟨flaw, h⟩ | ⟨c, h, -⟩
  · simp [Cli.loadService, h, bind, Except.bind]
  · simp [Cli.loadService, h, bind, Except.bind]
  · cases hagent : Offline.isHeaderValue c.client.userAgent with
    | false =>
      have hs : c.service = .error .userAgent := by simp [service, hagent]
      simp [Cli.loadService, h, hs, bind, Except.bind, Except.mapError]
    | true =>
      obtain ⟨s, -, hs⟩ := service_of_loadConfig h hagent
      rw [hs]
      exact nofun

theorem run_exportConfig (env : Dict String) (path : String) (file : FileState) :
    (Cli.Command.exportConfig path).run env file =
      (Cli.loadService env path file).map fun s => .ofOutput s.document.render := by
  show (Cli.loadService env path file >>= fun s => pure (Cli.Result.ofOutput s.document.render)) = _
  cases Cli.loadService env path file <;> rfl

/-! ## Both together -/

/-- The check of the endpoints and the service agree. Either both take all endpoints, and the service lists them
ascending by id, which is the order in which they are shown; or both stop at the same first endpoint and for the
same reason, which the check says of the field at its position. Hence an export of a configuration that was
loaded fails for no endpoint. -/
theorem flaw_iff_refused :
    (∀ c : Config, Offline.isHeaderValue c.client.userAgent = true →
      (endpointsFlaw? 0 [] c.endpoints = none ↔ ∃ s, c.service = .ok s) ∧
      (∀ flaw, endpointsFlaw? 0 [] c.endpoints = some flaw →
        ∃ before e rest s error, c.endpoints = before ++ e :: rest ∧
          endpointsFlaw? 0 [] before = none ∧ ({ c with endpoints := before } : Config).service = .ok s ∧
          s.register e = .error error ∧ c.service = .error (.refused error) ∧ Misfit before e flaw error ∧
          flaw.field = "endpoints[" ++ toString before.length ++ "]." ++ e.flaw?.elim "id" Flaw.field) ∧
      ∀ s, c.service = .ok s →
        s.registry.list.Perm c.endpoints ∧ (s.registry.list.Pairwise fun a b => a.id < b.id) ∧
          s.registry.list.map Endpoint.view = Cli.views c.endpoints) ∧
    ∀ (env : Dict String) (path : String) (file : FileState),
      (∀ error, (Cli.Command.exportConfig path).run env file ≠ .error (.unserved (.refused error))) ∧
      ∀ c, Cli.loadConfig env path file = .ok c → Offline.isHeaderValue c.client.userAgent = true →
        ∃ s, c.service = .ok s ∧
          (Cli.Command.exportConfig path).run env file = .ok (.ofOutput s.document.render) := by
  refine ⟨fun c hagent => ?_, fun env path file => ⟨fun error h => ?_, fun c hload hagent => ?_⟩⟩
  · rcases fit_or_misfit c.endpoints with hfit | ⟨before, e, rest, flaw, error, hsplit, hfit, hmisfit⟩
    · have hnone := endpointsFlaw?_of_fit hfit
      obtain ⟨s, hs, hserves⟩ := service_of_fit hagent hfit
      refine ⟨iff_of_true hnone ⟨s, hs⟩, fun flaw hflaw => ?_, fun s' hs' => ?_⟩
      · rw [hnone] at hflaw
        cases hflaw
      · rw [hs] at hs'
        cases hs'
        obtain ⟨hperm, hordered⟩ := hserves.list hfit
        exact ⟨hperm, hordered, views_eq hperm hordered⟩
    · have hsome : endpointsFlaw? 0 [] c.endpoints = some flaw := hsplit ▸ endpointsFlaw?_of_misfit hfit hmisfit
      obtain ⟨s, hs, hregister, hrefused⟩ := service_of_misfit hagent hsplit hfit hmisfit
      refine ⟨iff_of_false ?_ ?_, fun flaw' hflaw' => ?_, fun s' hs' => ?_⟩
      · rw [hsome]
        exact nofun
      · rw [hrefused]
        exact nofun
      · rw [hsome] at hflaw'
        cases hflaw'
        exact ⟨before, e, rest, s, error, hsplit, endpointsFlaw?_of_fit hfit, hs, hregister, hrefused,
          hmisfit, hmisfit.field⟩
      · rw [hrefused] at hs'
        cases hs'
  · rw [run_exportConfig] at h
    cases hservice : Cli.loadService env path file with
    | error problem =>
      rw [hservice] at h
      cases h
      exact loadService_ne_refused env path file error hservice
    | ok s =>
      rw [hservice] at h
      cases h
  · obtain ⟨s, hs, hservice⟩ := service_of_loadConfig hload hagent
    refine ⟨s, hs, ?_⟩
    rw [run_exportConfig, hservice]
    rfl

/-- The endpoint of a file is listed and exported; a second one with its id is not taken in. -/
theorem flaw_iff_refused_repeatedId :
    let file : FileState :=
      .file "endpoints = [\x7b id = \"a\", name = \"A\", url = \"http://a/\" \x7d]".toUTF8.toList
    let repeating := { standard with endpoints := [.plain "a" "A" "http://a/", .plain "a" "B" "http://b/"] }
    (∃ c s, Cli.loadConfig ∅ "c" file = .ok c ∧ c.endpoints.map (·.id) = ["a"] ∧ c.service = .ok s ∧
      s.registry.list.Perm c.endpoints ∧
        (Cli.Command.exportConfig "c").run ∅ file = .ok (.ofOutput s.document.render)) ∧
      endpointsFlaw? 0 [] repeating.endpoints = some (.repeatedId 1 "a") ∧
      ∃ error, repeating.service = .error (.refused error) := by
  intro file repeating
  obtain ⟨hconfigs, hfiles⟩ := flaw_iff_refused
  constructor
  · have hloaded : (Cli.loadConfig ∅ "c" file).toOption.map
        (fun c => (c.endpoints.map (·.id), Offline.isHeaderValue c.client.userAgent)) = some (["a"], true) := by
      decide +kernel
    cases hload : Cli.loadConfig ∅ "c" file with
    | error problem =>
      rw [hload] at hloaded
      cases hloaded
    | ok c =>
      rw [hload] at hloaded
      obtain ⟨hids, hagent⟩ := Prod.mk.inj (Option.some.inj hloaded)
      obtain ⟨s, hs, hexport⟩ := (hfiles ∅ "c" file).2 c hload hagent
      exact ⟨c, s, rfl, hids, hs, ((hconfigs c hagent).2.2 s hs).1, hexport⟩
  · have hagent : Offline.isHeaderValue repeating.client.userAgent = true := by decide +kernel
    have hflaw : endpointsFlaw? 0 [] repeating.endpoints = some (.repeatedId 1 "a") := by decide +kernel
    obtain ⟨-, -, -, -, error, -, -, -, -, hrefused, -⟩ := (hconfigs repeating hagent).2.1 _ hflaw
    exact ⟨hflaw, error, hrefused⟩

end Config

end Egress
