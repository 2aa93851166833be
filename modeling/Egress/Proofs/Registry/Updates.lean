import Egress.Proofs.Registry
import Mathlib.Data.List.Induction

/-!
# Updates that follow each other

* `overlayAll`: several updates as one. `apply_overlayAll`: it does to an endpoint what they do one after another.
  `overlayAll_eq_lasts`: it has each field from the last update that sets it.
* `accepted`: of updates that are made one after another, those that the registry accepts.
  `updateAll_accepted`: only these count. `updateAll_cases`: what they leave registered.
* `updates_eq_overlayAll` puts them together: updates come to one, even if some of them are refused in between.

Updates to a URL at a domain name that is not in ASCII are among those that are refused (`Url.parseHost`).
-/

set_option autoImplicit false

namespace Egress

namespace EndpointUpdate

/-! ## Several updates as one -/

/-- Sets what any of the updates sets, as the last one that sets it has it. -/
def overlayAll (us : List EndpointUpdate) : EndpointUpdate := us.foldl overlay empty

/-- The value that the last of the updates to set a field gives it. -/
def last? {α : Type} (field : EndpointUpdate → Option α) (us : List EndpointUpdate) : Option α :=
  (us.filterMap field).getLast?

/-- The update whose fields are those of the last updates to set them. -/
def lasts (us : List EndpointUpdate) : EndpointUpdate where
  name := last? name us
  url := last? url us
  method := last? method us
  headers := last? headers us
  queryParams := last? queryParams us
  body := last? body us
  timeout := last? timeout us
  retries := last? retries us
  auth := last? auth us
  rateLimit := last? rateLimit us
  cache := last? cache us
  retryPolicy := last? retryPolicy us

theorem overlayAll_concat (us : List EndpointUpdate) (u : EndpointUpdate) :
    overlayAll (us ++ [u]) = (overlayAll us).overlay u := by
  rw [overlayAll, List.foldl_append]
  rfl

theorem last?_concat {α : Type} (field : EndpointUpdate → Option α) (us : List EndpointUpdate)
    (u : EndpointUpdate) : last? field (us ++ [u]) = (field u).or (last? field us) := by
  unfold last?
  rw [List.filterMap_append]
  cases hu : field u with
  | none => simp [hu]
  | some value => simp [hu]

/-- Each field comes from the last update that sets it. -/
theorem overlayAll_eq_lasts (us : List EndpointUpdate) : overlayAll us = lasts us := by
  induction us using List.reverseRecOn with
  | nil => rfl
  | append_singleton us u ih =>
    rw [overlayAll_concat, ih]
    simp only [overlay, lasts, last?_concat]

theorem apply_overlay (e : Endpoint) (first second : EndpointUpdate) :
    e.apply (first.overlay second) = (e.apply first).apply second := by
  simp only [Endpoint.apply, overlay, Option.or_assoc, Option.getD_or]

/-- One update does what several do one after another. -/
theorem apply_overlayAll (e : Endpoint) (us : List EndpointUpdate) :
    us.foldl Endpoint.apply e = e.apply (overlayAll us) := by
  induction us using List.reverseRecOn with
  | nil => rfl
  | append_singleton us u ih =>
    rw [List.foldl_append, ih, overlayAll_concat, apply_overlay]
    rfl

end EndpointUpdate

open EndpointUpdate

namespace Registry

/-! ## Updates of a registered endpoint -/

/-- Of updates that are made one after another, those that are accepted. -/
def accepted (r : Registry) (id : String) : List EndpointUpdate → List EndpointUpdate
  | [] => []
  | u :: us =>
    match r.update id u with
    | .ok (_, r') => u :: accepted r' id us
    | .error _ => accepted r id us

/-- The registry after updates that are made one after another. -/
def updateAll (r : Registry) (id : String) (us : List EndpointUpdate) : Registry :=
  r.run (us.map (.update id))

variable {r r' : Registry} {id : String} {u : EndpointUpdate} {e : Endpoint}

theorem update_of_served (hget : r.get? id = some e) (hflaw : (e.apply u).flaw? = none) :
    r.update id u = .ok (e.apply u, ⟨r.endpoints.insert id (e.apply u)⟩) := by
  simp only [update, hget, hflaw]

theorem update_of_flawed (hget : r.get? id = some e) {flaw : Flaw} (hflaw : (e.apply u).flaw? = some flaw) :
    r.update id u = .error (.invalid (e.apply u).id flaw) := by
  simp only [update, hget, hflaw]

theorem updateAll_cons_of_ok (h : r.update id u = .ok (e, r')) (us : List EndpointUpdate) :
    r.updateAll id (u :: us) = r'.updateAll id us ∧ r.accepted id (u :: us) = u :: r'.accepted id us := by
  constructor
  · simp only [updateAll, run, List.map_cons, List.foldl_cons, perform, h]
  · simp only [accepted, h]

theorem updateAll_cons_of_error {error : RegistryError} (h : r.update id u = .error error)
    (us : List EndpointUpdate) :
    r.updateAll id (u :: us) = r.updateAll id us ∧ r.accepted id (u :: us) = r.accepted id us := by
  constructor
  · simp only [updateAll, run, List.map_cons, List.foldl_cons, perform, h]
  · simp only [accepted, h]

/-- Updates that are refused are as good as never made. -/
theorem updateAll_accepted (r : Registry) (id : String) (us : List EndpointUpdate) :
    r.updateAll id (r.accepted id us) = r.updateAll id us ∧
      r.accepted id (r.accepted id us) = r.accepted id us := by
  induction us generalizing r with
  | nil => exact ⟨rfl, rfl⟩
  | cons u us ih =>
    cases hup : r.update id u with
    | ok updated =>
      obtain ⟨e, r'⟩ := updated
      obtain ⟨hafter, haccepted⟩ := updateAll_cons_of_ok hup us
      obtain ⟨hafter', haccepted'⟩ := updateAll_cons_of_ok hup (r'.accepted id us)
      rw [hafter, haccepted, hafter', haccepted', (ih r').1, (ih r').2]
      exact ⟨rfl, rfl⟩
    | error error =>
      obtain ⟨hafter, haccepted⟩ := updateAll_cons_of_error hup us
      rw [hafter, haccepted]
      exact ih r

/-- No update is accepted and nothing changes, or the definition is what the accepted ones make of it, and can
be served. -/
theorem updateAll_cases (r : Registry) (id : String) (us : List EndpointUpdate) :
    (r.accepted id us = [] ∧ r.updateAll id us = r) ∨
      ∃ e, r.get? id = some e ∧ (e.apply (overlayAll (r.accepted id us))).flaw? = none ∧
        r.updateAll id us = ⟨r.endpoints.insert id (e.apply (overlayAll (r.accepted id us)))⟩ := by
  induction us generalizing r with
  | nil => exact .inl ⟨rfl, rfl⟩
  | cons u us ih =>
    cases hup : r.update id u with
    | error error =>
      obtain ⟨hafter, haccepted⟩ := updateAll_cons_of_error hup us
      rw [hafter, haccepted]
      exact ih r
    | ok updated =>
      obtain ⟨e', r'⟩ := updated
      obtain ⟨hafter, haccepted⟩ := updateAll_cons_of_ok hup us
      obtain ⟨e, hget, rfl, hflaw, rfl⟩ := update_eq_ok hup
      rw [hafter, haccepted]
      refine .inr ⟨e, hget, ?_⟩
      rw [← apply_overlayAll, List.foldl_cons, apply_overlayAll]
      rcases ih ⟨r.endpoints.insert id (e.apply u)⟩ with ⟨hnone, hsame⟩ | ⟨e', hget', hflaw', hlast⟩
      · rw [hnone, hsame]
        exact ⟨hflaw, rfl⟩
      · rw [get?, Dict.get?_insert_self, Option.some.injEq] at hget'
        subst hget'
        rw [hlast, Dict.insert_insert]
        exact ⟨hflaw', rfl⟩

/-! ## Both together -/

/-- Updates of an endpoint that follow each other come to one, in which each field is as the last of them to set
it has it; none changes the id. Of updates of a registered endpoint those that are refused are as good as never
made, and the others come to one that the registry would have accepted as well, with the same result. -/
theorem updates_eq_overlayAll :
    (∀ (e : Endpoint) (us : List EndpointUpdate), us.foldl Endpoint.apply e = e.apply (overlayAll us) ∧
      overlayAll us = lasts us ∧ (us.foldl Endpoint.apply e).id = e.id) ∧
    ∀ (r : Registry) (id : String) (us : List EndpointUpdate),
      let made := r.accepted id us
      let after := r.updateAll id us
      (∀ k, after.get? k = if id = k then (r.get? k).map (·.apply (overlayAll made)) else r.get? k) ∧
      after = r.updateAll id made ∧ r.accepted id made = made ∧
      (made ≠ [] → ∃ e, r.update id (overlayAll made) = .ok (e, after) ∧ after.get? id = some e) := by
  refine ⟨fun e us => ⟨apply_overlayAll e us, overlayAll_eq_lasts us, ?_⟩, fun r id us => ?_⟩
  · rw [apply_overlayAll]
    rfl
  intro made after
  obtain ⟨hsame, hall⟩ := r.updateAll_accepted id us
  have hcases : (made = [] ∧ after = r) ∨ ∃ e, r.get? id = some e ∧
      (e.apply (overlayAll made)).flaw? = none ∧
        after = ⟨r.endpoints.insert id (e.apply (overlayAll made))⟩ := r.updateAll_cases id us
  refine ⟨fun k => ?_, hsame.symm, hall, fun hmade => ?_⟩
  · rcases hcases with ⟨hnone, hafter⟩ | ⟨e, hget, -, hafter⟩
    · rw [hnone, hafter]
      split
      · exact Option.map_id'.symm
      · rfl
    · rw [hafter, get?, Dict.get?_insert]
      split
      · next hid => rw [← hid, hget, Option.map_some]
      · rfl
  · rcases hcases with ⟨hnone, -⟩ | ⟨e, hget, hflaw, hafter⟩
    · exact absurd hnone hmade
    · refine ⟨e.apply (overlayAll made), ?_, ?_⟩
      · rw [hafter, update_of_served hget hflaw]
      · rw [hafter, get?, Dict.get?_insert_self]

/-- Of three updates the second one is refused; the others come to one that sets the URL as the first of them
does and the timeout as the last one does. -/
theorem updates_eq_overlayAll_refusedBetween :
    let e := Endpoint.plain "a" "A" "http://h/"
    let r : Registry := ⟨.ofList [("a", e)]⟩
    let us : List EndpointUpdate := [{ EndpointUpdate.empty with url := some "http://n/", timeout := some 5 },
      { EndpointUpdate.empty with timeout := some 0, name := some "B" },
      { EndpointUpdate.empty with timeout := some 7 }]
    let both := { EndpointUpdate.empty with url := some "http://n/", timeout := some 7 }
    r.accepted "a" us = [us[0], us[2]] ∧ overlayAll (r.accepted "a" us) = both ∧
      r.update "a" both = .ok ({ e with url := "http://n/", timeout := 7 }, r.updateAll "a" us) ∧
      (r.updateAll "a" us).get? "a" = some { e with url := "http://n/", timeout := 7 } := by
  intro e r us both
  have hfirst : (e.apply us[0]).flaw? = none := by decide +kernel
  have hsecond : (((e.apply us[0]).apply us[1]).flaw?).isSome = true := by decide +kernel
  have hthird : ((e.apply us[0]).apply us[2]).flaw? = none := by decide +kernel
  obtain ⟨flaw, hflaw⟩ := Option.isSome_iff_exists.1 hsecond
  have haccepted : r.accepted "a" us = [us[0], us[2]] := by
    have hstored := Dict.get?_insert_self r.endpoints "a" (e.apply us[0])
    have hrest := (updateAll_cons_of_error (update_of_flawed hstored hflaw) [us[2]]).2
    rw [(updateAll_cons_of_ok (update_of_served hstored hthird) []).2] at hrest
    exact (updateAll_cons_of_ok (update_of_served rfl hfirst) [us[1], us[2]]).2.trans
      (congrArg (us[0] :: ·) hrest)
  have hboth : overlayAll (r.accepted "a" us) = both := by
    rw [haccepted]
    rfl
  have hmade : r.accepted "a" us ≠ [] := by
    rw [haccepted]
    exact nofun
  obtain ⟨hget, -, -, hone⟩ := updates_eq_overlayAll.2 r "a" us
  obtain ⟨after, hup, hafter⟩ := hone hmade
  rw [hget, if_pos rfl, hboth] at hafter
  cases hafter
  rw [hboth] at hup
  refine ⟨haccepted, hboth, hup, ?_⟩
  rw [hget, if_pos rfl, hboth]
  rfl

end Registry

end Egress
