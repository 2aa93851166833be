import Egress.Call.Target
import Egress.Proofs.Limiter.Patience
import Egress.Proofs.Registry

/-!
# Registered endpoints can be served

What the registry takes in is checked once, when it is registered or updated. Calls rely on that later on: an
endpoint of the registry has a URL to call (`Endpoint.exists_target`), and where its limit says that callers
wait there is a delay to wait for and room to wait for (`Endpoint.queues`), so that nobody is turned away.
`Registry.servable_run` says so of all registries that operations lead to, where domain names are in ASCII
(`Url.parseHost`).
-/

set_option autoImplicit false

namespace Egress

/-- A call to an endpoint that can be served has a URL. -/
theorem Endpoint.exists_target {e : Endpoint} (h : e.Valid) (options : CallOptions) :
    ∃ url, e.target options = .ok url := by
  obtain ⟨-, -, -, ⟨url, hurl⟩, -⟩ := Endpoint.valid_iff.1 h
  unfold target
  rw [hurl]
  dsimp only
  split
  · exact ⟨url, rfl⟩
  · exact ⟨_, rfl⟩

/-- Callers that are to wait have something to wait for. -/
theorem Endpoint.queues {e : Endpoint} (h : e.Valid) {limit : RateLimit} {delay : Nat}
    (hlimit : e.rateLimit = some limit) (hqueue : limit.queue = true)
    (hdelay : limit.throttleDelay = some delay) : Limiter.Queues limit delay := by
  obtain ⟨-, -, -, -, -, hlimits, -⟩ := Endpoint.valid_iff.1 h
  obtain ⟨hrequests, hwindow, hthrottle⟩ := RateLimit.flaw?_eq_none_iff.1 (hlimits limit hlimit)
  have hpos : 0 < delay := by
    refine Nat.pos_of_ne_zero ?_
    rintro rfl
    exact hthrottle hdelay
  refine ⟨?_, hpos, hrequests, hwindow⟩
  simp [RateLimit.throttle?, hdelay, hqueue, hrequests, hpos]

namespace Registry

/-- After any operations, those that fail included, each definition is listed under its own id and can be
served, and ids, list, look-ups and size agree. A further operation has its effect on the look-ups, or it is
refused for its reason and the registry stays as it was; an update keeps the id. Hence every call to an
endpoint of the registry has a URL. Where its limit says that callers wait none of them is ever refused,
whatever state the limiter is in and whatever is done to it meanwhile, and left to themselves all are admitted
in the end. A definition at a domain name that is not in ASCII is refused for its URL. -/
theorem servable_run (actions : List Action) :
    let r := empty.run actions
    r.Valid ∧ r.Coherent ∧
    (∀ a, (r.Accepts a ∧ (r.perform a).1 = none ∧ ∀ k, (r.perform a).2.get? k = a.effect r.get? k) ∨
      ∃ error, r.Refuses a error ∧ r.perform a = (some error, r)) ∧
    (∀ id u e r', r.update id u = .ok (e, r') → e.id = id ∧ r'.ids = r.ids) ∧
    ∀ id e, r.get? id = some e →
      (∀ options, ∃ url, e.target options = .ok url) ∧
      ∀ limit, e.rateLimit = some limit → limit.queue = true → limit.throttleDelay ≠ none →
        ∀ l : Limiter,
          (∀ now retryAfter, (l.enter now id e.rateLimit).1 ≠ .refused retryAfter) ∧
          (∀ meanwhile fuel now n outcome,
            Schedule.run (Limiter.workshopAmid meanwhile id e.rateLimit) fuel now l
                (List.replicate n (.pending now ())) = some outcome →
              ∀ time result, Course.done time result ∈ outcome.courses → result = .ok ()) ∧
          ∀ now n, ∃ enough, ∀ fuel, enough ≤ fuel → ∃ outcome,
            l.enterAll fuel now id e.rateLimit n = some outcome ∧ outcome.courses.length = n ∧
              ∀ course ∈ outcome.courses, ∃ time, course = .done time (.ok ()) := by
  intro r
  have hvalid : r.Valid := valid_run valid_empty actions
  refine ⟨hvalid, hvalid.coherent, r.perform_cases, fun id u e r' hup => ?_, fun id e he => ?_⟩
  · obtain ⟨old, hold, rfl, -, -⟩ := update_eq_ok hup
    exact ⟨(hvalid id old hold).1, ids_update hup⟩
  · have hserved : e.Valid := (hvalid id e he).2
    refine ⟨e.exists_target hserved, fun limit hlimit hqueue hthrottle l => ?_⟩
    obtain ⟨delay, hdelay⟩ := Option.ne_none_iff_exists'.1 hthrottle
    have hq := e.queues hserved hlimit hqueue hdelay
    rw [hlimit]
    refine ⟨fun now => l.enter_ne_refused hq.throttle now id, fun meanwhile fuel now n outcome hrun => ?_,
      l.exists_admitted hq id⟩
    refine Limiter.done_ok_of_run hq.throttle meanwhile (fun time result hmem => ?_) hrun
    cases List.eq_of_mem_replicate hmem

/-- An endpoint that takes one call a second and lets its callers check again every 300 ms. -/
def patient : Endpoint :=
  { Endpoint.plain "a" "A" "http://h/" with rateLimit := some ⟨1, 1000, true, some 300⟩ }

/-- It is registered, refused when it is registered again and when its timeout is to be zero, and updated. -/
def patientActions : List Action :=
  [.register patient, .register patient, .update "a" { EndpointUpdate.empty with timeout := some 0 },
    .unregister "b", .update "a" { EndpointUpdate.empty with url := some "http://n/?q=1" }]

/-- Three callers that find a window with more calls than the limit allows, of another length and from a time
to come, are admitted all the same. -/
theorem servable_run_patient :
    let e := { patient with url := "http://n/?q=1" }
    let l : Limiter := ⟨.ofList [("a", ⟨7, 5000, 60⟩)]⟩
    (empty.run patientActions).get? "a" = some e ∧ (empty.run patientActions).ids = ["a"] ∧
      (∃ url, e.target CallOptions.plain = .ok url) ∧
      ∃ enough, ∀ fuel, enough ≤ fuel → ∃ outcome, l.enterAll fuel 0 "a" e.rateLimit 3 = some outcome ∧
        outcome.courses.length = 3 ∧ ∀ course ∈ outcome.courses, ∃ time, course = .done time (.ok ()) := by
  intro e l
  have hget : (empty.run patientActions).get? "a" = some e := by rfl
  obtain ⟨-, -, -, -, hserved⟩ := servable_run patientActions
  obtain ⟨htarget, hadmitted⟩ := hserved "a" e hget
  obtain ⟨-, -, hall⟩ := hadmitted ⟨1, 1000, true, some 300⟩ rfl rfl (by decide) l
  exact ⟨hget, by rfl, htarget .plain, hall 0 3⟩

end Registry

end Egress
