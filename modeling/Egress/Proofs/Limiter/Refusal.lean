import Egress.Proofs.Limiter.Queue
import Egress.Service.Request

/-!
# What a refusal promises

A check that is refused tells its caller after how many milliseconds to come back. The promise is about what
others do in the meantime, and it rests on the window that the check leaves.

* `Begun`: a window has opened in the past, whatever was done to the limiter (`begun_performAll`). The state
  before the check need not be one of the limit: its window may have another length, or more calls than the
  limit allows.
* `Holds`: from a time on the window in force is a given one until it elapses. What is done to other sources, and
  sweeps, keep to it (`Holds.spared`), and so does a check of the source that the window has no room for
  (`Holds.check`), hence a run of these (`Holds.performAll`).
* `limited_until` puts them together: no earlier, and no later.
-/

set_option autoImplicit false

namespace Egress

namespace Limiter

variable {l : Limiter} {id : String} {limit : RateLimit} {w : Window} {now t : Nat}

/-! ## Windows from the past -/

/-- The window of the source, if there is one, opened no later than this. -/
def Begun (l : Limiter) (id : String) (now : Nat) : Prop :=
  ∀ w, l.windows.get? id = some w → w.start ≤ now

theorem Begun.windowAt (h : l.Begun id now) (ht : t ≤ now) (length : Nat) :
    (l.windowAt t id length).start ≤ now := by
  cases ho : l.opens t id length with
  | true =>
    rw [windowAt_of_opens ho]
    exact ht
  | false =>
    obtain ⟨w, hw, hat⟩ := windowAt_of_not_opens ho
    rw [hat]
    exact h w hw

theorem Begun.perform (h : l.Begun id now) (ht : t ≤ now) (a : Action) :
    (l.perform t a).Begun id now := by
  intro w hw
  rcases get?_perform_eq_some hw with hkept | ⟨limit, -, hchecked⟩
  · exact h w hkept
  · rw [get?_check, if_pos rfl, Option.some.injEq] at hchecked
    subst hchecked
    exact h.windowAt ht limit.window

theorem begun_performAll {steps : List (Nat × Action)} (h : l.Begun id now)
    (hsteps : ∀ s ∈ steps, s.1 ≤ now) : (l.performAll steps).Begun id now := by
  induction steps generalizing l with
  | nil => exact h
  | cons s steps ih =>
    obtain ⟨htime, hrest⟩ := List.forall_mem_cons.1 hsteps
    exact ih (h.perform htime s.2) hrest

/-- An action that keeps to the limit checks the source against it, or is on no source or another one. -/
theorem Action.Keeps.spares_or_checks {a : Action} (h : a.Keeps id limit) :
    a.Spares id ∨ a.checked? = some (id, limit) := by
  by_cases hc : ∃ limit', a.checked? = some (id, limit')
  · obtain ⟨limit', hc⟩ := hc
    obtain rfl := h.eq_of_checked hc
    exact .inr hc
  · refine .inl ?_
    cases a with
    | check id' limit' =>
      rintro rfl
      exact hc ⟨limit', rfl⟩
    | enter id' limit' =>
      rintro rfl
      obtain rfl := h rfl
      exact hc ⟨limit, rfl⟩
    | reset id' => exact h
    | clear => exact h
    | count id' => exact trivial
    | sweep => exact trivial

/-! ## The refused check -/

theorem check_eq_limited_iff {retryAfter : Nat} :
    (l.check t id limit).1 = .limited retryAfter ↔
      limit.requests ≤ (l.windowAt t id limit.window).count ∧
        retryAfter = limit.window - (t - (l.windowAt t id limit.window).start) := by
  unfold check
  dsimp only
  split
  · next hfree => simp [Nat.not_le.2 hfree]
  · next hfull => simp [Nat.not_lt.1 hfull, eq_comm]

/-- From a time on the window in force for the source is `w` until it elapses, and then a new one. -/
structure Holds (l : Limiter) (id : String) (w : Window) (now : Nat) : Prop where
  measures : l.Measures id w.length
  same : ∀ u, now ≤ u → l.windowAt u id w.length = w.renewed u

/-- A check that finds the window in force used up leaves it, even if the one before had another length. -/
theorem holds_check (hfull : limit.requests ≤ (l.windowAt t id limit.window).count) :
    (l.check t id limit).2.Holds id (l.windowAt t id limit.window) t := by
  obtain ⟨hmeasures, hrenewed⟩ := @windowAt_check l id t limit _ rfl
  simp only [if_neg (Nat.not_lt.2 hfull)] at hrenewed
  have hlength := l.length_windowAt t id limit.window
  refine ⟨hlength.symm ▸ hmeasures, fun u _ => ?_⟩
  rw [hlength]
  exact hrenewed u

namespace Holds

theorem spared (h : l.Holds id w now) (ht : now ≤ t) {a : Action} (ha : a.Spares id) :
    (l.perform t a).Holds id w t := by
  obtain ⟨hmeasures, hsame⟩ := h.measures.perform ha (u := t)
  exact ⟨hmeasures, fun u hu => (hsame u hu).trans (h.same u (Nat.le_trans ht hu))⟩

/-- A check that comes before the window has elapsed, and finds it used up, leaves it. -/
theorem check (h : l.Holds id w now) (ht : now ≤ t) (hlength : w.length = limit.window)
    (hfull : limit.requests ≤ w.count) (hstill : w.elapsed t = false) :
    (l.check t id limit).2.Holds id w t := by
  have hin : l.windowAt t id limit.window = w := by
    rw [← hlength, h.same t ht, Window.renewed_of_not_elapsed hstill]
  rw [← hin] at hfull
  have hleft := holds_check hfull
  rwa [hin] at hleft

/-- Until the window elapses it is left by whatever is done, as long as checks of the source are against the
limit. -/
theorem performAll (h : l.Holds id w now) (hlength : w.length = limit.window)
    (hfull : limit.requests ≤ w.count) {steps : List (Nat × Action)}
    (hsteps : steps.Pairwise fun s s' => s.1 ≤ s'.1)
    (hkeeps : ∀ s ∈ steps, now ≤ s.1 ∧ s.1 ≤ t ∧ s.2.Keeps id limit)
    (hstill : ∀ s ∈ steps, s.2.checked? = some (id, limit) → w.elapsed s.1 = false) (ht : now ≤ t) :
    (l.performAll steps).Holds id w t := by
  induction steps generalizing l now with
  | nil => exact ⟨h.measures, fun u hu => h.same u (Nat.le_trans ht hu)⟩
  | cons s steps ih =>
    obtain ⟨u, a⟩ := s
    obtain ⟨hlater, hsteps⟩ := List.pairwise_cons.1 hsteps
    obtain ⟨⟨hu, hut, ha⟩, hkeeps⟩ := List.forall_mem_cons.1 hkeeps
    obtain ⟨hstill, hrest⟩ := List.forall_mem_cons.1 hstill
    have hstep : (l.perform u a).Holds id w u := by
      rcases ha.spares_or_checks with hspares | hchecks
      · exact h.spared hu hspares
      · rw [perform_of_checked hchecks]
        exact h.check hu hlength hfull (hstill hchecks)
    exact ih hstep hsteps (fun s hs => ⟨hlater s hs, (hkeeps s hs).2⟩) hrest hut

/-- A check against the limit is refused as long as the window has not elapsed, and told when it will have. -/
theorem check_eq (h : l.Holds id w t) (hstart : w.start ≤ t) (hlength : w.length = limit.window)
    (hfull : limit.requests ≤ w.count) (hrequests : 0 < limit.requests) :
    (w.elapsed t = false → (l.check t id limit).1 = .limited (w.start + w.length - t)) ∧
      (w.elapsed t = true → (l.check t id limit).1 = .admitted) := by
  have hin : l.windowAt t id limit.window = w.renewed t := by
    rw [← hlength]
    exact h.same t (Nat.le_refl t)
  constructor
  · intro hstill
    rw [check_eq_limited_iff, hin, Window.renewed_of_not_elapsed hstill]
    exact ⟨hfull, by omega⟩
  · intro helapsed
    rw [check_admitted_iff, hin, Window.renewed_of_elapsed helapsed]
    exact hrequests

end Holds

/-! ## Callers that do not wait -/

/-- Callers are turned away unless the limit lets them wait, with something to wait for. -/
theorem throttle?_eq_none
    (h : limit.queue = false ∨ limit.throttleDelay = none ∨ limit.throttleDelay = some 0) :
    limit.throttle? = none := by
  unfold RateLimit.throttle?
  rcases h with hqueue | hdelay | hdelay
  · simp [hqueue]
  · simp [hdelay]
  · simp [hdelay]

theorem enter_of_limited {retryAfter : Nat} (h : (l.check t id limit).1 = .limited retryAfter)
    (hthrottle : limit.throttle? = none) :
    l.enter t id (some limit) = (.refused retryAfter, (l.check t id limit).2) := by
  rw [enter_some, h, entryAfter, hthrottle, Option.elim_none]

/-- A caller that is turned away is done with its first turn. -/
theorem enterAll_of_refused {after : Limiter} {retryAfter : Nat}
    (h : l.enter t id (some limit) = (.refused retryAfter, after)) (fuel : Nat) :
    l.enterAll (fuel + 2) t id (some limit) 1 = some ⟨t, after, [.done t (.error retryAfter)]⟩ := by
  simp [enterAll, Schedule.run, Schedule.earliest?, Schedule.turn, workshop, turn, h, Turn.course]

/-! ## The promise -/

/-- Whatever was done to the limiter before, a check that is refused is told when the window in force ends.
Whatever is done to it afterwards, as long as checks of the source are against the same limit and its window is
not made forgotten, every check before that time is refused and told the time that is left, and the first one
from then on is admitted. A caller that does not wait fails with the time at once. -/
theorem limited_until (hrequests : 0 < limit.requests) (hwindow : 0 < limit.window)
    {earlier : List (Nat × Action)} (hearlier : ∀ s ∈ earlier, s.1 ≤ t) {r : Nat}
    (hlimited : ((empty.performAll earlier).check t id limit).1 = .limited r) :
    let l := empty.performAll earlier
    let after := (l.check t id limit).2
    0 < r ∧ r ≤ limit.window ∧
    (∀ (steps : List (Nat × Action)) (t' : Nat), (steps.Pairwise fun s s' => s.1 ≤ s'.1) →
      (∀ s ∈ steps, t ≤ s.1 ∧ s.1 ≤ t' ∧ s.2.Keeps id limit) → t ≤ t' →
        (t' < t + r → ((after.performAll steps).check t' id limit).1 = .limited (t + r - t')) ∧
        (t + r ≤ t' → (∀ s ∈ steps, s.2.checked? = some (id, limit) → s.1 < t + r) →
          ((after.performAll steps).check t' id limit).1 = .admitted)) ∧
    (limit.queue = false ∨ limit.throttleDelay = none ∨ limit.throttleDelay = some 0 →
      (∀ fuel, l.enterAll (fuel + 2) t id (some limit) 1 = some ⟨t, after, [.done t (.error r)]⟩) ∧
      ∀ (ω : Type) (transport : Transport ω) (world : World ω) (job : Job), world.service.limiter = l →
        job.endpoint.id = id → job.endpoint.rateLimit = some limit →
          (world.enter transport t job).2 = .finish (.error (.rateLimited id r))) := by
  intro l after
  have hbegun : l.Begun id t := begun_performAll (fun w hw => by cases hw) hearlier
  have hstart := hbegun.windowAt (Nat.le_refl t) limit.window
  have hlength := l.length_windowAt t id limit.window
  have hinforce := l.elapsed_windowAt t id hwindow
  obtain ⟨hfull, hr⟩ : limit.requests ≤ (l.windowAt t id limit.window).count ∧
      r = limit.window - (t - (l.windowAt t id limit.window).start) := check_eq_limited_iff.1 hlimited
  have hholds : after.Holds id (l.windowAt t id limit.window) t := holds_check hfull
  generalize l.windowAt t id limit.window = w at hholds hfull hr hstart hlength hinforce
  have helapsed : ∀ u, t ≤ u → (w.elapsed u = true ↔ t + r ≤ u) := by
    intro u hu
    simp only [Window.elapsed, decide_eq_true_eq, decide_eq_false_iff_not] at hinforce ⊢
    omega
  have hstill : ∀ u, t ≤ u → u < t + r → w.elapsed u = false := by
    intro u hu hbefore
    rw [← Bool.not_eq_true, helapsed u hu]
    exact Nat.not_le.2 hbefore
  have hpos : 0 < r := by
    refine Nat.pos_of_ne_zero fun hzero => ?_
    rw [(helapsed t (Nat.le_refl t)).2 (by omega)] at hinforce
    cases hinforce
  refine ⟨hpos, by omega, fun steps t' hsteps hkeeps ht' => ?_, fun hqueue => ?_⟩
  · have hafter : (∀ s ∈ steps, s.2.checked? = some (id, limit) → s.1 < t + r) →
        (after.performAll steps).Holds id w t' := fun hchecks =>
      hholds.performAll hlength hfull hsteps hkeeps
        (fun s hs hchecked => hstill s.1 (hkeeps s hs).1 (hchecks s hs hchecked)) ht'
    have hstart' := Nat.le_trans hstart ht'
    constructor
    · intro hbefore
      have hholds' := hafter fun s hs _ => Nat.lt_of_le_of_lt (hkeeps s hs).2.1 hbefore
      rw [(hholds'.check_eq hstart' hlength hfull hrequests).1 (hstill t' ht' hbefore)]
      congr 1
      omega
    · intro hover hchecks
      exact ((hafter hchecks).check_eq hstart' hlength hfull hrequests).2 ((helapsed t' ht').2 hover)
  · have henter : l.enter t id (some limit) = (.refused r, after) :=
      enter_of_limited hlimited (throttle?_eq_none hqueue)
    refine ⟨enterAll_of_refused henter, fun ω transport world job hlimiter hid hlimit => ?_⟩
    simp only [World.enter, hlimiter, hid, hlimit, henter]

/-- Three calls were admitted under a limit of three in 5000 ms. A check at 400 against one in 1000 ms goes by
the new length, and is told to come back after 600 ms: another one at 700 is told 300, and at 1000, after a sweep
that takes the window, a call is admitted. -/
theorem limited_until_shortened :
    let before : RateLimit := ⟨3, 5000, false, none⟩
    let limit : RateLimit := ⟨1, 1000, true, none⟩
    let earlier := List.replicate 3 (0, Action.check "a" before)
    let after := ((empty.performAll earlier).check 400 "a" limit).2
    let steps := [(500, Action.check "b" ⟨1, 5, false, none⟩), (700, .enter "a" (some limit)), (1000, .sweep)]
    ((empty.performAll earlier).check 400 "a" limit).1 = .limited 600 ∧ after.count? "a" = some 3 ∧
      ((after.performAll (steps.take 1)).check 700 "a" limit).1 = .limited 300 ∧
      ((after.performAll steps).check 1000 "a" limit).1 = .admitted ∧
      (empty.performAll earlier).enterAll 2 400 "a" (some limit) 1 =
        some ⟨400, after, [.done 400 (.error 600)]⟩ := by
  intro before limit earlier after steps
  have hlimited : ((empty.performAll earlier).check 400 "a" limit).1 = .limited 600 := by decide
  have hearlier : ∀ s ∈ earlier, s.1 ≤ 400 := by decide
  obtain ⟨-, -, hpromise, hrefused⟩ := limited_until (by decide) (by decide) hearlier hlimited
  have hkeeps : ∀ s ∈ steps, 400 ≤ s.1 ∧ s.1 ≤ 1000 ∧ s.2.Keeps "a" limit := by
    simp [steps, Action.Keeps]
  have hkeeps' : ∀ s ∈ steps.take 1, 400 ≤ s.1 ∧ s.1 ≤ 700 ∧ s.2.Keeps "a" limit := by
    simp [steps, Action.Keeps]
  have hchecks : ∀ s ∈ steps, s.2.checked? = some ("a", limit) → s.1 < 400 + 600 := by
    simp [steps, Action.checked?]
  refine ⟨hlimited, by decide, ?_, ?_, ?_⟩
  · exact (hpromise (steps.take 1) 700 (by decide) hkeeps' (by decide)).1 (by decide)
  · exact (hpromise steps 1000 (by decide) hkeeps (by decide)).2 (by decide) hchecks
  · exact (hrefused (.inr (.inl rfl))).1 0

end Limiter

end Egress
