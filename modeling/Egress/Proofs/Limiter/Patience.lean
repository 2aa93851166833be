import Egress.Proofs.Limiter.Queue

/-!
# Callers that wait are never turned away

Under a limit that lets its callers wait nobody is refused, whatever state the limiter is in and whatever else
is done to it (`done_ok_of_run`). Left to themselves all callers are admitted (`exists_admitted`): those that
the window has no room for wait until it has elapsed, however it came about, and are served in rounds from then
on.
-/

set_option autoImplicit false

namespace Egress

namespace Limiter

open Schedule

variable {l : Limiter} {id : String} {limit : RateLimit} {delay : Nat}

/-! ## No refusal -/

theorem enter_ne_refused (hthrottle : limit.throttle? = some delay) (l : Limiter) (now : Nat)
    (id : String) (retryAfter : Nat) : (l.enter now id (some limit)).1 ≠ .refused retryAfter := by
  rw [enter_some]
  cases (l.check now id limit).1 <;> simp [entryAfter, hthrottle]

/-- Of callers that wait those that are done were admitted. -/
theorem done_ok_of_run (hthrottle : limit.throttle? = some delay)
    (meanwhile : Nat → Nat → List (Nat × Action)) {fuel now : Nat} {courses : List Caller}
    {outcome : Outcome Limiter Unit (Except Nat Unit)}
    (hstart : ∀ time result, Course.done time result ∈ courses → result = .ok ())
    (hrun : run (workshopAmid meanwhile id (some limit)) fuel now l courses = some outcome) :
    ∀ time result, Course.done time result ∈ outcome.courses → result = .ok () := by
  refine (run_invariant _ (P := fun _ _ courses =>
    ∀ time result, Course.done time result ∈ courses → result = .ok ()) ?_ hstart hrun).1
  intro now shared before wake task after hall time next time' result hmem
  rw [List.mem_append, List.mem_cons] at hmem
  rcases hmem with hmem | heq | hmem
  · exact hall time' result (List.mem_append_left _ hmem)
  · simp only [next, workshopAmid, workshop, turn] at heq
    generalize performAll shared (meanwhile now time) = l at heq
    have hentry := enter_ne_refused hthrottle l time id
    rcases he : l.enter time id (some limit) with ⟨_ | wait | retryAfter, l'⟩
    · rw [he] at heq
      cases heq
      rfl
    · rw [he] at heq
      cases heq
    · rw [he] at hentry
      exact absurd rfl (hentry retryAfter)
  · exact hall time' result (List.mem_append_right _ (List.mem_cons_of_mem _ hmem))

/-! ## Admission from any state -/

/-- The limiter in which the window of the source has the length. -/
def measured (l : Limiter) (id : String) (length : Nat) : Limiter :=
  ⟨(l.windows.get? id).elim l.windows fun w => l.windows.insert id { w with length }⟩

theorem get?_measured (l : Limiter) (id : String) (length : Nat) :
    (l.measured id length).windows.get? id = (l.windows.get? id).map fun w => { w with length } := by
  unfold measured
  cases hw : l.windows.get? id with
  | none => exact hw
  | some w => exact Dict.get?_insert_self ..

theorem measures_measured (l : Limiter) (id : String) (length : Nat) :
    (l.measured id length).Measures id length := by
  intro w hw
  rw [get?_measured] at hw
  obtain ⟨old, -, rfl⟩ := Option.map_eq_some_iff.1 hw
  rfl

/-- A check goes by the length that it asks for, not by the one that the window had. -/
theorem check_measured (l : Limiter) (t : Nat) (id : String) (limit : RateLimit) :
    (l.measured id limit.window).check t id limit = l.check t id limit := by
  have hwindow : (l.measured id limit.window).windowAt t id limit.window =
      l.windowAt t id limit.window := by
    unfold windowAt
    rw [get?_measured]
    cases l.windows.get? id <;> rfl
  have hinsert : ∀ w, (l.measured id limit.window).windows.insert id w = l.windows.insert id w := by
    intro w
    unfold measured
    cases l.windows.get? id with
    | none => rfl
    | some old =>
      refine Dict.ext_get? fun k => ?_
      simp only [Option.elim_some, Dict.get?_insert]
      split <;> rfl
  simp only [check, hwindow, hinsert]

/-- There is a last check before a window has elapsed. -/
theorem exists_last_check {w : Window} {t : Nat} (h : w.elapsed t = false) (hdelay : 0 < delay) :
    ∃ k, w.elapsed (t + k * delay) = false ∧ w.elapsed (t + (k + 1) * delay) = true := by
  have hover : ∃ n, w.elapsed (t + n * delay) = true := by
    refine ⟨w.start + w.length, ?_⟩
    have hle : w.start + w.length ≤ (w.start + w.length) * delay := Nat.le_mul_of_pos_right _ hdelay
    simp only [Window.elapsed, decide_eq_true_eq]
    omega
  have hfirst := Nat.find_spec hover
  have hbefore : ∀ {n}, n < Nat.find hover → w.elapsed (t + n * delay) = false :=
    fun hn => Bool.not_eq_true _ ▸ Nat.find_min hover hn
  cases hn : Nat.find hover with
  | zero =>
    rw [hn, Nat.zero_mul, Nat.add_zero, h] at hfirst
    cases hfirst
  | succ k =>
    rw [hn] at hfirst
    exact ⟨k, hbefore (by omega), hfirst⟩

/-- Callers that find a window of the length that they ask for are all admitted. -/
theorem leads_all_admitted {meanwhile : Nat → Nat → List (Nat × Action)} (hmeanwhile : Aside id meanwhile)
    (hq : Queues limit delay) (hl : l.Measures id limit.window) (now n : Nat) :
    ∃ now' l' courses, Leads (workshopAmid meanwhile id (some limit))
        ⟨now, l, List.replicate n (.pending now ())⟩ ⟨now', l', courses⟩ ∧
      courses.length = n ∧ ∀ course ∈ courses, ∃ time, course = .done time (.ok ()) := by
  have hnone : ∀ wake, NotBefore wake ([] : List Caller) := fun _ _ _ hmem => by cases hmem
  let w := l.windowAt now id limit.window
  by_cases hn : n = 0
  · subst hn
    exact ⟨now, l, [], .refl _ _, rfl, fun _ hmem => by cases hmem⟩
  by_cases hroom : w.count + n ≤ limit.requests
  · obtain ⟨now', l', -, -, -, hlead⟩ :=
      leads_admits hmeanwhile hq (Nat.le_refl now) hl rfl hroom (hnone _) (hnone _)
    simp only [List.append_nil, List.nil_append] at hlead
    refine ⟨now', l', _, hlead, List.length_replicate, fun course hmem => ⟨now, ?_⟩⟩
    exact List.eq_of_mem_replicate hmem
  -- the window takes as many as it has room for, if any
  have hfill : ∃ f m now₁ l₁ w₁, n = f + (m + 1) ∧ now₁ ≤ now ∧ l₁.Measures id limit.window ∧
      l₁.windowAt now id limit.window = w₁ ∧ limit.requests ≤ w₁.count ∧
      Leads (workshopAmid meanwhile id (some limit)) ⟨now, l, List.replicate n (.pending now ())⟩
        ⟨now₁, l₁, List.replicate f (.done now (.ok ())) ++ List.replicate (m + 1) (.pending now ())⟩ := by
    by_cases hover : limit.requests ≤ w.count
    · obtain ⟨m, rfl⟩ : ∃ m, n = m + 1 := ⟨n - 1, by omega⟩
      exact ⟨0, m, now, l, w, (Nat.zero_add _).symm, Nat.le_refl now, hl, rfl, hover, .refl _ _⟩
    · obtain ⟨f, m, hf, rfl⟩ : ∃ f m, w.count + f = limit.requests ∧ n = f + (m + 1) :=
        ⟨limit.requests - w.count, n - (limit.requests - w.count) - 1, by omega, by omega⟩
      have hrest : NotBefore now (List.replicate (m + 1) (.pending now () : Caller)) :=
        notBefore_replicate (Nat.le_refl now) _ _
      obtain ⟨now₁, l₁, hnow₁, hl₁, hw₁, hlead₁⟩ := leads_admits hmeanwhile hq (Nat.le_refl now) hl rfl
        (Nat.le_of_eq hf) (hnone _) hrest
      rw [List.nil_append, List.nil_append, List.replicate_append_replicate] at hlead₁
      exact ⟨f, m, now₁, l₁, _, rfl, hnow₁, hl₁, hw₁, Nat.le_of_eq hf.symm, hlead₁⟩
  obtain ⟨f, m, now₁, l₁, w₁, rfl, hnow₁, hl₁, hw₁, hfull, hlead₁⟩ := hfill
  have hadmitted : ∀ wake, NotBefore wake (List.replicate f (.done now (.ok ()) : Caller)) :=
    fun wake time task hmem => by simp at hmem
  have hinforce : w₁.elapsed now = false := hw₁ ▸ l₁.elapsed_windowAt now id hq.window_pos
  have hlength : w₁.length = limit.window := hw₁ ▸ l₁.length_windowAt now id limit.window
  -- the others check in vain until it has elapsed
  obtain ⟨k, hstill, helapsed⟩ := exists_last_check hinforce hq.delay_pos
  obtain ⟨now₂, l₂, hnow₂, hl₂, hrenewed, hlead₂⟩ :=
    leads_elapsed hmeanwhile hq hnow₁ hl₁ hw₁ hfull m k hstill hadmitted
  have hw₂ : l₂.windowAt (now + (k + 1) * delay) id limit.window =
      ⟨0, now + (k + 1) * delay, limit.window⟩ := by
    rw [hrenewed, Window.renewed_of_elapsed helapsed, hlength]
  obtain ⟨now', l', hlead₃⟩ := leads_rounds hmeanwhile hq (m + 1) hnow₂ hl₂ hw₂ hadmitted
  refine ⟨now', l', _, hlead₁.trans (hlead₂.trans hlead₃), ?_, fun course hmem => ?_⟩
  · simp [admittedAt]
  · rcases List.mem_append.1 hmem with hmem | hmem
    · exact ⟨now, List.eq_of_mem_replicate hmem⟩
    · obtain ⟨i, -, rfl⟩ := List.mem_map.1 hmem
      exact ⟨_, rfl⟩

/-- Callers that wait are all admitted, from any state of the limiter. -/
theorem exists_admitted (hq : Queues limit delay) (l : Limiter) (id : String) (now n : Nat) :
    ∃ enough, ∀ fuel, enough ≤ fuel → ∃ outcome, l.enterAll fuel now id (some limit) n = some outcome ∧
      outcome.courses.length = n ∧ ∀ course ∈ outcome.courses, ∃ time, course = .done time (.ok ()) := by
  have haside : Aside id fun _ _ => [] := by simp [Aside]
  obtain ⟨now', l', courses, hlead, hlength, hall⟩ :=
    leads_all_admitted haside hq (l.measures_measured id limit.window) now n
  have hdone : earliest? courses = none := by
    cases he : earliest? courses with
    | none => rfl
    | some wake =>
      obtain ⟨before, task, after, rfl, -⟩ := exists_first he
      obtain ⟨time, heq⟩ := hall (.pending wake task) (by simp)
      cases heq
  obtain ⟨enough, hrun⟩ := hlead.run_eq hdone
  cases n with
  | zero =>
    refine ⟨1, fun fuel hfuel => ⟨⟨now, l, []⟩, ?_, rfl, fun _ hmem => by cases hmem⟩⟩
    obtain ⟨fuel, rfl⟩ := Nat.exists_eq_add_of_le' hfuel
    rfl
  | succ n =>
    refine ⟨enough + 1, fun fuel hfuel => ⟨⟨now', l', courses⟩, ?_, hlength, hall⟩⟩
    rw [← hrun fuel (Nat.le_of_succ_le hfuel), enterAll_eq_amid]
    obtain ⟨fuel, rfl⟩ := Nat.exists_eq_add_of_le' (Nat.le_trans (Nat.le_add_left 1 enough) hfuel)
    -- the first turn is a check, after which the window has the length in either case
    have hbefore : NotBefore (now + 1) ([] : List Caller) := fun _ _ hmem => by cases hmem
    have hafter : NotBefore now (List.replicate n (.pending now () : Caller)) :=
      notBefore_replicate (Nat.le_refl now) _ _
    have hfirst : earliest? (.pending now () :: List.replicate n (.pending now ()) : List Caller) =
        some now := by
      rw [← List.nil_append (Course.pending now () :: _)]
      exact earliest?_of_first (hbefore.mono (Nat.le_succ now)) hafter
    have hact : (workshopAmid (fun _ _ => []) id (some limit)).act now (l.measured id limit.window) () =
        (workshopAmid (fun _ _ => []) id (some limit)).act now l () := by
      simp only [workshopAmid, workshop, Limiter.turn, enter_some, check_measured]
    have hpass : ∀ l, (workshopAmid (fun _ _ => []) id (some limit)).pass now now l = l := fun _ => rfl
    simp only [List.replicate_succ, run, hfirst, Nat.max_self, hpass, Schedule.turn, if_true, hact]

end Limiter

end Egress
