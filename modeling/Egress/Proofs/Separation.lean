import Egress.Proofs.Schedule
import Mathlib.Algebra.GroupWithZero.Nat
import Mathlib.Data.List.Nodup

/-!
# Tasks that see nothing of each other

Each task has a name, and `view` says what a task of a name sees of what is shared. A `Separation` is a
workshop in which a turn goes by what the task sees, and changes nothing that tasks of other names see.

* `Separation.Follows`: a task that runs beside others is where it would be on its own, and sees what it
  would see.
* `Follows.turn`, `Follows.beside`: its own turn keeps to it, and so does a turn of another task.
* `Separation.run_eq`: hence tasks of different names come side by side to the results that they come to
  alone, at the same times.
-/

set_option autoImplicit false

namespace Egress

variable {σ τ ρ κ β : Type}

open Schedule

/-- Turns of tasks that fit go by what a task of the name sees, and are not seen by others. -/
structure Separation (w : Workshop σ τ ρ) (name : τ → κ) (view : κ → σ → β) (Good : σ → Prop)
    (Fit : τ → Prop) : Prop where
  pass_self : ∀ now s, w.pass now now s = s
  pass_pass : ∀ since between now s, since ≤ between → between ≤ now →
    w.pass between now (w.pass since between s) = w.pass since now s
  good_pass : ∀ since now s, Good s → Good (w.pass since now s)
  good_act : ∀ now s task, Good s → Fit task → Good (w.act now s task).1
  next : ∀ now s task duration next, Good s → Fit task →
    (w.act now s task).2 = .wait duration next → Fit next ∧ name next = name task
  view_pass : ∀ k since now s s', view k s' = view k s →
    view k (w.pass since now s') = view k (w.pass since now s)
  view_act : ∀ now s s' task, Good s → Fit task → view (name task) s' = view (name task) s →
    (w.act now s' task).2 = (w.act now s task).2 ∧
      view (name task) (w.act now s' task).1 = view (name task) (w.act now s task).1
  view_other : ∀ k now s task, Good s → Fit task → name task ≠ k → view k (w.act now s task).1 = view k s

/-- What a task comes to on its own, with a number of turns that is enough. -/
structure Solo (σ ρ κ : Type) where
  name : κ
  turns : Nat
  time : Nat
  shared : σ
  result : ρ

namespace Solo

/-- The course of the task at its end. -/
def course (x : Solo σ ρ κ) : Course τ ρ := .done x.time x.result

/-- The end of the run of the task on its own. -/
def outcome (x : Solo σ ρ κ) : Outcome σ τ ρ := ⟨x.time, x.shared, [x.course]⟩

end Solo

namespace Separation

variable {w : Workshop σ τ ρ} {name : τ → κ} {view : κ → σ → β} {Good : σ → Prop} {Fit : τ → Prop}

/-- The task of the course is where it is on its own since some time, and sees what it sees there. -/
structure Follows (w : Workshop σ τ ρ) (name : τ → κ) (view : κ → σ → β) (Good : σ → Prop)
    (Fit : τ → Prop) (now : Nat) (s : σ) (course : Course τ ρ) (x : Solo σ ρ κ) (since : Nat) (own : σ) :
    Prop where
  alone : Schedule.run w x.turns since own [course] = some x.outcome
  good : Good own
  since_le : since ≤ now
  waits : ∀ wake task, course = .pending wake task → now ≤ wake ∧ Fit task ∧ name task = x.name
  sees : view x.name s = view x.name (w.pass since now own)

variable {now wake since : Nat} {s own : σ} {course : Course τ ρ} {x : Solo σ ρ κ} {task : τ}

/-- A task that is done came to its result. -/
theorem Follows.of_done {time : Nat} {result : ρ}
    (h : Follows w name view Good Fit now s (.done time result) x since own) :
    (.done time result : Course τ ρ) = x.course ∧ since = x.time ∧ own = x.shared := by
  have halone := h.alone
  cases hturns : x.turns with
  | zero =>
    rw [hturns] at halone
    cases halone
  | succ turns =>
    simp only [hturns, Schedule.run, earliest?, Option.some.injEq, Solo.outcome, Outcome.mk.injEq,
      List.cons.injEq, and_true] at halone
    obtain ⟨htime, hshared, hcourse⟩ := halone
    exact ⟨hcourse, htime, hshared⟩

/-- A turn of another task, and the time before it, change nothing for a task that has to wait as long. -/
theorem Follows.beside (hsep : Separation w name view Good Fit)
    (h : Follows w name view Good Fit now s course x since own) (hgood : Good s) {time : Nat}
    (htime : now ≤ time) (hwake : ∀ wake task, course = .pending wake task → time ≤ wake)
    (hfit : Fit task) (hne : name task ≠ x.name) :
    Follows w name view Good Fit time (w.act time (w.pass now time s) task).1 course x since own where
  alone := h.alone
  good := h.good
  since_le := Nat.le_trans h.since_le htime
  waits wake task' heq := ⟨hwake wake task' heq, (h.waits wake task' heq).2⟩
  sees := by
    rw [hsep.view_other _ time _ task (hsep.good_pass now time s hgood) hfit hne,
      hsep.view_pass _ now time _ s h.sees, hsep.pass_pass since now time own h.since_le htime]

/-- A task that takes its turn takes the turn that it takes on its own. -/
theorem Follows.turn (hsep : Separation w name view Good Fit)
    (h : Follows w name view Good Fit now s (.pending wake task) x since own) :
    ∃ turns own', x.turns = turns + 1 ∧
      Follows w name view Good Fit wake (w.act wake (w.pass now wake s) task).1
        ((w.act wake (w.pass now wake s) task).2.course wake) { x with turns } wake own' := by
  obtain ⟨hnow, hfit, hname⟩ := h.waits wake task rfl
  have hsince : since ≤ wake := Nat.le_trans h.since_le hnow
  have halone := h.alone
  cases hturns : x.turns with
  | zero =>
    rw [hturns] at halone
    cases halone
  | succ turns =>
    rw [hturns, run_alone_succ, Nat.max_eq_right hsince] at halone
    have hgood := hsep.good_pass since wake own h.good
    have hsees : view (name task) (w.pass now wake s) = view (name task) (w.pass since wake own) := by
      rw [hname, hsep.view_pass _ now wake _ s h.sees, hsep.pass_pass since now wake own h.since_le hnow]
    obtain ⟨hturn, hview⟩ := hsep.view_act wake _ (w.pass now wake s) task hgood hfit hsees
    rw [← hturn] at halone
    refine ⟨turns, (w.act wake (w.pass since wake own) task).1, rfl, halone,
      hsep.good_act wake _ task hgood hfit, Nat.le_refl wake, fun wake' task' heq => ?_, ?_⟩
    · cases hact : (w.act wake (w.pass now wake s) task).2 with
      | finish result =>
        rw [hact] at heq
        cases heq
      | wait duration next =>
        rw [hact] at heq
        cases heq
        rw [hturn] at hact
        obtain ⟨hfit', hname'⟩ := hsep.next wake _ task duration task' hgood hfit hact
        exact ⟨Nat.le_add_right wake duration, hfit', hname'.trans hname⟩
    · rw [hsep.pass_self]
      exact hname ▸ hview

variable {threads first last : List (Course τ ρ × Solo σ ρ κ)}

/-- When no task waits any more, each is at its end. -/
theorem Follows.of_earliest?_none (he : earliest? (threads.map (·.1)) = none)
    {p : Course τ ρ × Solo σ ρ κ} (hmem : p ∈ threads)
    (h : Follows w name view Good Fit now s p.1 p.2 since own) :
    p.1 = p.2.course ∧ p.2.time ≤ now ∧
      view p.2.name s = view p.2.name (w.pass p.2.time now p.2.shared) := by
  obtain ⟨course, x⟩ := p
  cases course with
  | pending wake task =>
    have hlate : NotBefore (wake + 1) (threads.map (·.1)) :=
      notBefore_of_earliest? fun first hfirst => by rw [he] at hfirst; cases hfirst
    have hwake : wake + 1 ≤ wake := hlate wake task (List.mem_map_of_mem hmem)
    exact absurd hwake (Nat.not_succ_le_self wake)
  | done time result =>
    obtain ⟨hcourse, rfl, rfl⟩ := h.of_done
    exact ⟨hcourse, h.since_le, h.sees⟩

/-- After the turn of the first task that wakes all tasks are again where they are on their own. -/
theorem exists_follows_turn (hsep : Separation w name view Good Fit) (hgood : Good s)
    (hnames : ((first ++ (.pending wake task, x) :: last).map fun p => p.2.name).Nodup)
    (hfollows : ∀ p ∈ first ++ (.pending wake task, x) :: last,
      ∃ since own, Follows w name view Good Fit now s p.1 p.2 since own)
    (hfirst : NotBefore (wake + 1) (first.map (·.1))) (hlast : NotBefore wake (last.map (·.1))) :
    ∃ turns, x.turns = turns + 1 ∧
      ∀ p ∈ first ++ ((w.act wake (w.pass now wake s) task).2.course wake, { x with turns }) :: last,
        ∃ since own, Follows w name view Good Fit wake (w.act wake (w.pass now wake s) task).1
          p.1 p.2 since own := by
  obtain ⟨since, own, hx⟩ := hfollows (.pending wake task, x) (by simp)
  obtain ⟨hnow, hfit, hname⟩ := hx.waits wake task rfl
  obtain ⟨turns, own', hturns, hx'⟩ := hx.turn hsep
  rw [List.map_append, List.map_cons, List.nodup_middle, List.nodup_cons, ← List.map_append] at hnames
  -- the others have other names, and none of them wakes before
  have hother : ∀ p ∈ first ++ last, ∃ since own, Follows w name view Good Fit wake
      (w.act wake (w.pass now wake s) task).1 p.1 p.2 since own := by
    intro p hmem
    have hp : p ∈ first ++ (Course.pending wake task, x) :: last := by
      rw [List.mem_append, List.mem_cons]
      exact (List.mem_append.1 hmem).imp_right .inr
    obtain ⟨since, own, hfollow⟩ := hfollows p hp
    have hne : name task ≠ p.2.name := by
      rw [hname]
      exact fun heq => hnames.1 (heq ▸ List.mem_map_of_mem hmem)
    refine ⟨since, own, hfollow.beside hsep hgood hnow (fun wake' task' heq => ?_) hfit hne⟩
    rcases List.mem_append.1 hmem with hmem | hmem
    · exact Nat.le_of_succ_le (hfirst wake' task' (heq ▸ List.mem_map_of_mem hmem))
    · exact hlast wake' task' (heq ▸ List.mem_map_of_mem hmem)
  refine ⟨turns, hturns, fun p hmem => ?_⟩
  rw [List.mem_append, List.mem_cons] at hmem
  rcases hmem with hmem | rfl | hmem
  · exact hother p (List.mem_append_left _ hmem)
  · exact ⟨wake, own', hx'⟩
  · exact hother p (List.mem_append_right _ hmem)

/-- Tasks of different names that follow their runs alone come to the ends of these. -/
theorem run_of_follows (hsep : Separation w name view Good Fit) {fuel : Nat} (hgood : Good s)
    (hnames : (threads.map fun p => p.2.name).Nodup)
    (hfollows : ∀ p ∈ threads, ∃ since own, Follows w name view Good Fit now s p.1 p.2 since own)
    (hfuel : (threads.map fun p => p.2.turns).sum < fuel) :
    ∃ u s', now ≤ u ∧
      Schedule.run w fuel now s (threads.map (·.1)) = some ⟨u, s', threads.map fun p => p.2.course⟩ ∧
      ∀ p ∈ threads, p.2.time ≤ u ∧
        view p.2.name s' = view p.2.name (w.pass p.2.time u p.2.shared) := by
  induction fuel generalizing now s threads with
  | zero => omega
  | succ fuel ih =>
    unfold Schedule.run
    cases he : earliest? (threads.map (·.1)) with
    | none =>
      have hdone : ∀ p ∈ threads, p.1 = p.2.course ∧ p.2.time ≤ now ∧
          view p.2.name s = view p.2.name (w.pass p.2.time now p.2.shared) := by
        intro p hmem
        obtain ⟨since, own, hp⟩ := hfollows p hmem
        exact hp.of_earliest?_none he hmem
      have hcourses : threads.map (·.1) = threads.map fun p => p.2.course :=
        List.map_congr_left fun p hmem => (hdone p hmem).1
      exact ⟨now, s, Nat.le_refl now, by rw [hcourses], fun p hmem => (hdone p hmem).2⟩
    | some wake =>
      obtain ⟨before, task, after, hthreads, hbefore, hafter⟩ := exists_first he
      obtain ⟨first, rest, rfl, rfl, hrest⟩ := List.map_eq_append_iff.1 hthreads
      obtain ⟨⟨course, x⟩, last, rfl, hcourse, rfl⟩ := List.map_eq_cons_iff.1 hrest
      dsimp only at hcourse
      subst hcourse
      obtain ⟨since, own, hx⟩ := hfollows (.pending wake task, x) (by simp)
      obtain ⟨hnow, hfit, -⟩ := hx.waits wake task rfl
      have hgood' : Good (w.act wake (w.pass now wake s) task).1 :=
        hsep.good_act wake _ task (hsep.good_pass now wake s hgood) hfit
      obtain ⟨turns, hturns, hfollows'⟩ :=
        exists_follows_turn hsep hgood hnames hfollows hbefore hafter
      let turned : Course τ ρ × Solo σ ρ κ :=
        ((w.act wake (w.pass now wake s) task).2.course wake, { x with turns })
      have hnames' : ((first ++ turned :: last).map fun p => p.2.name).Nodup := by
        rw [List.map_append, List.map_cons] at hnames ⊢
        exact hnames
      have hfuel' : ((first ++ turned :: last).map fun p => p.2.turns).sum < fuel := by
        simp only [turned, List.map_append, List.map_cons, List.sum_append, List.sum_cons] at hfuel ⊢
        omega
      obtain ⟨u, s', hu, hrun, hend⟩ := ih hgood' hnames' hfollows' hfuel'
      dsimp only
      rw [Nat.max_eq_right hnow, hthreads, turn_of_first w _ _ hbefore]
      simp only [turned, List.map_append, List.map_cons] at hrun ⊢
      refine ⟨u, s', Nat.le_trans hnow hu, hrun, fun p hmem => ?_⟩
      rw [List.mem_append, List.mem_cons] at hmem
      rcases hmem with hmem | rfl | hmem
      · exact hend p (List.mem_append_left _ hmem)
      · exact hend turned (List.mem_append_right _ List.mem_cons_self)
      · exact hend p (List.mem_append_right _ (List.mem_cons_of_mem _ hmem))

/-- Tasks of different names that start together come to the results that they come to alone, at the same times,
and each sees at the end what it would see if the time until then had passed for it alone. -/
theorem run_eq (hsep : Separation w name view Good Fit) (hgood : Good s) {tasks : List (τ × Solo σ ρ κ)}
    (hnames : (tasks.map fun p => p.2.name).Nodup)
    (halone : ∀ p ∈ tasks, Fit p.1 ∧ name p.1 = p.2.name ∧
      Schedule.run w p.2.turns now s [.pending now p.1] = some p.2.outcome) :
    ∃ enough u s', now ≤ u ∧
      (∀ fuel, enough ≤ fuel → Schedule.run w fuel now s (tasks.map fun p => .pending now p.1) =
        some ⟨u, s', tasks.map fun p => p.2.course⟩) ∧
      ∀ p ∈ tasks, p.2.time ≤ u ∧
        view p.2.name s' = view p.2.name (w.pass p.2.time u p.2.shared) := by
  let threads : List (Course τ ρ × Solo σ ρ κ) := tasks.map fun p => (.pending now p.1, p.2)
  have hfollows : ∀ p ∈ threads, ∃ since own, Follows w name view Good Fit now s p.1 p.2 since own := by
    intro p hmem
    obtain ⟨⟨task, x⟩, htask, rfl⟩ := List.mem_map.1 hmem
    obtain ⟨hfit, hname, hrun⟩ := halone _ htask
    refine ⟨now, s, hrun, hgood, Nat.le_refl now, fun wake task' heq => ?_, by rw [hsep.pass_self]⟩
    cases heq
    exact ⟨Nat.le_refl now, hfit, hname⟩
  have hthreads : threads.map (fun p => p.2.name) = tasks.map fun p => p.2.name := by
    simp only [threads, List.map_map, Function.comp_def]
  obtain ⟨u, s', hu, hrun, hend⟩ := run_of_follows hsep hgood (hthreads ▸ hnames) hfollows
    (Nat.lt_succ_self _)
  have hcourses : (threads.map fun p => p.1) = tasks.map fun p => .pending now p.1 := by
    simp only [threads, List.map_map, Function.comp_def]
  have hdone : (threads.map fun p => (p.2.course : Course τ ρ)) = tasks.map fun p => p.2.course := by
    simp only [threads, List.map_map, Function.comp_def]
  rw [hcourses, hdone] at hrun
  refine ⟨_, u, s', hu, fun fuel hfuel => run_mono w hrun hfuel, fun p hmem => ?_⟩
  exact hend (.pending now p.1, p.2) (List.mem_map.2 ⟨p, hmem, rfl⟩)

end Separation

end Egress
