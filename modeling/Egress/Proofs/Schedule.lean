import Egress.Schedule
import Mathlib.Data.List.Forall2
import Mathlib.Data.List.Nodup

/-!
# Runs of tasks side by side

* `run_invariant`: what every turn preserves holds at the end of a run, where every task is done. `Keeps.run`
  is the form of it for what is shared, with a condition on the tasks that wait.
* `Upholds.run`: what is said of each task by its name holds at the end if no turn, its own or that of another
  task, breaks it.
* `exists_run_eq`: a run ends if each turn lowers something that is well-founded.
* `Lockstep` relates what two runs share so that every turn is the same in both; then they come to the same
  results (`Lockstep.run`). `Workshop.noting` writes down each result with its time as it comes and
  `Workshop.logging` something of each turn, which changes nothing else (`run_noting`, `run_logging`).
* `Leads` says that a run comes from one point to another; a turn of the task that is first does
  (`leads_turn`), and a run that leads to where every task is done ends there (`Leads.run_eq`).
* `Alone` is the run of one task without any bound on the turns; `run` with turns enough agrees with it
  (`Alone.run_eq`), and `Alone.invariant` is its `run_invariant`.
-/

set_option autoImplicit false

namespace Egress

variable {σ τ ρ : Type}

namespace Schedule

/-! ## The first task -/

/-- No task in the list waits for a time before `wake`. -/
def NotBefore (wake : Nat) (courses : List (Course τ ρ)) : Prop :=
  ∀ time task, Course.pending time task ∈ courses → wake ≤ time

theorem NotBefore.mono {wake wake' : Nat} {courses : List (Course τ ρ)} (h : NotBefore wake courses)
    (hle : wake' ≤ wake) : NotBefore wake' courses :=
  fun time task hmem => Nat.le_trans hle (h time task hmem)

theorem NotBefore.append {wake : Nat} {courses others : List (Course τ ρ)}
    (h : NotBefore wake courses) (h' : NotBefore wake others) : NotBefore wake (courses ++ others) := by
  intro time task hmem
  rcases List.mem_append.1 hmem with hmem | hmem
  · exact h time task hmem
  · exact h' time task hmem

theorem notBefore_replicate {wake time : Nat} (h : wake ≤ time) (n : Nat) (task : τ) :
    NotBefore wake (List.replicate n (.pending time task : Course τ ρ)) := by
  intro time' task' hmem
  cases List.eq_of_mem_replicate hmem
  exact h

theorem NotBefore.le_first {wake first : Nat} {courses : List (Course τ ρ)} (h : NotBefore wake courses)
    (hfirst : earliest? courses = some first) : wake ≤ first := by
  induction courses generalizing first with
  | nil => cases hfirst
  | cons course rest ih =>
    have hrest : NotBefore wake rest := fun time task hmem => h time task (List.mem_cons_of_mem _ hmem)
    cases course with
    | done time result => exact ih hrest hfirst
    | pending time task =>
      have htime : wake ≤ time := h time task List.mem_cons_self
      simp only [earliest?, Option.some.injEq] at hfirst
      subst hfirst
      cases hr : earliest? rest with
      | none => exact htime
      | some next => exact Nat.le_min.2 ⟨htime, ih hrest hr⟩

theorem earliest?_of_first {wake : Nat} {task : τ} {before after : List (Course τ ρ)}
    (hbefore : NotBefore wake before) (hafter : NotBefore wake after) :
    earliest? (before ++ .pending wake task :: after) = some wake := by
  induction before with
  | nil =>
    cases hr : earliest? after with
    | none => simp [earliest?, hr]
    | some next =>
      have := hafter.le_first hr
      simp only [List.nil_append, earliest?, hr, Option.elim_some, Option.some.injEq]
      omega
  | cons course rest ih =>
    have hrest := ih fun time task hmem => hbefore time task (List.mem_cons_of_mem _ hmem)
    cases course with
    | done time result => exact hrest
    | pending time task' =>
      have htime : wake ≤ time := hbefore time task' List.mem_cons_self
      simp only [List.cons_append, earliest?, hrest, Option.elim_some, Option.some.injEq]
      omega

theorem turn_of_first (w : Workshop σ τ ρ) (now : Nat) (shared : σ) {wake : Nat} {task : τ}
    {before : List (Course τ ρ)} (hbefore : NotBefore (wake + 1) before) (after : List (Course τ ρ)) :
    turn w wake now shared (before ++ .pending wake task :: after) =
      ((w.act now shared task).1, before ++ (w.act now shared task).2.course now :: after) := by
  induction before with
  | nil => simp [turn]
  | cons course rest ih =>
    have hrest := ih fun time task hmem => hbefore time task (List.mem_cons_of_mem _ hmem)
    cases course with
    | done time result => simp [turn, hrest]
    | pending time task' =>
      have htime : wake + 1 ≤ time := hbefore time task' List.mem_cons_self
      have hne : time ≠ wake := by omega
      simp [turn, hne, hrest]

theorem notBefore_of_earliest? {wake : Nat} {courses : List (Course τ ρ)}
    (h : ∀ first, earliest? courses = some first → wake ≤ first) : NotBefore wake courses := by
  induction courses with
  | nil =>
    intro time task hmem
    cases hmem
  | cons course rest ih =>
    intro time task hmem
    cases course with
    | done time' result =>
      rcases List.mem_cons.1 hmem with heq | hmem
      · cases heq
      · exact ih h time task hmem
    | pending time' task' =>
      have hfirst := h _ rfl
      rcases List.mem_cons.1 hmem with heq | hmem
      · cases heq
        cases hr : earliest? rest with
        | none => simpa [hr] using hfirst
        | some first =>
          simp only [hr, Option.elim_some] at hfirst
          omega
      · refine ih (fun first hr => ?_) time task hmem
        simp only [hr, Option.elim_some] at hfirst
        omega

/-- Of the tasks that wake first there is one that stands first. -/
theorem exists_first {courses : List (Course τ ρ)} {wake : Nat} (h : earliest? courses = some wake) :
    ∃ before task after, courses = before ++ .pending wake task :: after ∧
      NotBefore (wake + 1) before ∧ NotBefore wake after := by
  induction courses generalizing wake with
  | nil => cases h
  | cons course rest ih =>
    cases course with
    | done time result =>
      obtain ⟨before, task, after, rfl, hbefore, hafter⟩ := ih h
      refine ⟨.done time result :: before, task, after, rfl, fun time' task' hmem => ?_, hafter⟩
      rcases List.mem_cons.1 hmem with heq | hmem
      · cases heq
      · exact hbefore time' task' hmem
    | pending time task =>
      simp only [earliest?, Option.some.injEq] at h
      by_cases hlt : ∃ first, earliest? rest = some first ∧ first < time
      · obtain ⟨first, hr, hlt⟩ := hlt
        have hfirst : first = wake := by
          simp only [hr, Option.elim_some] at h
          omega
        obtain ⟨before, task', after, rfl, hbefore, hafter⟩ := ih (hfirst ▸ hr)
        refine ⟨.pending time task :: before, task', after, rfl, fun time' other hmem => ?_, hafter⟩
        rcases List.mem_cons.1 hmem with heq | hmem
        · cases heq
          omega
        · exact hbefore time' other hmem
      · have hrest : ∀ first, earliest? rest = some first → time ≤ first := fun first hr =>
          Nat.le_of_not_lt fun hfirst => hlt ⟨first, hr, hfirst⟩
        have htime : time = wake := by
          cases hr : earliest? rest with
          | none => simpa [hr] using h
          | some first =>
            have hle := hrest first hr
            simp only [hr, Option.elim_some] at h
            omega
        subst htime
        have hnone : NotBefore (time + 1) ([] : List (Course τ ρ)) := fun _ _ hmem => by cases hmem
        exact ⟨[], task, rest, rfl, hnone, notBefore_of_earliest? hrest⟩

/-! ## Invariants -/

/-- What each turn preserves holds at the end of a run; the task that takes the turn is the first of those
that wake first. -/
theorem run_invariant_first (w : Workshop σ τ ρ) {P : Nat → σ → List (Course τ ρ) → Prop}
    (step : ∀ now shared before wake task after, NotBefore (wake + 1) before → NotBefore wake after →
      P now shared (before ++ .pending wake task :: after) →
        let time := max now wake
        let next := w.act time (w.pass now time shared) task
        P time next.1 (before ++ next.2.course time :: after))
    {fuel now : Nat} {shared : σ} {courses : List (Course τ ρ)} {outcome : Outcome σ τ ρ}
    (h : P now shared courses) (hrun : run w fuel now shared courses = some outcome) :
    P outcome.now outcome.shared outcome.courses ∧ earliest? outcome.courses = none := by
  induction fuel generalizing now shared courses with
  | zero => cases hrun
  | succ fuel ih =>
    cases he : earliest? courses with
    | none =>
      simp only [run, he, Option.some.injEq] at hrun
      subst hrun
      exact ⟨h, he⟩
    | some wake =>
      simp only [run, he] at hrun
      obtain ⟨before, task, after, rfl, hbefore, hafter⟩ := exists_first he
      rw [turn_of_first w _ _ hbefore] at hrun
      exact ih (step now shared before wake task after hbefore hafter h) hrun

/-- What each turn preserves, whichever task takes it, holds at the end of a run. -/
theorem run_invariant (w : Workshop σ τ ρ) {P : Nat → σ → List (Course τ ρ) → Prop}
    (step : ∀ now shared before wake task after,
      P now shared (before ++ .pending wake task :: after) →
        let time := max now wake
        let next := w.act time (w.pass now time shared) task
        P time next.1 (before ++ next.2.course time :: after))
    {fuel now : Nat} {shared : σ} {courses : List (Course τ ρ)} {outcome : Outcome σ τ ρ}
    (h : P now shared courses) (hrun : run w fuel now shared courses = some outcome) :
    P outcome.now outcome.shared outcome.courses ∧ earliest? outcome.courses = none :=
  run_invariant_first w (fun now shared before wake task after _ _ => step now shared before wake task after)
    h hrun

/-- Something that holds of what is shared, and of the tasks that wait, is kept by time that passes and by
turns. -/
structure Keeps (w : Workshop σ τ ρ) (Holds : Nat → σ → Prop) (Fit : σ → τ → Prop) : Prop where
  pass : ∀ since now s, since ≤ now → Holds since s → Holds now (w.pass since now s)
  pass_fit : ∀ since now s task, Fit s task → Fit (w.pass since now s) task
  act : ∀ now s task, Holds now s → Fit s task → Holds now (w.act now s task).1
  act_fit : ∀ now s task other, Holds now s → Fit s task → Fit s other → Fit (w.act now s task).1 other
  next : ∀ now s task duration next, Holds now s → Fit s task →
    (w.act now s task).2 = .wait duration next → Fit (w.act now s task).1 next

/-- What is kept by every turn holds at the end of a run. -/
theorem Keeps.run {w : Workshop σ τ ρ} {Holds : Nat → σ → Prop} {Fit : σ → τ → Prop}
    (h : Keeps w Holds Fit) {fuel now : Nat} {s : σ} {courses : List (Course τ ρ)}
    {outcome : Outcome σ τ ρ} (hs : Holds now s)
    (hfit : ∀ wake task, Course.pending wake task ∈ courses → Fit s task)
    (hrun : Schedule.run w fuel now s courses = some outcome) :
    now ≤ outcome.now ∧ Holds outcome.now outcome.shared := by
  let P (t : Nat) (s : σ) (courses : List (Course τ ρ)) :=
    (now ≤ t ∧ Holds t s) ∧ ∀ wake task, Course.pending wake task ∈ courses → Fit s task
  refine (run_invariant w (P := P) ?_ ⟨⟨Nat.le_refl now, hs⟩, hfit⟩ hrun).1.1
  rintro t s before wake task after ⟨⟨ht, hs⟩, hall⟩
  have htime : t ≤ max t wake := Nat.le_max_left t wake
  dsimp only
  generalize max t wake = time at htime
  have hpassed := h.pass t time s htime hs
  have hfits : ∀ wake' task', Course.pending wake' task' ∈ before ++ .pending wake task :: after →
      Fit (w.pass t time s) task' := fun wake' task' hmem => h.pass_fit t time s task' (hall wake' task' hmem)
  have htask := hfits wake task (by simp)
  refine ⟨⟨Nat.le_trans ht htime, h.act time _ task hpassed htask⟩, fun wake' task' hmem => ?_⟩
  rw [List.mem_append, List.mem_cons] at hmem
  rcases hmem with hmem | heq | hmem
  · exact h.act_fit time _ task task' hpassed htask (hfits wake' task' (List.mem_append_left _ hmem))
  · cases hact : (w.act time (w.pass t time s) task).2 with
    | finish result =>
      rw [hact] at heq
      cases heq
    | wait duration next =>
      rw [hact] at heq
      cases heq
      exact h.next time _ task duration task' hpassed htask hact
  · refine h.act_fit time _ task task' hpassed htask (hfits wake' task' ?_)
    exact List.mem_append_right _ (List.mem_cons_of_mem _ hmem)

/-- A run that has ended ends in the same way if it may take more turns. -/
theorem run_mono (w : Workshop σ τ ρ) {fuel more now : Nat} {shared : σ} {courses : List (Course τ ρ)}
    {outcome : Outcome σ τ ρ} (h : run w fuel now shared courses = some outcome) (hle : fuel ≤ more) :
    run w more now shared courses = some outcome := by
  induction fuel generalizing more now shared courses with
  | zero => cases h
  | succ fuel ih =>
    obtain ⟨more, rfl⟩ := Nat.exists_eq_add_of_le' (Nat.le_trans (Nat.le_add_left 1 fuel) hle)
    unfold run at h ⊢
    cases he : earliest? courses with
    | none =>
      rw [he] at h
      exact h
    | some wake =>
      rw [he] at h
      exact ih h (Nat.le_of_succ_le_succ hle)

/-- Where every task is done the courses are the results. -/
theorem courses_eq_of_done {courses : List (Course τ ρ)} (h : earliest? courses = none) :
    courses = (results courses).map fun result => .done result.1 result.2 := by
  induction courses with
  | nil => rfl
  | cons course rest ih =>
    cases course with
    | done time result => exact congrArg (_ :: ·) (ih h)
    | pending wake task => cases h

/-! ## Tasks by name -/

/-- What is said of each task, under a name of its own, and of what is shared, is kept by time that passes
and by turns, those of the task and those of others. -/
structure Upholds {κ : Type} (w : Workshop σ τ ρ) (Good : σ → Prop)
    (Stands : κ → Nat → σ → Course τ ρ → Prop) : Prop where
  good_pass : ∀ since now s, Good s → Good (w.pass since now s)
  pass : ∀ k since now s course, since ≤ now → Good s → Stands k since s course →
    Stands k now (w.pass since now s) course
  good_act : ∀ k now s task, Good s → Stands k now s (.pending now task) → Good (w.act now s task).1
  own : ∀ k now s task, Good s → Stands k now s (.pending now task) →
    Stands k now (w.act now s task).1 ((w.act now s task).2.course now)
  other : ∀ k k' now s task course, k ≠ k' → Good s → Stands k now s (.pending now task) →
    Stands k' now s course → Stands k' now (w.act now s task).1 course

theorem NotBefore.course {now : Nat} {courses : List (Course τ ρ)} (h : NotBefore now courses)
    (turn : Turn τ ρ) : NotBefore now (turn.course now :: courses) := by
  intro time task hmem
  rcases List.mem_cons.1 hmem with heq | hmem
  · cases turn with
    | finish result => cases heq
    | wait duration next =>
      cases heq
      exact Nat.le_add_right now duration
  · exact h time task hmem

/-- What is said of each task at the start of a run is said of it at the end, where it is done. -/
theorem Upholds.run {κ : Type} {w : Workshop σ τ ρ} {Good : σ → Prop}
    {Stands : κ → Nat → σ → Course τ ρ → Prop} (h : Upholds w Good Stands) {fuel now : Nat} {s : σ}
    {names : List κ} {courses : List (Course τ ρ)} {outcome : Outcome σ τ ρ} (hnames : names.Nodup)
    (hgood : Good s) (hnow : NotBefore now courses)
    (hstands : List.Forall₂ (fun k course => Stands k now s course) names courses)
    (hrun : Schedule.run w fuel now s courses = some outcome) :
    Good outcome.shared ∧
      List.Forall₂ (fun k result => Stands k outcome.now outcome.shared (.done result.1 result.2)) names
        (results outcome.courses) := by
  let P (now : Nat) (s : σ) (courses : List (Course τ ρ)) :=
    Good s ∧ NotBefore now courses ∧ List.Forall₂ (fun k course => Stands k now s course) names courses
  suffices hend : P outcome.now outcome.shared outcome.courses ∧ earliest? outcome.courses = none by
    obtain ⟨⟨hgood, -, hstands⟩, hdone⟩ := hend
    rw [courses_eq_of_done hdone, List.forall₂_map_right_iff] at hstands
    exact ⟨hgood, hstands⟩
  refine run_invariant_first w (P := P) ?_ ⟨hgood, hnow, hstands⟩ hrun
  rintro now s before wake task after hbefore hafter ⟨hgood, hnow, hstands⟩
  have hwake : now ≤ wake := hnow wake task (by simp)
  have hpassed := h.good_pass now wake s hgood
  dsimp only
  rw [Nat.max_eq_right hwake]
  -- the name of the task whose turn it is, and the names before and after it
  obtain ⟨named, rest, hfirst, hrest, rfl⟩ : ∃ named rest,
      List.Forall₂ (fun k course => Stands k now s course) named before ∧
        List.Forall₂ (fun k course => Stands k now s course) rest (.pending wake task :: after) ∧
        names = named ++ rest :=
    ⟨_, _, List.forall₂_take_append _ _ _ hstands, List.forall₂_drop_append _ _ _ hstands,
      (List.take_append_drop _ _).symm⟩
  obtain ⟨k, others, htask, hothers, rfl⟩ := List.forall₂_cons_right_iff.1 hrest
  have hne : ∀ k' ∈ named ++ others, k ≠ k' := by
    rintro k' hmem rfl
    exact (List.nodup_middle.1 hnames).notMem hmem
  have hown := h.pass k now wake s _ hwake hgood htask
  have hall : ∀ {ks : List κ} {cs : List (Course τ ρ)}, (∀ k' ∈ ks, k ≠ k') →
      List.Forall₂ (fun k course => Stands k now s course) ks cs →
        List.Forall₂ (fun k course => Stands k wake (w.act wake (w.pass now wake s) task).1 course) ks cs := by
    intro ks cs hks hcs
    refine (List.forall₂_and_left ks cs |>.2 ⟨hks, hcs⟩).imp fun k' course hk' => ?_
    exact h.other k k' wake _ task course hk'.1 hpassed hown (h.pass k' now wake s course hwake hgood hk'.2)
  refine ⟨h.good_act k wake _ task hpassed hown, ?_, ?_⟩
  · exact (hbefore.mono (Nat.le_succ wake)).append (hafter.course _)
  · exact List.rel_append (hall (fun k' hk' => hne k' (List.mem_append_left _ hk')) hfirst)
      (.cons (h.own k wake _ task hpassed hown)
        (hall (fun k' hk' => hne k' (List.mem_append_right _ hk')) hothers))

/-! ## Runs that end -/

/-- A run ends, with turns enough, if each turn lowers something that cannot be lowered for ever. -/
theorem exists_run_eq {κ : Type} {r : κ → κ → Prop} (hr : WellFounded r) (w : Workshop σ τ ρ)
    (rank : σ → List (Course τ ρ) → κ)
    (lowers : ∀ now shared before wake task after,
      let time := max now wake
      let next := w.act time (w.pass now time shared) task
      r (rank next.1 (before ++ next.2.course time :: after))
        (rank shared (before ++ .pending wake task :: after)))
    (now : Nat) (shared : σ) (courses : List (Course τ ρ)) :
    ∃ enough outcome, ∀ fuel, enough ≤ fuel → run w fuel now shared courses = some outcome := by
  generalize hrank : rank shared courses = k
  induction k using hr.induction generalizing now shared courses with
  | _ k ih =>
    subst hrank
    cases he : earliest? courses with
    | none =>
      refine ⟨1, ⟨now, shared, courses⟩, fun fuel hfuel => ?_⟩
      obtain ⟨fuel, rfl⟩ := Nat.exists_eq_add_of_le' hfuel
      rw [run, he]
    | some wake =>
      obtain ⟨before, task, after, rfl, hbefore, -⟩ := exists_first he
      obtain ⟨enough, outcome, hrun⟩ := ih _ (lowers now shared before wake task after) _ _ _ rfl
      refine ⟨enough + 1, outcome, fun fuel hfuel => ?_⟩
      obtain ⟨fuel, rfl⟩ := Nat.exists_eq_add_of_le' (Nat.le_trans (Nat.le_add_left 1 enough) hfuel)
      simp only [run, he, turn_of_first w _ _ hbefore]
      exact hrun fuel (by omega)

/-- Each task of a run comes to one result. -/
theorem length_results (w : Workshop σ τ ρ) {fuel now : Nat} {shared : σ} {courses : List (Course τ ρ)}
    {outcome : Outcome σ τ ρ} (hrun : run w fuel now shared courses = some outcome) :
    (results outcome.courses).length = courses.length := by
  obtain ⟨hlength, hdone⟩ := run_invariant w (P := fun _ _ current => current.length = courses.length)
    (fun _ _ _ _ _ _ h => by simpa using h) rfl hrun
  rw [← hlength, congrArg List.length (courses_eq_of_done hdone), List.length_map]

/-! ## Two runs in step -/

theorem rel_map {α α' β β' : Type} {r : α → β → Prop} {r' : α' → β' → Prop} {f : α → α'} {g : β → β'}
    (h : ∀ a b, r a b → r' (f a) (g b)) {a : Option α} {b : Option β} (hab : Option.Rel r a b) :
    Option.Rel r' (a.map f) (b.map g) := by
  cases hab with
  | none => exact .none
  | some hab => exact .some (h _ _ hab)

theorem rel_imp {α β : Type} {r r' : α → β → Prop} (h : ∀ a b, r a b → r' a b) {a : Option α} {b : Option β}
    (hab : Option.Rel r a b) : Option.Rel r' a b := by
  cases hab with
  | none => exact .none
  | some hab => exact .some (h _ _ hab)

end Schedule

open Schedule

/-- Related states stay related, and a task that fits takes the same turn in both. -/
structure Lockstep {σ' : Type} (w : Workshop σ τ ρ) (w' : Workshop σ' τ ρ) (R : σ → σ' → Prop)
    (Fit : τ → Prop) : Prop where
  pass : ∀ since now s s', R s s' → R (w.pass since now s) (w'.pass since now s')
  act : ∀ now s s' task, R s s' → Fit task →
    (w'.act now s' task).2 = (w.act now s task).2 ∧ R (w.act now s task).1 (w'.act now s' task).1
  next : ∀ now s s' task duration next, R s s' → Fit task →
    (w.act now s task).2 = .wait duration next → Fit next

/-- Runs in step end at the same time with the same results, or neither of them ends. -/
theorem Lockstep.run {σ' : Type} {w : Workshop σ τ ρ} {w' : Workshop σ' τ ρ} {R : σ → σ' → Prop}
    {Fit : τ → Prop} (h : Lockstep w w' R Fit) (fuel now : Nat) {s : σ} {s' : σ'} (hR : R s s')
    (courses : List (Course τ ρ)) (hfit : ∀ wake task, Course.pending wake task ∈ courses → Fit task) :
    Option.Rel (fun o o' => o'.now = o.now ∧ R o.shared o'.shared ∧ o'.courses = o.courses)
      (Schedule.run w fuel now s courses) (Schedule.run w' fuel now s' courses) := by
  induction fuel generalizing now s s' courses with
  | zero => exact .none
  | succ fuel ih =>
    unfold Schedule.run
    cases he : earliest? courses with
    | none => exact .some ⟨rfl, hR, rfl⟩
    | some wake =>
      obtain ⟨before, task, after, rfl, hbefore, -⟩ := exists_first he
      dsimp only
      rw [turn_of_first w _ _ hbefore, turn_of_first w' _ _ hbefore]
      have htask : Fit task := hfit wake task (by simp)
      have hpassed := h.pass now (max now wake) s s' hR
      obtain ⟨hturn, hacted⟩ := h.act (max now wake) _ _ task hpassed htask
      rw [hturn]
      refine ih _ hacted _ fun wake' task' hmem => ?_
      rw [List.mem_append, List.mem_cons] at hmem
      rcases hmem with hmem | heq | hmem
      · exact hfit wake' task' (List.mem_append_left _ hmem)
      · cases hact : (w.act (max now wake) (w.pass now (max now wake) s) task).2 with
        | wait duration next =>
          rw [hact] at heq
          cases heq
          exact h.next _ _ _ task duration task' hpassed htask hact
        | finish result =>
          rw [hact] at heq
          cases heq
      · exact hfit wake' task' (List.mem_append_right _ (List.mem_cons_of_mem _ hmem))

/-- The workshop in which a note is taken of each result. -/
def Workshop.noting {η : Type} (w : Workshop σ τ ρ) (note : Nat → τ → ρ → η) :
    Workshop (σ × List η) τ ρ where
  act now shared task :=
    match w.act now shared.1 task with
    | (s, .wait duration task) => ((s, shared.2), .wait duration task)
    | (s, .finish result) => ((s, note now task result :: shared.2), .finish result)
  pass since now shared := (w.pass since now shared.1, shared.2)

/-- The workshop in which each turn adds to a log, the latest first. -/
def Workshop.logging {η : Type} (w : Workshop σ τ ρ) (note : Nat → σ → τ → List η) :
    Workshop (σ × List η) τ ρ where
  act now shared task :=
    (((w.act now shared.1 task).1, note now shared.1 task ++ shared.2), (w.act now shared.1 task).2)
  pass since now shared := (w.pass since now shared.1, shared.2)

namespace Schedule

/-- A workshop with a record beside what is shared runs like the one without it. -/
theorem run_recording {η : Type} {w : Workshop σ τ ρ} {w' : Workshop (σ × η) τ ρ}
    (h : Lockstep w w' (fun s s' => s'.1 = s) fun _ => True) (fuel now : Nat) (shared : σ) (record : η)
    (courses : List (Course τ ρ)) :
    (run w' fuel now (shared, record) courses).map
        (fun o => (⟨o.now, o.shared.1, o.courses⟩ : Outcome σ τ ρ)) =
      run w fuel now shared courses := by
  have hrun := h.run fuel now (show (shared, record).1 = shared from rfl) courses fun _ _ _ => trivial
  generalize run w fuel now shared courses = outcome at hrun
  generalize run w' fuel now (shared, record) courses = outcome' at hrun
  cases hrun with
  | none => rfl
  | some hend =>
    obtain ⟨hnow, hshared, hcourses⟩ := hend
    rw [Option.map_some, hnow, hshared, hcourses]

/-- Taking notes changes nothing else. -/
theorem run_noting {η : Type} (w : Workshop σ τ ρ) (note : Nat → τ → ρ → η) (fuel now : Nat) (shared : σ)
    (notes : List η) (courses : List (Course τ ρ)) :
    (run (w.noting note) fuel now (shared, notes) courses).map
        (fun o => (⟨o.now, o.shared.1, o.courses⟩ : Outcome σ τ ρ)) =
      run w fuel now shared courses := by
  refine run_recording ⟨?_, ?_, fun _ _ _ _ _ _ _ _ _ => trivial⟩ fuel now shared notes courses
  · rintro since now s s' rfl
    rfl
  · rintro now s s' task rfl -
    simp only [Workshop.noting]
    rcases w.act now s'.1 task with ⟨s, _ | result⟩ <;> exact ⟨rfl, rfl⟩

/-- Nor does a log of the turns. -/
theorem run_logging {η : Type} (w : Workshop σ τ ρ) (note : Nat → σ → τ → List η) (fuel now : Nat)
    (shared : σ) (log : List η) (courses : List (Course τ ρ)) :
    (run (w.logging note) fuel now (shared, log) courses).map
        (fun o => (⟨o.now, o.shared.1, o.courses⟩ : Outcome σ τ ρ)) =
      run w fuel now shared courses := by
  refine run_recording ⟨?_, ?_, fun _ _ _ _ _ _ _ _ _ => trivial⟩ fuel now shared log courses
  · rintro since now s s' rfl
    rfl
  · rintro now s s' task rfl -
    exact ⟨rfl, rfl⟩

/-! ## Parts of a run -/

/-- The run that stands at one point comes to the other one after some turns. -/
def Leads (w : Workshop σ τ ρ) (o o' : Outcome σ τ ρ) : Prop :=
  ∃ turns, ∀ fuel, run w (fuel + turns) o.now o.shared o.courses = run w fuel o'.now o'.shared o'.courses

theorem Leads.refl (w : Workshop σ τ ρ) (o : Outcome σ τ ρ) : Leads w o o := ⟨0, fun _ => rfl⟩

theorem Leads.trans {w : Workshop σ τ ρ} {o₁ o₂ o₃ : Outcome σ τ ρ} (h : Leads w o₁ o₂)
    (h' : Leads w o₂ o₃) : Leads w o₁ o₃ := by
  obtain ⟨turns, h⟩ := h
  obtain ⟨turns', h'⟩ := h'
  refine ⟨turns' + turns, fun fuel => ?_⟩
  rw [← Nat.add_assoc, h, h']

/-- Of the tasks that wake first, the one that stands first takes its turn. -/
theorem leads_turn (w : Workshop σ τ ρ) {now wake : Nat} (hnow : now ≤ wake) (shared : σ) (task : τ)
    {before after : List (Course τ ρ)} (hbefore : NotBefore (wake + 1) before)
    (hafter : NotBefore wake after) :
    Leads w ⟨now, shared, before ++ .pending wake task :: after⟩
      ⟨wake, (w.act wake (w.pass now wake shared) task).1,
        before ++ (w.act wake (w.pass now wake shared) task).2.course wake :: after⟩ := by
  refine ⟨1, fun fuel => ?_⟩
  have hfirst : earliest? (before ++ .pending wake task :: after) = some wake :=
    earliest?_of_first (hbefore.mono (Nat.le_succ wake)) hafter
  simp only [run, hfirst, Nat.max_eq_right hnow, turn_of_first w wake _ hbefore]

/-- A run that leads to where every task is done ends there, with turns enough. -/
theorem Leads.run_eq {w : Workshop σ τ ρ} {o o' : Outcome σ τ ρ} (h : Leads w o o')
    (hdone : earliest? o'.courses = none) :
    ∃ enough, ∀ fuel, enough ≤ fuel → run w fuel o.now o.shared o.courses = some o' := by
  obtain ⟨turns, h⟩ := h
  refine ⟨turns + 1, fun fuel hfuel => ?_⟩
  obtain ⟨fuel, rfl⟩ := Nat.exists_eq_add_of_le' hfuel
  rw [Nat.add_comm turns 1, ← Nat.add_assoc, h, run, hdone]

/-! ## One task -/

/-- A task that acts at a time is done at `t` with the result, if it is the only one. -/
inductive Alone (w : Workshop σ τ ρ) : Nat → σ → τ → Nat → σ → ρ → Prop
  | finish {time : Nat} {shared s : σ} {task : τ} {result : ρ}
      (h : w.act time shared task = (s, .finish result)) : Alone w time shared task time s result
  | wait {time duration t : Nat} {shared s s' : σ} {task next : τ} {result : ρ}
      (h : w.act time shared task = (s, .wait duration next))
      (hrest : Alone w (time + duration) (w.pass time (time + duration) s) next t s' result) :
      Alone w time shared task t s' result

/-- After a turn that ends in a wait the rest of the run is the run of what waits. -/
theorem Alone.rest {w : Workshop σ τ ρ} {time duration t : Nat} {shared s s' : σ} {task next : τ}
    {result : ρ} (h : Alone w time shared task t s' result)
    (hwait : w.act time shared task = (s, .wait duration next)) :
    Alone w (time + duration) (w.pass time (time + duration) s) next t s' result := by
  cases h with
  | finish h =>
    rw [hwait] at h
    cases h
  | wait h hrest =>
    rw [hwait] at h
    cases h
    exact hrest

/-- What turns and passing time preserve holds when the task is done. -/
theorem Alone.invariant {w : Workshop σ τ ρ} {P : Nat → σ → Course τ ρ → Prop}
    (turn : ∀ now s task, P now s (.pending now task) →
      P now (w.act now s task).1 ((w.act now s task).2.course now))
    (pass : ∀ since now s wake task, since ≤ now → P since s (.pending wake task) →
      P now (w.pass since now s) (.pending wake task))
    {now t : Nat} {s s' : σ} {task : τ} {result : ρ} (h : Alone w now s task t s' result)
    (hP : P now s (.pending now task)) : P t s' (.done t result) := by
  induction h with
  | @finish now s s' task result h =>
    have hturn := turn now s task hP
    rw [h] at hturn
    exact hturn
  | @wait now duration t s between s' task next result h _ ih =>
    have hturn := turn now s task hP
    rw [h] at hturn
    exact ih (pass now (now + duration) between _ next (Nat.le_add_right ..) hturn)

theorem Alone.le {w : Workshop σ τ ρ} {now t : Nat} {s s' : σ} {task : τ} {result : ρ}
    (h : Alone w now s task t s' result) : now ≤ t :=
  h.invariant (P := fun u _ _ => now ≤ u) (fun _ _ _ h => h)
    (fun _ _ _ _ _ hle h => Nat.le_trans h hle) (Nat.le_refl now)

theorem run_alone_succ (w : Workshop σ τ ρ) (fuel now wake : Nat) (shared : σ) (task : τ) :
    run w (fuel + 1) now shared [.pending wake task] =
      run w fuel (max now wake)
        (w.act (max now wake) (w.pass now (max now wake) shared) task).1
        [(w.act (max now wake) (w.pass now (max now wake) shared) task).2.course (max now wake)] := by
  simp [run, earliest?, turn]

/-- With turns enough the run of a single task ends as `Alone` says. -/
theorem Alone.run_eq {w : Workshop σ τ ρ} {time t : Nat} {passed s : σ} {task : τ} {result : ρ}
    (h : Alone w time passed task t s result) {now : Nat} {shared : σ} (hnow : now ≤ time)
    (hpassed : w.pass now time shared = passed) :
    ∃ enough, ∀ fuel, enough ≤ fuel →
      run w fuel now shared [.pending time task] = some ⟨t, s, [.done t result]⟩ := by
  induction h generalizing now shared with
  | finish h =>
    refine ⟨2, fun fuel hfuel => ?_⟩
    obtain ⟨fuel, rfl⟩ := Nat.exists_eq_add_of_le' hfuel
    rw [run_alone_succ, Nat.max_eq_right hnow, hpassed, h]
    rfl
  | wait h _ ih =>
    obtain ⟨enough, ih⟩ := ih (Nat.le_add_right _ _) rfl
    refine ⟨enough + 1, fun fuel hfuel => ?_⟩
    obtain ⟨fuel, rfl⟩ := Nat.exists_eq_add_of_le' (Nat.le_trans (Nat.le_add_left 1 enough) hfuel)
    rw [run_alone_succ, Nat.max_eq_right hnow, hpassed, h]
    exact ih fuel (by omega)

end Schedule

end Egress
