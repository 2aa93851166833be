import Egress.Limiter.Basic
import Egress.Proofs.Dict
import Mathlib.Algebra.Order.Floor.Div

/-!
# Windows over a run of checks

A `Watch` follows one source through a run of timed `Action`s on a limiter: next to the limiter it
keeps the checks of the source, the latest first, each with whether it opened a window and whether
it was admitted. Nothing of it is read off the stored count.

* **The count** (`Counted`): the stored count is the number of admissions since the window opened,
  after every action on any source, sweeps and resets included.
* **Spacing** (`Spaced`): with one limit throughout, a window opens at least its length after every
  earlier one, whether the earlier one was reset in place or swept (`InForce`).
* **Admissions in an interval**: a window admits at most the limit, so an interval gets no more than
  its openings and one window before it allow (`admissions_le_openings`); the openings in it are
  bounded by their spacing (`openings_le`).
-/

set_option autoImplicit false

namespace Egress.Limiter

/-- What is asked of a limiter at some time. -/
inductive Action
  | check (id : String) (limit : RateLimit)
  | enter (id : String) (limit : Option RateLimit)
  | count (id : String)
  | reset (id : String)
  | clear
  | sweep
  deriving DecidableEq

/-- The source and the limit that the action checks. A caller without a limit is not checked. -/
def Action.checked? : Action → Option (String × RateLimit)
  | .check id limit => some (id, limit)
  | .enter id limit => limit.map fun limit => (id, limit)
  | _ => none

/-- The limiter after an action. -/
def perform (l : Limiter) (now : Nat) : Action → Limiter
  | .check id limit => (l.check now id limit).2
  | .enter id limit => (l.enter now id limit).2
  | .count _ => l
  | .reset id => l.reset id
  | .clear => .empty
  | .sweep => l.sweep now

/-- Whether a check opens a window: there is none, or the one there is has elapsed by the length asked
for. -/
def opens (l : Limiter) (now : Nat) (id : String) (length : Nat) : Bool :=
  (l.windows.get? id).all fun w => ({ w with length } : Window).elapsed now

/-- A check of the source that is watched. -/
structure Checked where
  time : Nat
  limit : RateLimit
  opened : Bool
  admitted : Bool
  deriving DecidableEq

/-- The check of `id` that an action is, if it is one. -/
def checkOf (l : Limiter) (id : String) (now : Nat) (a : Action) : Option Checked :=
  match a.checked? with
  | some (id', limit) =>
    if id' = id then
      some ⟨now, limit, l.opens now id limit.window, (l.check now id limit).1 = .admitted⟩
    else none
  | none => none

/-- A limiter with the checks of one source so far, the latest first. -/
structure Watch where
  limiter : Limiter
  checks : List Checked

namespace Watch

/-- The limiter that has seen no call. -/
def start : Watch := ⟨.empty, []⟩

/-- One action at a time. -/
def step (id : String) (w : Watch) (s : Nat × Action) : Watch :=
  ⟨w.limiter.perform s.1 s.2, (w.limiter.checkOf id s.1 s.2).toList ++ w.checks⟩

/-- A run of actions from the start. -/
def run (id : String) (steps : List (Nat × Action)) : Watch := steps.foldl (step id) start

end Watch

namespace Checked

/-- The checks since the window opened, given all checks with the latest first. -/
def inWindow : List Checked → List Checked
  | [] => []
  | c :: earlier => if c.opened then [c] else c :: inWindow earlier

/-- What checks under one limit leave: times do not decrease, a window opens at least its length after
every earlier one, and none admits more than the limit. -/
inductive Spaced (limit : RateLimit) : List Checked → Prop
  | nil : Spaced limit []
  | cons {c : Checked} {earlier : List Checked} : Spaced limit earlier →
      (∀ e ∈ earlier, e.time ≤ c.time) →
      (c.opened = true → ∀ e ∈ earlier, e.opened = true → e.time + limit.window ≤ c.time) →
      (inWindow (c :: earlier)).countP (·.admitted) ≤ limit.requests → Spaced limit (c :: earlier)

/-- The number of admissions. -/
def admissions (checks : List Checked) : Nat := checks.countP (·.admitted)

/-- The number of admissions at `a` or later and before `b`. -/
def admissionsIn (a b : Nat) (checks : List Checked) : Nat :=
  checks.countP fun c => c.admitted && a ≤ c.time && c.time < b

/-- The number of windows opened at `a` or later and before `b`. -/
def openingsIn (a b : Nat) (checks : List Checked) : Nat :=
  checks.countP fun c => c.opened && a ≤ c.time && c.time < b

theorem Spaced.admissions_inWindow_le {limit : RateLimit} {checks : List Checked}
    (h : Spaced limit checks) : admissions (inWindow checks) ≤ limit.requests := by
  cases h with
  | nil => simp [inWindow, admissions]
  | cons _ _ _ hle => exact hle

end Checked

open Checked

/-! ## One check -/

/-- The window in force for a check is a new one exactly if the check opens it. -/
theorem windowAt_of_opens {l : Limiter} {now : Nat} {id : String} {length : Nat}
    (h : l.opens now id length = true) : l.windowAt now id length = ⟨0, now, length⟩ := by
  unfold windowAt
  unfold opens at h
  cases hw : l.windows.get? id with
  | none => simp
  | some w =>
    rw [hw] at h
    simp only [Option.all_some] at h
    simp only [Option.getD_some, h, if_true]

theorem windowAt_of_not_opens {l : Limiter} {now : Nat} {id : String} {length : Nat}
    (h : l.opens now id length = false) :
    ∃ w, l.windows.get? id = some w ∧ l.windowAt now id length = { w with length } := by
  unfold opens at h
  unfold windowAt
  cases hw : l.windows.get? id with
  | none => simp [hw] at h
  | some w =>
    rw [hw] at h
    simp only [Option.all_some] at h
    exact ⟨w, rfl, by simp only [Option.getD_some, h, Bool.false_eq_true, if_false]⟩

/-- The window in force has the length asked for. -/
theorem length_windowAt (l : Limiter) (now : Nat) (id : String) (length : Nat) :
    (l.windowAt now id length).length = length := by
  unfold windowAt
  dsimp only
  split <;> rfl

/-- A window in force has not elapsed. -/
theorem elapsed_windowAt (l : Limiter) (now : Nat) (id : String) {length : Nat} (hpos : 0 < length) :
    (l.windowAt now id length).elapsed now = false := by
  unfold windowAt
  dsimp only
  split
  · simp [Window.elapsed, Nat.pos_iff_ne_zero.1 hpos]
  · next hstill => simpa using hstill

theorem check_admitted_iff {l : Limiter} {now : Nat} {id : String} {limit : RateLimit} :
    (l.check now id limit).1 = .admitted ↔
      (l.windowAt now id limit.window).count < limit.requests := by
  unfold check
  dsimp only
  split <;> simp_all

/-- A check stores the window in force, with one more admission if it was one. -/
theorem get?_check (l : Limiter) (now : Nat) (id : String) (limit : RateLimit) (k : String) :
    (l.check now id limit).2.windows.get? k =
      if id = k then
        let w := l.windowAt now id limit.window
        some { w with count := w.count + if (l.check now id limit).1 = .admitted then 1 else 0 }
      else l.windows.get? k := by
  unfold check
  dsimp only
  split <;> simp [Dict.get?_insert]

theorem perform_of_checked {l : Limiter} {now : Nat} {a : Action} {id : String} {limit : RateLimit}
    (h : a.checked? = some (id, limit)) : l.perform now a = (l.check now id limit).2 := by
  cases a with
  | check id' limit' =>
    simp only [Action.checked?, Option.some.injEq, Prod.mk.injEq] at h
    rw [← h.1, ← h.2]
    rfl
  | enter id' limit' =>
    cases limit' with
    | none => simp [Action.checked?] at h
    | some limit' =>
      simp only [Action.checked?, Option.map_some, Option.some.injEq, Prod.mk.injEq] at h
      obtain ⟨rfl, rfl⟩ := h
      simp only [perform, enter]
      rcases hc : l.check now id' limit' with ⟨_ | retryAfter, l'⟩
      · rfl
      · simp only
        split <;> rfl
  | _ => simp [Action.checked?] at h

/-! ## One action -/

/-- An action that does not check the source leaves its window or removes it. A sweep removes it only
if it has elapsed. -/
theorem get?_perform_of_not_checked (l : Limiter) (now : Nat) {a : Action} {id : String}
    (h : ∀ limit, a.checked? ≠ some (id, limit)) :
    (l.perform now a).windows.get? id = l.windows.get? id ∨
      ((l.perform now a).windows.get? id = none ∧
        (a = .reset id ∨ a = .clear ∨ ∃ w, l.windows.get? id = some w ∧ w.elapsed now = true)) := by
  have other : ∀ id' limit, a.checked? = some (id', limit) →
      (l.perform now a).windows.get? id = l.windows.get? id := by
    intro id' limit ha
    rw [perform_of_checked ha, get?_check, if_neg]
    rintro rfl
    exact h limit ha
  cases a with
  | check id' limit => exact .inl (other id' limit rfl)
  | enter id' limit =>
    cases limit with
    | none => exact .inl rfl
    | some limit => exact .inl (other id' limit rfl)
  | count id' => exact .inl rfl
  | reset id' =>
    simp only [perform, reset]
    by_cases hid : id' = id
    · subst hid
      exact .inr ⟨Dict.get?_erase_self .., .inl rfl⟩
    · exact .inl (Dict.get?_erase_of_ne _ hid)
  | clear => exact .inr ⟨rfl, .inr (.inl rfl)⟩
  | sweep =>
    simp only [perform, sweep, Dict.get?_filter]
    cases hw : l.windows.get? id with
    | none => exact .inl rfl
    | some w =>
      cases he : w.elapsed now with
      | false => exact .inl (by simp [he])
      | true => exact .inr ⟨by simp [he], .inr (.inr ⟨w, rfl, he⟩)⟩

/-- A window after an action was there before, or a check of the source has stored it. -/
theorem get?_perform_eq_some {l : Limiter} {now : Nat} {a : Action} {id : String} {w : Window}
    (h : (l.perform now a).windows.get? id = some w) :
    l.windows.get? id = some w ∨
      ∃ limit, a.checked? = some (id, limit) ∧
        (l.check now id limit).2.windows.get? id = some w := by
  by_cases hc : ∃ limit, a.checked? = some (id, limit)
  · obtain ⟨limit, hc⟩ := hc
    exact .inr ⟨limit, hc, perform_of_checked hc ▸ h⟩
  · have hother : ∀ limit, a.checked? ≠ some (id, limit) := fun limit heq => hc ⟨limit, heq⟩
    rcases get?_perform_of_not_checked l now hother with heq | ⟨hnone, -⟩
    · exact .inl (heq ▸ h)
    · rw [hnone] at h
      cases h

namespace Watch

/-- What one action does to the watched source: it is a check of it, or it checks something else. -/
theorem step_cases (id : String) (w : Watch) (now : Nat) (a : Action) :
    (∃ limit, a.checked? = some (id, limit) ∧ w.step id (now, a) =
      ⟨(w.limiter.check now id limit).2,
        ⟨now, limit, w.limiter.opens now id limit.window,
          (w.limiter.check now id limit).1 = .admitted⟩ :: w.checks⟩) ∨
    ((∀ limit, a.checked? ≠ some (id, limit)) ∧
      w.step id (now, a) = ⟨w.limiter.perform now a, w.checks⟩) := by
  unfold step checkOf
  rcases hc : a.checked? with _ | ⟨id', limit⟩
  · exact .inr ⟨by simp, by simp⟩
  · by_cases hid : id' = id
    · subst hid
      exact .inl ⟨limit, rfl, by simp [perform_of_checked hc]⟩
    · refine .inr ⟨fun limit' h => hid ?_, by simp [hid]⟩
      simp only [Option.some.injEq, Prod.mk.injEq] at h
      exact h.1

theorem run_append (id : String) (steps : List (Nat × Action)) (s : Nat × Action) :
    run id (steps ++ [s]) = (run id steps).step id s := by
  simp [run]

/-! ## The count -/

/-- The stored count is the number of admissions since the window opened. -/
def Counted (id : String) (w : Watch) : Prop :=
  ∀ window, w.limiter.windows.get? id = some window →
    window.count = admissions (inWindow w.checks)

/-- The count after a check is the number of admissions in its window, this one included. -/
theorem Counted.count_check {id : String} {w : Watch} (h : w.Counted id) (now : Nat)
    (limit : RateLimit) (admitted : Bool) :
    (w.limiter.windowAt now id limit.window).count + (if admitted then 1 else 0) =
      admissions (inWindow
        (⟨now, limit, w.limiter.opens now id limit.window, admitted⟩ :: w.checks)) := by
  cases ho : w.limiter.opens now id limit.window with
  | true =>
    rw [windowAt_of_opens ho]
    cases admitted <;> simp [inWindow, admissions]
  | false =>
    obtain ⟨window, hw, hat⟩ := windowAt_of_not_opens ho
    rw [hat]
    simp only [h window hw]
    cases admitted <;> simp [inWindow, admissions]

theorem Counted.step {id : String} {w : Watch} (h : w.Counted id) (s : Nat × Action) :
    (w.step id s).Counted id := by
  obtain ⟨now, a⟩ := s
  rcases w.step_cases id now a with ⟨limit, _, hs⟩ | ⟨hn, hs⟩
  · rw [hs]
    intro window hw
    simp only [get?_check, if_true, Option.some.injEq] at hw
    subst hw
    have := h.count_check now limit (decide ((w.limiter.check now id limit).1 = .admitted))
    simpa using this
  · rw [hs]
    intro window hw
    rcases get?_perform_of_not_checked w.limiter now hn with heq | ⟨hnone, _⟩
    · exact h window (heq ▸ hw)
    · simp [hnone] at hw

theorem counted_run (id : String) (steps : List (Nat × Action)) : (run id steps).Counted id := by
  induction steps using List.reverseRecOn with
  | nil => intro window hw; cases hw
  | append_singleton steps s ih => rw [run_append]; exact ih.step s

end Watch

/-! ## One limit throughout -/

/-- The action checks `id` only against `limit`, and does not make its window forgotten. -/
def Action.Keeps (id : String) (limit : RateLimit) : Action → Prop
  | .check id' limit' => id' = id → limit' = limit
  | .enter id' limit' => id' = id → limit' = some limit
  | .reset id' => id' ≠ id
  | .clear => False
  | _ => True

theorem Action.Keeps.eq_of_checked {id : String} {limit limit' : RateLimit} {a : Action}
    (h : a.Keeps id limit) (hc : a.checked? = some (id, limit')) : limit' = limit := by
  cases a with
  | check id' l =>
    simp only [Action.checked?, Option.some.injEq, Prod.mk.injEq] at hc
    exact hc.2 ▸ h hc.1
  | enter id' l =>
    cases l with
    | none => simp [Action.checked?] at hc
    | some l =>
      simp only [Action.checked?, Option.map_some, Option.some.injEq, Prod.mk.injEq] at hc
      have := h hc.1
      simp only [Option.some.injEq] at this
      rw [← hc.2, this]
  | _ => simp [Action.checked?] at hc

namespace Watch

/-- The window that is kept is the last one opened, and one that is gone has elapsed. -/
structure InForce (id : String) (limit : RateLimit) (now : Nat) (w : Watch) : Prop where
  spaced : Spaced limit w.checks
  past : ∀ c ∈ w.checks, c.time ≤ now
  kept : ∀ window, w.limiter.windows.get? id = some window →
    window.length = limit.window ∧ ∀ c ∈ w.checks, c.opened = true → c.time ≤ window.start
  gone : w.limiter.windows.get? id = none →
    ∀ c ∈ w.checks, c.opened = true → c.time + limit.window ≤ now

theorem InForce.later {id : String} {limit : RateLimit} {now now' : Nat} {w : Watch}
    (h : w.InForce id limit now) (hle : now ≤ now') : w.InForce id limit now' where
  spaced := h.spaced
  past c hc := Nat.le_trans (h.past c hc) hle
  kept := h.kept
  gone hn c hc ho := Nat.le_trans (h.gone hn c hc ho) hle

/-- A check that opens a window comes the length of a window after every earlier opening. -/
theorem InForce.opening {id : String} {limit : RateLimit} {now : Nat} {w : Watch}
    (h : w.InForce id limit now) (hpos : 0 < limit.window)
    (ho : w.limiter.opens now id limit.window = true) :
    ∀ c ∈ w.checks, c.opened = true → c.time + limit.window ≤ now := by
  intro c hc hco
  cases hw : w.limiter.windows.get? id with
  | none => exact h.gone hw c hc hco
  | some window =>
    have hle := (h.kept window hw).2 c hc hco
    unfold opens at ho
    simp only [hw, Option.all_some, Window.elapsed, decide_eq_true_eq] at ho
    omega

theorem InForce.check {id : String} {limit : RateLimit} {now : Nat} {w : Watch}
    (h : w.InForce id limit now) (hpos : 0 < limit.window) (hcount : w.Counted id) :
    InForce id limit now ⟨(w.limiter.check now id limit).2,
      ⟨now, limit, w.limiter.opens now id limit.window,
        (w.limiter.check now id limit).1 = .admitted⟩ :: w.checks⟩ where
  spaced := by
    refine .cons h.spaced h.past (fun ho => h.opening hpos ho) ?_
    have hc := hcount.count_check now limit
      (decide ((w.limiter.check now id limit).1 = .admitted))
    rw [admissions] at hc
    rw [← hc]
    by_cases ha : (w.limiter.check now id limit).1 = .admitted
    · have := check_admitted_iff.1 ha
      simp only [ha, decide_true, if_true]
      omega
    · -- a refused check is not above the limit either: its window is new, or as it was
      simp only [ha, decide_false, Bool.false_eq_true, if_false, Nat.add_zero]
      cases ho : w.limiter.opens now id limit.window with
      | true => rw [windowAt_of_opens ho]; exact Nat.zero_le _
      | false =>
        obtain ⟨window, hw, hat⟩ := windowAt_of_not_opens ho
        rw [hat]
        simp only [hcount window hw]
        exact h.spaced.admissions_inWindow_le
  past := by
    intro c hc
    rcases List.mem_cons.1 hc with rfl | hc
    · exact Nat.le_refl _
    · exact h.past c hc
  kept := by
    intro window hw
    simp only [get?_check, if_true, Option.some.injEq] at hw
    subst hw
    cases ho : w.limiter.opens now id limit.window with
    | true =>
      rw [windowAt_of_opens ho]
      refine ⟨rfl, fun c hc _ => ?_⟩
      rcases List.mem_cons.1 hc with rfl | hc
      · exact Nat.le_refl _
      · exact h.past c hc
    | false =>
      obtain ⟨window, hw, hat⟩ := windowAt_of_not_opens ho
      rw [hat]
      refine ⟨rfl, fun c hc hco => ?_⟩
      rcases List.mem_cons.1 hc with rfl | hc
      · cases hco
      · exact (h.kept window hw).2 c hc hco
  gone := by
    intro hn
    simp [get?_check] at hn

theorem InForce.step {id : String} {limit : RateLimit} {now : Nat} {w : Watch}
    (h : w.InForce id limit now) (hpos : 0 < limit.window) (hcount : w.Counted id) {a : Action}
    (ha : a.Keeps id limit) : (w.step id (now, a)).InForce id limit now := by
  rcases w.step_cases id now a with ⟨limit', hc, hs⟩ | ⟨hn, hs⟩
  · obtain rfl := ha.eq_of_checked hc
    rw [hs]
    exact h.check hpos hcount
  · rw [hs]
    rcases get?_perform_of_not_checked w.limiter now hn with heq | ⟨hnone, hwhy⟩
    · exact ⟨h.spaced, h.past, fun window hw => h.kept window (heq ▸ hw),
        fun hg => h.gone (heq ▸ hg)⟩
    · refine ⟨h.spaced, h.past, fun window hw => by simp [hnone] at hw, fun _ c hc hco => ?_⟩
      obtain rfl | rfl | ⟨window, hw, he⟩ := hwhy
      · exact absurd rfl ha
      · exact ha.elim
      · obtain ⟨hlen, hstart⟩ := h.kept window hw
        have hle := hstart c hc hco
        simp only [Window.elapsed, decide_eq_true_eq] at he
        omega

theorem inForce_run {id : String} {limit : RateLimit} (hpos : 0 < limit.window)
    {steps : List (Nat × Action)} (hsteps : steps.Pairwise fun s s' => s.1 ≤ s'.1)
    (hkeeps : ∀ s ∈ steps, s.2.Keeps id limit) {now : Nat} (hnow : ∀ s ∈ steps, s.1 ≤ now) :
    (run id steps).InForce id limit now := by
  induction steps using List.reverseRecOn generalizing now with
  | nil => exact ⟨.nil, by simp [run, start], fun _ hw => (by cases hw), by simp [run, start]⟩
  | append_singleton steps s ih =>
    obtain ⟨hbefore, -, hlast⟩ := List.pairwise_append.1 hsteps
    have hs : (run id steps).InForce id limit s.1 :=
      ih hbefore (fun x hx => hkeeps x (List.mem_append_left _ hx))
        fun x hx => hlast x hx s (List.mem_singleton_self s)
    rw [run_append]
    exact (hs.step hpos (counted_run id steps) (hkeeps s (by simp))).later (hnow s (by simp))

theorem spaced_run {id : String} {limit : RateLimit} (hpos : 0 < limit.window)
    {steps : List (Nat × Action)} (hsteps : steps.Pairwise fun s s' => s.1 ≤ s'.1)
    (hkeeps : ∀ s ∈ steps, s.2.Keeps id limit) : Spaced limit (run id steps).checks := by
  cases steps using List.reverseRecOn with
  | nil => exact .nil
  | append_singleton steps s =>
    have hlast : ∀ x ∈ steps ++ [s], x.1 ≤ s.1 := by
      intro x hx
      rcases List.mem_append.1 hx with hx | hx
      · exact (List.pairwise_append.1 hsteps).2.2 x hx s (List.mem_singleton_self s)
      · rw [List.mem_singleton.1 hx]
    exact (inForce_run hpos hsteps hkeeps hlast).spaced

end Watch

/-! ## Admissions in an interval -/

namespace Checked.Spaced

variable {limit : RateLimit} {checks : List Checked}

/-- The openings, the latest first, are the length of a window apart. -/
theorem openings (h : Spaced limit checks) :
    (checks.filter (·.opened)).Pairwise fun later earlier =>
      earlier.time + limit.window ≤ later.time := by
  induction h with
  | nil => exact List.Pairwise.nil
  | @cons c earlier _ _ ho _ ih =>
    cases hc : c.opened with
    | false => simpa [hc] using ih
    | true =>
      rw [List.filter_cons_of_pos hc]
      refine List.pairwise_cons.2 ⟨fun e he => ?_, ih⟩
      obtain ⟨hmem, heo⟩ := List.mem_filter.1 he
      exact ho hc e hmem heo

/-- The last of `n + 1` openings from `a` on comes at least `n` windows after `a`. -/
theorem last_opening (h : Spaced limit checks) {a b n : Nat} (hn : openingsIn a b checks = n + 1) :
    ∃ c ∈ checks, c.opened = true ∧ a + n * limit.window ≤ c.time ∧ c.time < b := by
  induction h generalizing n with
  | nil => simp [openingsIn] at hn
  | @cons c earlier _ _ ho _ ih =>
    by_cases hc : (c.opened && a ≤ c.time && c.time < b) = true
    · simp only [openingsIn, List.countP_cons, hc, if_true, Nat.add_right_cancel_iff] at hn
      simp only [Bool.and_eq_true, decide_eq_true_eq] at hc
      obtain ⟨⟨hopen, ha⟩, hb⟩ := hc
      refine ⟨c, List.mem_cons_self, hopen, ?_, hb⟩
      cases n with
      | zero => simpa using ha
      | succ n =>
        obtain ⟨e, he, heo, hle, -⟩ := ih hn
        have := ho hopen e he heo
        rw [Nat.succ_mul]
        omega
    · simp only [openingsIn, List.countP_cons, hc, if_false, Bool.false_eq_true,
        Nat.add_zero] at hn
      obtain ⟨e, he, hrest⟩ := ih hn
      exact ⟨e, List.mem_cons_of_mem _ he, hrest⟩

theorem openings_le (h : Spaced limit checks) (hpos : 0 < limit.window) (a length : Nat) :
    openingsIn a (a + length) checks ≤ length ⌈/⌉ limit.window := by
  cases hn : openingsIn a (a + length) checks with
  | zero => exact Nat.zero_le _
  | succ n =>
    obtain ⟨c, -, -, hle, hlt⟩ := h.last_opening hn
    rw [Nat.ceilDiv_eq_add_pred_div, Nat.le_div_iff_mul_le hpos, Nat.succ_mul]
    omega

/-- Up to the end of an interval, what the current window may still admit is spare. -/
theorem admissions_add_le (h : Spaced limit checks) {a b : Nat} (hb : ∀ c ∈ checks, c.time < b) :
    admissionsIn a b checks + limit.requests ≤
      limit.requests * (openingsIn a b checks + 1) + admissions (inWindow checks) := by
  induction h with
  | nil => simp [admissionsIn, openingsIn]
  | @cons c earlier hs hpast ho hle ih =>
    have ih := ih fun e he => hb e (List.mem_cons_of_mem _ he)
    have hbc := hb c List.mem_cons_self
    have hk := hs.admissions_inWindow_le
    cases hopen : c.opened with
    | false =>
      -- the window goes on
      simp only [admissionsIn, openingsIn, admissions, inWindow, List.countP_cons, hopen,
        Bool.false_and, Bool.false_eq_true, if_false, Nat.add_zero] at ih ⊢
      cases c.admitted <;> by_cases ha : a ≤ c.time <;> simp [ha, hbc] <;> omega
    | true =>
      by_cases ha : a ≤ c.time
      · -- a window opens within the interval
        simp only [admissionsIn, openingsIn, admissions, inWindow, List.countP_cons, hopen, ha,
          hbc, decide_true, Bool.and_true, if_true, List.countP_nil] at ih hk ⊢
        rw [Nat.mul_add _ (_ + 1) 1]
        cases c.admitted <;> simp <;> omega
      · -- the interval has not begun
        have hzero : admissionsIn a b earlier = 0 := by
          refine List.countP_eq_zero.2 fun e he => ?_
          have := hpast e he
          simp only [Bool.and_eq_true, decide_eq_true_eq, not_and]
          omega
        rw [admissionsIn] at hzero
        simp only [admissionsIn, List.countP_cons, hzero, ha, decide_false, Bool.and_false,
          Bool.false_and, Bool.false_eq_true, if_false, Nat.zero_add]
        exact Nat.le_add_right_of_le (Nat.le_mul_of_pos_right _ (Nat.succ_pos _))

theorem admissions_le_openings (h : Spaced limit checks) (a b : Nat) :
    admissionsIn a b checks ≤ limit.requests * (openingsIn a b checks + 1) := by
  induction h with
  | nil => simp [admissionsIn]
  | @cons c earlier hs hpast ho hle ih =>
    by_cases hb : c.time < b
    · have hall : Spaced limit (c :: earlier) := .cons hs hpast ho hle
      have hbound := hall.admissions_inWindow_le
      have := hall.admissions_add_le (a := a) (b := b) fun e he => by
        rcases List.mem_cons.1 he with rfl | he
        · exact hb
        · exact Nat.lt_of_le_of_lt (hpast e he) hb
      omega
    · simpa [admissionsIn, openingsIn, hb] using ih

end Checked.Spaced

/-! ## Runs -/

open Watch

theorem count?_check_of_admitted {id : String} {w : Watch} (hw : w.Counted id) {now : Nat}
    {limit : RateLimit} (ha : (w.limiter.check now id limit).1 = .admitted) :
    ∃ n, (w.step id (now, .check id limit)).limiter.count? id = some n ∧
      n = admissions (inWindow (w.step id (now, .check id limit)).checks) ∧
      n ≤ limit.requests := by
  have hn := hw.count_check now limit true
  have hlt := check_admitted_iff.1 ha
  simp only [if_true] at hn
  refine ⟨(w.limiter.windowAt now id limit.window).count + 1, ?_, ?_, by omega⟩
  · simp [Watch.step, perform, count?, get?_check, ha]
  · rw [hn]
    simp [Watch.step, checkOf, Action.checked?, ha]

/-- A refused check leaves the count as it was, unless it opens a window that admits nothing. -/
theorem count?_check_of_limited {l : Limiter} {now : Nat} {id : String} {limit : RateLimit}
    {retryAfter : Nat} (hr : (l.check now id limit).1 = .limited retryAfter) :
    if l.opens now id limit.window then
      limit.requests = 0 ∧ (l.check now id limit).2.count? id = some 0
    else (l.check now id limit).2.count? id = l.count? id := by
  have hne : (l.check now id limit).1 ≠ .admitted := by simp [hr]
  have hfull := mt check_admitted_iff.2 hne
  cases ho : l.opens now id limit.window with
  | true =>
    rw [windowAt_of_opens ho] at hfull
    refine ⟨by simpa using hfull, ?_⟩
    simp [count?, get?_check, hne, windowAt_of_opens ho]
  | false =>
    obtain ⟨w, hw, hat⟩ := windowAt_of_not_opens ho
    simp [count?, get?_check, hne, hat, hw]

/-- The stored count is exact, an admitted call is within its limit, and with one limit throughout the
admissions in an interval are bounded by the windows that fit into it. -/
theorem count_eq_and_admissionsIn_le (id : String) (steps : List (Nat × Action))
    (hsteps : steps.Pairwise fun s s' => s.1 ≤ s'.1) :
    (∀ n, (run id steps).limiter.count? id = some n →
      n = admissions (inWindow (run id steps).checks)) ∧
    (∀ now limit,
      match ((run id steps).limiter.check now id limit).1 with
      | .admitted =>
        let after := run id (steps ++ [(now, .check id limit)])
        ∃ n, after.limiter.count? id = some n ∧ n = admissions (inWindow after.checks) ∧
          n ≤ limit.requests ∧ (limit.requests < 2 ^ 32 → n < 2 ^ 32)
      | .limited _ =>
        let after := ((run id steps).limiter.check now id limit).2
        if (run id steps).limiter.opens now id limit.window then
          limit.requests = 0 ∧ after.count? id = some 0
        else after.count? id = (run id steps).limiter.count? id) ∧
    (∀ limit, 0 < limit.window → (∀ s ∈ steps, s.2.Keeps id limit) →
      ((run id steps).checks.filter (·.opened)).Pairwise (fun later earlier =>
        earlier.time + limit.window ≤ later.time) ∧
      (∀ a length, admissionsIn a (a + length) (run id steps).checks ≤
        limit.requests * (length ⌈/⌉ limit.window + 1)) ∧
      ∀ a, admissionsIn a (a + limit.window) (run id steps).checks ≤ 2 * limit.requests) := by
  refine ⟨fun n hn => ?_, fun now limit => ?_, fun limit hpos hkeeps => ?_⟩
  · simp only [count?, Option.map_eq_some_iff] at hn
    obtain ⟨window, hw, rfl⟩ := hn
    exact counted_run id steps window hw
  · cases ha : ((run id steps).limiter.check now id limit).1 with
    | admitted =>
      obtain ⟨n, hcount, hn, hle⟩ := count?_check_of_admitted (counted_run id steps) ha
      simp only [run_append]
      exact ⟨n, hcount, hn, hle, fun hlt => Nat.lt_of_le_of_lt hle hlt⟩
    | limited retryAfter => exact count?_check_of_limited ha
  · have hspaced := spaced_run hpos hsteps hkeeps
    have hbound : ∀ a length, admissionsIn a (a + length) (run id steps).checks ≤
        limit.requests * (length ⌈/⌉ limit.window + 1) := fun a length =>
      Nat.le_trans (hspaced.admissions_le_openings a (a + length))
        (Nat.mul_le_mul_left _ (Nat.succ_le_succ (hspaced.openings_le hpos a length)))
    refine ⟨hspaced.openings, hbound, fun a => ?_⟩
    have hone : limit.window ⌈/⌉ limit.window = 1 := by
      rw [Nat.ceilDiv_eq_add_pred_div, Nat.div_eq_iff hpos]
      omega
    have := hbound a limit.window
    rw [hone] at this
    omega

/-- A source that is checked at 0 and 100 against one limit, with a sweep and another source between. -/
theorem count_eq_and_admissionsIn_le_two_windows :
    let limit : RateLimit := ⟨1, 100, false, none⟩
    let steps := [(0, Action.check "a" limit), (60, .check "b" ⟨0, 5, false, none⟩), (100, .sweep),
      (100, .enter "a" (some limit))]
    (steps.Pairwise fun s s' => s.1 ≤ s'.1) ∧ (∀ s ∈ steps, s.2.Keeps "a" limit) ∧
      (run "a" steps).limiter.count? "a" = some 1 ∧
      admissionsIn 0 101 (run "a" steps).checks = 2 ∧
      ((run "a" steps).limiter.check 150 "a" limit).1 = .limited 50 ∧
      admissionsIn 1 101 (run "a" steps).checks ≤ 2 * limit.requests := by
  intro limit steps
  have hsteps : steps.Pairwise fun s s' => s.1 ≤ s'.1 := by decide
  have hkeeps : ∀ s ∈ steps, s.2.Keeps "a" limit := by simp [steps, Action.Keeps]
  refine ⟨hsteps, hkeeps, by decide, by decide, by decide, ?_⟩
  exact ((count_eq_and_admissionsIn_le "a" steps hsteps).2.2 limit (by decide) hkeeps).2.2 1

/-- A refused check may change the count: against a limit of no requests it opens a window in which
nothing is counted. -/
theorem refused_check_changes_count :
    ¬∀ (l : Limiter) (now : Nat) (id : String) (limit : RateLimit) (retryAfter : Nat),
      (l.check now id limit).1 = .limited retryAfter →
        (l.check now id limit).2.count? id = l.count? id := by
  intro h
  have hchange := h (empty.check 0 "a" ⟨1, 100, false, none⟩).2 100 "a" ⟨0, 100, false, none⟩ 100
    (by decide)
  revert hchange
  decide

end Egress.Limiter
