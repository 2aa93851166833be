import Egress.Proofs.Cache.Contents
import Egress.Proofs.Limiter.Windows

/-!
# Limiters that answer alike

A window is kept with the length that the last check asked for. Where the checks of a source all ask for
one length (`Measures`), what is done to other sources and sweeps change nothing for its later checks
(`Measures.perform`), and after a check its window is the one that is kept (`windowAt_check`).

`Agree` relates limiters in which every later check finds the same window in force. They may differ in
windows that have elapsed, which a sweep takes.
-/

set_option autoImplicit false

namespace Egress

/-- The window in force at a later time if nobody checks until then. -/
def Window.renewed (w : Window) (t : Nat) : Window := if w.elapsed t then ⟨0, t, w.length⟩ else w

theorem Window.renewed_of_elapsed {w : Window} {t : Nat} (h : w.elapsed t = true) :
    w.renewed t = ⟨0, t, w.length⟩ := if_pos h

theorem Window.renewed_of_not_elapsed {w : Window} {t : Nat} (h : w.elapsed t = false) :
    w.renewed t = w := by
  simp [renewed, h]

theorem Window.elapsed_mono {w : Window} {t u : Nat} (h : w.elapsed t = true) (htu : t ≤ u) :
    w.elapsed u = true := by
  simp only [elapsed, decide_eq_true_eq] at h ⊢
  omega

namespace Limiter

/-- The action is not on the source. A sweep is on no source. -/
def Action.Spares (id : String) : Action → Prop
  | .check id' _ => id' ≠ id
  | .enter id' _ => id' ≠ id
  | .reset id' => id' ≠ id
  | .clear => False
  | .count _ => True
  | .sweep => True

theorem Action.Spares.not_checked {id : String} {a : Action} (h : a.Spares id) (limit : RateLimit) :
    a.checked? ≠ some (id, limit) := by
  intro hc
  cases a with
  | check id' limit' =>
    simp only [Action.checked?, Option.some.injEq, Prod.mk.injEq] at hc
    exact h hc.1
  | enter id' limit' =>
    cases limit' with
    | none => cases hc
    | some limit' =>
      simp only [Action.checked?, Option.map_some, Option.some.injEq, Prod.mk.injEq] at hc
      exact h hc.1
  | _ => cases hc

/-! ## The window in force -/

/-- The window of the source, if there is one, has the length. -/
def Measures (l : Limiter) (id : String) (length : Nat) : Prop :=
  ∀ w, l.windows.get? id = some w → w.length = length

variable {l : Limiter} {id : String} {length t : Nat}

theorem windowAt_of_none (h : l.windows.get? id = none) (t length : Nat) :
    l.windowAt t id length = ⟨0, t, length⟩ := by
  simp [windowAt, h]

theorem windowAt_of_some {w : Window} (h : l.windows.get? id = some w) (hlength : w.length = length)
    (t : Nat) : l.windowAt t id length = w.renewed t := by
  subst hlength
  simp only [windowAt, h, Option.getD_some, Window.renewed]

/-- What is not done to the source changes nothing for it later on, even a sweep. -/
theorem Measures.perform (h : l.Measures id length) {u : Nat} {a : Action} (ha : a.Spares id) :
    (l.perform u a).Measures id length ∧
      ∀ t, u ≤ t → (l.perform u a).windowAt t id length = l.windowAt t id length := by
  rcases get?_perform_of_not_checked l u ha.not_checked with heq | ⟨hnone, hwhy⟩
  · refine ⟨fun w hw => h w (heq ▸ hw), fun t _ => ?_⟩
    simp only [windowAt, heq]
  · refine ⟨fun w hw => ?_, fun t ht => ?_⟩
    · rw [hnone] at hw
      cases hw
    obtain rfl | rfl | ⟨w, hw, helapsed⟩ := hwhy
    · exact absurd rfl ha
    · exact ha.elim
    -- no window is as good as one that has elapsed: the next check opens a new one in either case
    · have hlength := h w hw
      rw [windowAt_of_none hnone, windowAt_of_some hw hlength,
        Window.renewed_of_elapsed (Window.elapsed_mono helapsed ht), hlength]

section

variable {limit : RateLimit} {w : Window}

/-- After a check its window is the one that is kept, with one more call if there was one free. -/
theorem windowAt_check (hw : l.windowAt t id limit.window = w) :
    let counted : Window := { w with count := if w.count < limit.requests then w.count + 1 else w.count }
    (l.check t id limit).2.Measures id limit.window ∧
      ∀ u, (l.check t id limit).2.windowAt u id limit.window = counted.renewed u := by
  intro counted
  have hget : (l.check t id limit).2.windows.get? id = some counted := by
    rw [get?_check, if_pos rfl]
    by_cases hfree : w.count < limit.requests
    · have hadmitted : (l.check t id limit).1 = .admitted := check_admitted_iff.2 (hw ▸ hfree)
      simp only [counted, hw, hadmitted, if_pos, hfree]
    · have hlimited : (l.check t id limit).1 ≠ .admitted :=
        fun ha => hfree (hw ▸ check_admitted_iff.1 ha)
      simp only [counted, hw, if_neg hlimited, if_neg hfree, Nat.add_zero]
  have hlength : counted.length = limit.window := by
    show w.length = limit.window
    rw [← hw]
    exact l.length_windowAt t id limit.window
  refine ⟨fun v hv => ?_, fun u => windowAt_of_some hget hlength u⟩
  rw [hget] at hv
  cases hv
  exact hlength

end

/-! ## Two limiters -/

/-- From a time on the window in force is the same in both limiters, for checks with the lengths given. -/
structure Agree (window : String → Nat) (now : Nat) (l l' : Limiter) : Prop where
  measures : ∀ id, l.Measures id (window id)
  measures' : ∀ id, l'.Measures id (window id)
  same : ∀ t id, now ≤ t → l'.windowAt t id (window id) = l.windowAt t id (window id)

variable {window : String → Nat} {now : Nat} {l l' : Limiter}

theorem measures_of_none {id : String} (h : l.windows.get? id = none) (length : Nat) :
    l.Measures id length := by
  intro w hw
  rw [h] at hw
  cases hw

theorem agree_empty (window : String → Nat) (now : Nat) : Agree window now .empty .empty :=
  ⟨fun _ => measures_of_none rfl _, fun _ => measures_of_none rfl _, fun _ _ _ => rfl⟩

theorem Agree.mono (h : Agree window now l l') {t : Nat} (ht : now ≤ t) : Agree window t l l' :=
  ⟨h.measures, h.measures', fun u id hu => h.same u id (Nat.le_trans ht hu)⟩

theorem windowAt_congr {id : String} (h : l.windows.get? id = l'.windows.get? id) (t length : Nat) :
    l.windowAt t id length = l'.windowAt t id length := by
  simp only [windowAt, h]

/-- Both limiters change for one source, in the same way as far as later checks can see. -/
theorem Agree.change (h : Agree window now l l') {id : String} {after after' : Limiter}
    (hmeasures : after.Measures id (window id)) (hmeasures' : after'.Measures id (window id))
    (hsame : ∀ t, now ≤ t → after'.windowAt t id (window id) = after.windowAt t id (window id))
    (hother : ∀ k, id ≠ k → after.windows.get? k = l.windows.get? k)
    (hother' : ∀ k, id ≠ k → after'.windows.get? k = l'.windows.get? k) :
    Agree window now after after' := by
  refine ⟨fun k => ?_, fun k => ?_, fun t k ht => ?_⟩
  · by_cases hk : id = k
    · exact hk ▸ hmeasures
    · intro w hw
      exact h.measures k w (hother k hk ▸ hw)
  · by_cases hk : id = k
    · exact hk ▸ hmeasures'
    · intro w hw
      exact h.measures' k w (hother' k hk ▸ hw)
  · by_cases hk : id = k
    · exact hk ▸ hsame t ht
    · rw [windowAt_congr (hother k hk), windowAt_congr (hother' k hk)]
      exact h.same t k ht

theorem Agree.check (h : Agree window now l l') {id : String} {limit : RateLimit}
    (hlimit : limit.window = window id) :
    (l'.check now id limit).1 = (l.check now id limit).1 ∧
      Agree window now (l.check now id limit).2 (l'.check now id limit).2 := by
  have hin : l'.windowAt now id limit.window = l.windowAt now id limit.window := by
    rw [hlimit]
    exact h.same now id (Nat.le_refl now)
  obtain ⟨hchecked, hrenewed⟩ := @windowAt_check l id now limit _ rfl
  obtain ⟨hchecked', hrenewed'⟩ := windowAt_check hin
  have hother : ∀ (l : Limiter) k, id ≠ k →
      (l.check now id limit).2.windows.get? k = l.windows.get? k := by
    intro l k hk
    rw [get?_check, if_neg hk]
  refine ⟨by simp only [Limiter.check, hin]; split <;> rfl, ?_⟩
  rw [hlimit] at hchecked hchecked' hrenewed hrenewed'
  exact h.change hchecked hchecked' (fun t _ => (hrenewed' t).trans (hrenewed t).symm) (hother l)
    (hother l')

/-- What a caller does after a check against the limit. -/
def entryAfter (limit : RateLimit) : Admission → Entry
  | .admitted => .admitted
  | .limited retryAfter => limit.throttle?.elim (.refused retryAfter) .wait

theorem enter_some (l : Limiter) (now : Nat) (id : String) (limit : RateLimit) :
    l.enter now id (some limit) =
      (entryAfter limit (l.check now id limit).1, (l.check now id limit).2) := by
  simp only [Limiter.enter]
  rcases l.check now id limit with ⟨_ | retryAfter, checked⟩
  · rfl
  · simp only [entryAfter]
    cases limit.throttle? <;> rfl

theorem Agree.enter (h : Agree window now l l') {id : String} {limit? : Option RateLimit}
    (hlimit : ∀ limit, limit? = some limit → limit.window = window id) {entry : Entry} {after : Limiter}
    (henter : l.enter now id limit? = (entry, after)) :
    ∃ after', l'.enter now id limit? = (entry, after') ∧ Agree window now after after' := by
  cases limit? with
  | none =>
    cases henter
    exact ⟨l', rfl, h⟩
  | some limit =>
    obtain ⟨hanswer, hagree⟩ := h.check (hlimit limit rfl)
    rw [enter_some] at henter
    cases henter
    exact ⟨_, by rw [enter_some, hanswer], hagree⟩

theorem Agree.reset (h : Agree window now l l') (id : String) :
    Agree window now (l.reset id) (l'.reset id) := by
  have herased : ∀ l : Limiter, (l.reset id).windows.get? id = none := fun l => Dict.get?_erase_self ..
  have hother : ∀ (l : Limiter) k, id ≠ k → (l.reset id).windows.get? k = l.windows.get? k :=
    fun l k hk => Dict.get?_erase_of_ne _ hk
  refine h.change (measures_of_none (herased l) _) (measures_of_none (herased l') _) (fun t _ => ?_)
    (hother l) (hother l')
  rw [windowAt_of_none (herased l), windowAt_of_none (herased l')]

/-- A sweep of one of the limiters takes nothing that is in force later on. -/
theorem Agree.sweep (h : Agree window now l l') {t : Nat} (ht : t ≤ now) :
    Agree window now l (l'.sweep t) :=
  ⟨h.measures, fun id => ((h.measures' id).perform (u := t) (a := .sweep) trivial).1,
    fun u id hu => (((h.measures' id).perform (u := t) (a := .sweep) trivial).2 u
      (Nat.le_trans ht hu)).trans (h.same u id hu)⟩

theorem Agree.symm (h : Agree window now l l') : Agree window now l' l :=
  ⟨h.measures', h.measures, fun t id ht => (h.same t id ht).symm⟩

theorem Agree.sweepLimiter (h : Agree window now l l') (m : Maintenance) (since : Nat) :
    Agree window now l (m.sweepLimiter since now l') := by
  unfold Maintenance.sweepLimiter
  cases htick : Maintenance.lastTick? m.start m.limiterPeriod since now with
  | none => exact h
  | some tick => exact h.sweep (Maintenance.lastTick?_le htick).2

theorem sweep_sweep (l : Limiter) {t u : Nat} (h : t ≤ u) : (l.sweep t).sweep u = l.sweep u := by
  unfold sweep
  rw [Dict.filter_filter_of_imp]
  intro k w hw
  rw [Bool.not_eq_true', ← Bool.not_eq_true] at hw ⊢
  exact fun helapsed => hw (Window.elapsed_mono helapsed h)

theorem sweepLimiter_cut (m : Maintenance) (l : Limiter) {since between now : Nat}
    (h : since ≤ between) (h' : between ≤ now) :
    m.sweepLimiter between now (m.sweepLimiter since between l) = m.sweepLimiter since now l :=
  Maintenance.elim_lastTick?_cut Limiter.sweep_sweep m.start m.limiterPeriod l h h'

end Limiter

end Egress
