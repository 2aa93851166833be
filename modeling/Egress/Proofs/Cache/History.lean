import Egress.Proofs.Cache.Contents
import Mathlib.Data.Set.Card

/-!
# What a store answers is told by its history

A store is run through a list of actions with their times. `Standing key v ttl u steps`: the last action
of `steps` that touches `key` puts `v` there at `u`. A look-up answers `v` if such a put stands and its time
has not come (`peek_run_eq_some_iff`); what was looked up and swept in between does not matter
(`peek_run_changing`). A sweep removes the expired entries, and counts them (`swept_eq_ncard`).
-/

set_option autoImplicit false

namespace Egress

namespace Cache

variable {α : Type}

/-- What is done to a store. -/
inductive Action (α : Type)
  | put (key : String) (value : α) (ttl : Nat)
  | get (key : String)
  | invalidate (key : String)
  | invalidateEndpoint (id : String)
  | clear
  | sweep

namespace Action

/-- Whether an action sets what is kept under a key or drops it, whatever the time is. -/
def Touches (key : String) : Action α → Prop
  | .put k _ _ | .invalidate k => k = key
  | .invalidateEndpoint id => key = id ∨ ∃ rest, key.toList = id.toList ++ keySeparator :: rest
  | .clear => True
  | .get _ | .sweep => False

/-- Whether an action is more than a look-up or a sweep. -/
def changes : Action α → Bool
  | .get _ | .sweep => false
  | .put .. | .invalidate _ | .invalidateEndpoint _ | .clear => true

instance (key : String) : (action : Action α) → Decidable (action.Touches key)
  | .put k _ _ | .invalidate k => inferInstanceAs (Decidable (k = key))
  | .invalidateEndpoint id => decidable_of_iff (belongsTo key id = true) belongsTo_iff
  | .clear => inferInstanceAs (Decidable True)
  | .get _ | .sweep => inferInstanceAs (Decidable False)

theorem Touches.changes {key : String} {action : Action α} (h : action.Touches key) :
    action.changes = true := by
  cases action with
  | put | invalidate | invalidateEndpoint | clear => rfl
  | get | sweep => exact h.elim

end Action

def perform (c : Cache α) (now : Nat) : Action α → Cache α
  | .put key value ttl => c.put now key value ttl
  | .get key => (c.get now key).2
  | .invalidate key => c.invalidate key
  | .invalidateEndpoint id => c.invalidateEndpoint id
  | .clear => empty
  | .sweep => c.sweep now

/-- The store after actions at their times. -/
def run (c : Cache α) (steps : List (Nat × Action α)) : Cache α :=
  steps.foldl (fun c step => c.perform step.1 step.2) c

/-- `value` was put under `key` at `u` for `ttl`, and nothing touched the key since. -/
def Standing (key : String) (value : α) (ttl u : Nat) (steps : List (Nat × Action α)) : Prop :=
  ∃ before after, steps = before ++ (u, .put key value ttl) :: after ∧
    ∀ step ∈ after, ¬step.2.Touches key

/-! ## One action -/

/-- An action that does not touch a key leaves what is answered for it from then on. -/
theorem peek_perform_of_not_touches (c : Cache α) {now t : Nat} (h : now ≤ t) {key : String}
    {action : Action α} (haction : ¬action.Touches key) :
    (c.perform now action).peek t key = c.peek t key := by
  cases action with
  | put k value ttl => exact (c.peek_put now k value ttl t key).trans (if_neg haction)
  | get k => exact c.peek_get h k key
  | invalidate k => exact (c.peek_invalidate k t key).trans (if_neg haction)
  | invalidateEndpoint id =>
    exact (c.peek_invalidateEndpoint id t key).trans (if_neg fun hb => haction (belongsTo_iff.1 hb))
  | clear => exact absurd trivial haction
  | sweep => exact c.peek_sweep h key

/-- After an action that touches a key the answer is the value that was put, until its time comes. -/
theorem peek_perform_of_touches (c : Cache α) (now t : Nat) {key : String} {action : Action α}
    (haction : action.Touches key) (v : α) :
    (c.perform now action).peek t key = some v ↔
      ∃ ttl, action = .put key v ttl ∧ t < now + ttl := by
  cases action with
  | put k value ttl =>
    obtain rfl : k = key := haction
    rw [perform, peek_put, if_pos rfl, Option.ite_none_right_eq_some]
    constructor
    · rintro ⟨hlt, hv⟩
      cases hv
      exact ⟨ttl, rfl, hlt⟩
    · rintro ⟨ttl', hput, hlt⟩
      cases hput
      exact ⟨hlt, rfl⟩
  | get k => exact haction.elim
  | invalidate k =>
    rw [perform, peek_invalidate, if_pos (show k = key from haction)]
    simp
  | invalidateEndpoint id =>
    rw [perform, peek_invalidateEndpoint, if_pos (belongsTo_iff.2 haction)]
    simp
  | clear => simp [perform]
  | sweep => exact haction.elim

theorem peek_perform_congr {c c' : Cache α} {now t : Nat} (h : now ≤ t) {key : String}
    (hpeek : c.peek t key = c'.peek t key) (action : Action α) :
    (c.perform now action).peek t key = (c'.perform now action).peek t key := by
  by_cases htouch : action.Touches key
  · apply Option.ext
    intro v
    rw [peek_perform_of_touches c now t htouch, peek_perform_of_touches c' now t htouch]
  · rw [peek_perform_of_not_touches c h htouch, peek_perform_of_not_touches c' h htouch, hpeek]

/-! ## Histories -/

theorem run_concat (c : Cache α) (steps : List (Nat × Action α)) (step : Nat × Action α) :
    c.run (steps ++ [step]) = (c.run steps).perform step.1 step.2 := by
  simp [run]

/-- The last action stands itself, or leaves standing what stood before. -/
theorem standing_concat {key : String} {v : α} {ttl u : Nat} {steps : List (Nat × Action α)}
    {step : Nat × Action α} :
    Standing key v ttl u (steps ++ [step]) ↔
      step = (u, .put key v ttl) ∨ ¬step.2.Touches key ∧ Standing key v ttl u steps := by
  constructor
  · rintro ⟨before, after, hsteps, hafter⟩
    rcases List.eq_nil_or_concat after with rfl | ⟨after, last, rfl⟩
    · exact .inl (List.singleton_inj.1 (List.append_inj' hsteps rfl).2)
    · rw [List.concat_eq_append, ← List.cons_append, ← List.append_assoc] at hsteps
      obtain ⟨hbefore, hlast⟩ := List.append_inj' hsteps rfl
      cases List.singleton_inj.1 hlast
      exact .inr ⟨hafter step (by simp), before, after, hbefore,
        fun other hother => hafter other (by simp [hother])⟩
  · rintro (rfl | ⟨hstep, before, after, rfl, hafter⟩)
    · exact ⟨steps, [], rfl, by simp⟩
    · refine ⟨before, after ++ [step], by simp, fun other hother => ?_⟩
      rcases List.mem_append.1 hother with hother | hother
      · exact hafter other hother
      · rwa [List.mem_singleton.1 hother]

/-- What is answered at a time not before the last action. -/
theorem peek_run_eq_some_iff {steps : List (Nat × Action α)} {t : Nat} (h : ∀ step ∈ steps, step.1 ≤ t)
    (key : String) (v : α) :
    (empty.run steps).peek t key = some v ↔ ∃ ttl u, Standing key v ttl u steps ∧ t < u + ttl := by
  -- from the first action to the last one
  induction steps using List.reverseRecOn with
  | nil => simp [run, Standing]
  | append_singleton steps step ih =>
    rw [run_concat]
    have ih := ih fun other hother => h other (by simp [hother])
    by_cases htouch : step.2.Touches key
    · rw [peek_perform_of_touches _ _ _ htouch]
      simp only [standing_concat, htouch, not_true_eq_false, false_and, or_false, Prod.ext_iff]
      constructor
      · rintro ⟨ttl, hput, hlt⟩
        exact ⟨ttl, step.1, ⟨rfl, hput⟩, hlt⟩
      · rintro ⟨ttl, _, ⟨rfl, hput⟩, hlt⟩
        exact ⟨ttl, hput, hlt⟩
    · rw [peek_perform_of_not_touches _ (h step (by simp)) htouch, ih]
      refine exists₂_congr fun ttl u => and_congr_left' ?_
      rw [standing_concat]
      constructor
      · exact fun hstanding => .inr ⟨htouch, hstanding⟩
      · rintro (rfl | ⟨-, hstanding⟩)
        · exact absurd rfl htouch
        · exact hstanding

/-- Look-ups and sweeps in between make no difference. -/
theorem peek_run_changing {steps : List (Nat × Action α)} {t : Nat} (h : ∀ step ∈ steps, step.1 ≤ t)
    (key : String) :
    (empty.run (steps.filter (·.2.changes))).peek t key = (empty.run steps).peek t key := by
  induction steps using List.reverseRecOn with
  | nil => rfl
  | append_singleton steps step ih =>
    have ih := ih fun other hother => h other (by simp [hother])
    have hstep : step.1 ≤ t := h step (by simp)
    rw [run_concat, List.filter_append]
    cases hchanges : step.2.changes with
    | true =>
      rw [List.filter_singleton, hchanges, cond_true, run_concat]
      exact peek_perform_congr hstep ih _
    | false =>
      rw [List.filter_singleton, hchanges, cond_false, List.append_nil, ih,
        peek_perform_of_not_touches _ hstep fun htouch => ?_]
      rw [htouch.changes] at hchanges
      cases hchanges

/-! ## Sweeps -/

theorem get?_sweep (c : Cache α) (now : Nat) (key : String) :
    (c.sweep now).entries.get? key = (c.entries.get? key).filter fun e => now < e.expiry := by
  rw [sweep, Dict.get?_filter]
  congr 1
  funext e
  simp only [Entry.expired, ← decide_not, Nat.not_le]

theorem keys_eq_coe (c : Cache α) :
    {key | c.entries.get? key ≠ none} = (c.entries.keys.toFinset : Set String) :=
  Set.ext fun key => by simp [Dict.get?, Fields.get?_ne_none_iff, Dict.keys]

theorem size_eq_ncard (c : Cache α) : c.size = {key | c.entries.get? key ≠ none}.ncard := by
  rw [keys_eq_coe, Set.ncard_coe_finset, Dict.keys,
    List.toFinset_card_of_nodup c.entries.ascending.nodup, List.length_map]
  rfl

/-- A sweep tells how many entries it has removed. -/
theorem swept_eq_ncard (c : Cache α) (now : Nat) :
    c.swept now =
      {key | c.entries.get? key ≠ none ∧ (c.sweep now).entries.get? key = none}.ncard := by
  have hsub : {key | (c.sweep now).entries.get? key ≠ none} ⊆ {key | c.entries.get? key ≠ none} := by
    intro key hkey hnone
    exact hkey (by rw [get?_sweep, hnone, Option.filter_none])
  have hfinite : {key | (c.sweep now).entries.get? key ≠ none}.Finite := by
    rw [keys_eq_coe]
    exact Finset.finite_toSet _
  rw [swept, size_eq_ncard, size_eq_ncard, ← Set.ncard_sdiff hsub hfinite]
  congr 1
  ext key
  simp

/-- What a sweep has left is served. -/
theorem get_sweep_ne_none_iff (c : Cache α) (now : Nat) (key : String) :
    ((c.sweep now).get now key).1 ≠ none ↔ (c.sweep now).entries.get? key ≠ none := by
  rw [get_fst, c.peek_sweep (Nat.le_refl now), peek, ne_eq, Option.map_eq_none_iff, sweep,
    Dict.get?_filter]

/-- A look-up is answered by the last put under the key, if nothing dropped it since and its time has not
come, whatever was looked up and swept in between. A sweep removes the expired entries and no others, tells
how many they were, and leaves what is served. -/
theorem get_run {steps : List (Nat × Action α)} {t : Nat} (h : ∀ step ∈ steps, step.1 ≤ t) :
    let c : Cache α := empty.run steps
    (∀ key v, (c.get t key).1 = some v ↔ ∃ ttl u, Standing key v ttl u steps ∧ t < u + ttl) ∧
      (∀ key, (c.get t key).1 = ((empty.run (steps.filter (·.2.changes))).get t key).1) ∧
      (∀ key, (c.sweep t).entries.get? key = (c.entries.get? key).filter fun e => t < e.expiry) ∧
      c.swept t = {key | c.entries.get? key ≠ none ∧ (c.sweep t).entries.get? key = none}.ncard ∧
      (c.sweep t).size = {key | ((c.sweep t).get t key).1 ≠ none}.ncard := by
  intro c
  refine ⟨fun key v => ?_, fun key => ?_, c.get?_sweep t, c.swept_eq_ncard t, ?_⟩
  · rw [get_fst]
    exact peek_run_eq_some_iff h key v
  · rw [get_fst, get_fst]
    exact (peek_run_changing h key).symm
  · rw [size_eq_ncard]
    congr 1
    ext key
    exact (c.get_sweep_ne_none_iff t key).symm

/-- A value that is overwritten, one that is kept for no time, and one that goes with its endpoint. -/
def sampleSteps : List (Nat × Action String) :=
  [(0, .put "a" "first" 10), (5, .put "a" "second" 10), (5, .put "b#q" "other" 100), (6, .get "a"),
    (7, .put "b-c" "kept" 8), (8, .invalidateEndpoint "b"), (9, .sweep), (9, .put "z" "none" 0)]

/-- The value that overwrote the other one is served up to its time and not from then on, when a sweep removes
it with two others. -/
theorem get_run_sampleSteps :
    let c := empty.run sampleSteps
    (c.get 14 "a").1 = some "second" ∧
      (¬∃ v ttl u, Standing "a" v ttl u sampleSteps ∧ 15 < u + ttl) ∧
      {key | c.entries.get? key ≠ none ∧ (c.sweep 15).entries.get? key = none}.ncard = 3 := by
  intro c
  have hpast : ∀ step ∈ sampleSteps, step.1 ≤ 14 := by decide
  obtain ⟨hearly, -⟩ := get_run hpast
  obtain ⟨hlate, -, -, hswept, -⟩ := get_run fun step hstep => Nat.le_succ_of_le (hpast step hstep)
  refine ⟨(hearly "a" "second").2 ⟨10, 5, ⟨sampleSteps.take 1, sampleSteps.drop 2, rfl, by decide⟩,
    by decide⟩, ?_, hswept.symm.trans (by rfl)⟩
  rintro ⟨v, ttl, u, hstanding⟩
  have hsome := (hlate "a" v).2 ⟨ttl, u, hstanding⟩
  have hnone : (c.get 15 "a").1 = none := by rfl
  cases hnone.symm.trans hsome

end Cache

end Egress
