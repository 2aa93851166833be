import Egress.Proofs.Cache.History
import Egress.Proofs.Limiter.Agreement
import Egress.Proofs.Service.Batches

/-!
# What periodic sweeps leave behind

* `sweepCache_eq_foldl`, `sweepLimiter_eq_foldl`: time that passes sweeps at each tick in it, one after the
  other.
* `Ahead`: a time that no tick has passed by yet. It is less than a period ago (`Ahead.lt`).
* `Upheld`: what is stored ends at a time that is ahead. Whatever is done to the cache and to the limiter keeps
  to it (`Upheld.use`), since what is stored anew ends at the time of the action or later, and so do the
  sweeps.
* `Traffic.exists_uses_run`: requests in flight and operations do nothing else to cache and limiter.
* `begin_of_not_fitAt`: with a period that is too long for the clock there is no sweep of either kind.
* `leftovers_bounded` says what that comes to.
-/

set_option autoImplicit false

namespace Egress

namespace Maintenance

/-! ## Ticks -/

/-- The ticks after `since` and up to `now`, once a period after the start. -/
def ticks (start period since now : Nat) : List Nat :=
  ((List.range' 1 ((now - start) / period)).map fun n => start + n * period).filter (since < ·)

theorem mem_ticks {start period since now tick : Nat} (hpos : 0 < period) :
    tick ∈ ticks start period since now ↔
      ∃ n, 0 < n ∧ tick = start + n * period ∧ since < tick ∧ tick ≤ now := by
  simp only [ticks, List.mem_filter, List.mem_map, List.mem_range'_1, decide_eq_true_eq]
  constructor
  · rintro ⟨⟨n, ⟨hn, hlt⟩, rfl⟩, hsince⟩
    have hle : n * period ≤ now - start := (Nat.le_div_iff_mul_le hpos).1 (by omega)
    have hprod : 0 < n * period := Nat.mul_pos hn hpos
    exact ⟨n, hn, rfl, hsince, by omega⟩
  · rintro ⟨n, hn, rfl, hsince, hnow⟩
    have hle : n ≤ (now - start) / period := (Nat.le_div_iff_mul_le hpos).2 (by omega)
    exact ⟨⟨n, ⟨hn, by omega⟩, rfl⟩, hsince⟩

theorem ticks_pairwise (start period since now : Nat) :
    (ticks start period since now).Pairwise (· ≤ ·) := by
  refine List.Pairwise.filter _ (List.pairwise_map.2 ?_)
  refine (List.pairwise_lt_range' (s := 1) (n := (now - start) / period)).imp fun {a b} hlt => ?_
  exact Nat.add_le_add_left (Nat.mul_le_mul_right period (Nat.le_of_lt hlt)) start

theorem lastTick?_zero (start since now : Nat) : lastTick? start 0 since now = none := by
  simp [lastTick?]

/-- The last tick is the last of the ticks. -/
theorem lastTick?_eq_getLast? (start period since now : Nat) :
    lastTick? start period since now = (ticks start period since now).getLast? := by
  obtain rfl | hpos := Nat.eq_zero_or_pos period
  · simp [lastTick?_zero, ticks]
  unfold lastTick? ticks
  generalize (now - start) / period = q
  cases q with
  | zero => simp
  | succ q =>
    have hstart : start < start + (q + 1) * period := Nat.lt_add_of_pos_right (Nat.mul_pos q.succ_pos hpos)
    rw [List.range'_concat, List.map_append, List.filter_append, Nat.one_mul, Nat.add_comm 1 q]
    by_cases hsince : since < start + (q + 1) * period
    · simp [hstart, hsince]
    · -- the ticks before it are not after `since` either
      have hnone : ((List.range' 1 q).map fun n => start + n * period).filter (since < ·) = [] := by
        refine List.filter_eq_nil_iff.2 fun tick hmem hlt => ?_
        obtain ⟨n, hn, rfl⟩ := List.mem_map.1 hmem
        have hle : n * period ≤ (q + 1) * period :=
          Nat.mul_le_mul_right period (by have := List.mem_range'_1.1 hn; omega)
        exact hsince (Nat.lt_of_lt_of_le (by simpa using hlt) (Nat.add_le_add_left hle start))
      simp [hsince, hnone]

/-- Sweeping at each time of an ascending list is sweeping at the last one, where a later sweep makes an
earlier one needless. -/
theorem foldl_sweep {σ : Type} {sweep : σ → Nat → σ}
    (hsweep : ∀ s {t u : Nat}, t ≤ u → sweep (sweep s t) u = sweep s u) (s : σ) {times : List Nat}
    (htimes : times.Pairwise (· ≤ ·)) : times.foldl sweep s = times.getLast?.elim s (sweep s) := by
  induction times using List.reverseRecOn with
  | nil => rfl
  | append_singleton times u ih =>
    obtain ⟨hbefore, -, hlast⟩ := List.pairwise_append.1 htimes
    rw [List.foldl_append, ih hbefore, List.foldl_cons, List.foldl_nil, List.getLast?_concat, Option.elim_some]
    cases hget : times.getLast? with
    | none => rfl
    | some t => exact hsweep s (hlast t (List.mem_of_getLast? hget) u (List.mem_singleton_self u))

theorem sweepCache_eq_foldl {α : Type} (m : Maintenance) (since now : Nat) (c : Cache α) :
    m.sweepCache since now c = (ticks m.start m.cachePeriod since now).foldl Cache.sweep c := by
  rw [foldl_sweep Cache.sweep_sweep c (ticks_pairwise ..), sweepCache, lastTick?_eq_getLast?]

theorem sweepLimiter_eq_foldl (m : Maintenance) (since now : Nat) (l : Limiter) :
    m.sweepLimiter since now l = (ticks m.start m.limiterPeriod since now).foldl Limiter.sweep l := by
  rw [foldl_sweep Limiter.sweep_sweep l (ticks_pairwise ..), sweepLimiter, lastTick?_eq_getLast?]

/-- What is left under a key by several sweeps was over at none of them. -/
theorem look_foldl_sweep {σ β : Type} (look : σ → Option β) (sweep : σ → Nat → σ) (ended : β → Nat → Bool)
    (hsweep : ∀ s t, look (sweep s t) = (look s).filter fun b => !ended b t) (s : σ) (times : List Nat) :
    look (times.foldl sweep s) = (look s).filter fun b => times.all fun t => !ended b t := by
  induction times generalizing s with
  | nil =>
    rw [List.foldl_nil]
    cases look s <;> rfl
  | cons t times ih =>
    rw [List.foldl_cons, ih, hsweep, Option.filter_filter]
    simp only [List.all_cons]

/-- So what is not left was over at one of them. -/
theorem spared_or_ended {β : Type} (ended : β → Nat → Bool) (b : β) (times : List Nat) :
    ((some b).filter fun b => times.all fun t => !ended b t) = some b ∨ ∃ t ∈ times, ended b t = true := by
  by_cases hover : ∃ t ∈ times, ended b t = true
  · exact .inr hover
  · refine .inl (Option.filter_eq_some_iff.2 ⟨rfl, List.all_eq_true.2 fun t hmem => ?_⟩)
    rw [Bool.not_eq_true']
    exact Bool.eq_false_of_not_eq_true fun htrue => hover ⟨t, hmem, htrue⟩

/-! ## What is ahead -/

/-- No tick up to `now` is after the time. -/
def Ahead (start period now due : Nat) : Prop :=
  ∀ n, 0 < n → start + n * period ≤ now → start + n * period ≤ due

section

variable {start period since now due : Nat}

theorem Ahead.of_le (h : now ≤ due) : Ahead start period now due :=
  fun _ _ hle => Nat.le_trans hle h

theorem Ahead.at_start (hpos : 0 < period) : Ahead start period start due := by
  intro n hn hle
  have hprod : 0 < n * period := Nat.mul_pos hn hpos
  omega

/-- A time that no tick passes by stays ahead. -/
theorem Ahead.pass (h : Ahead start period since due) (hpos : 0 < period)
    (hticks : ∀ tick ∈ ticks start period since now, tick ≤ due) : Ahead start period now due := by
  intro n hn hle
  by_cases hsince : start + n * period ≤ since
  · exact h n hn hsince
  · exact hticks _ ((mem_ticks hpos).2 ⟨n, hn, rfl, Nat.lt_of_not_le hsince, hle⟩)

/-- A time that is ahead is less than a period ago, if it is over at all. -/
theorem Ahead.lt (h : Ahead start period now due) (hpos : 0 < period) (hstart : start ≤ now) :
    now < max start due + period := by
  have hcut := Nat.lt_div_mul_add (a := now - start) hpos
  have hback := Nat.div_mul_le_self (now - start) period
  obtain hzero | hn := Nat.eq_zero_or_pos ((now - start) / period)
  · rw [hzero] at hcut
    omega
  · have hle := h _ hn (by omega)
    omega

end

/-! ## A cache and a limiter in use -/

/-- A cache and a limiter at a point in time. -/
structure Kept (α : Type) where
  now : Nat
  cache : Cache α
  limiter : Limiter

/-- What is not there any more afterwards was over at one of the times, those of the cache or of the limiter. -/
structure Kept.Spares {α : Type} (k k' : Kept α) (times times' : List Nat) : Prop where
  cache : ∀ key e, k.cache.entries.get? key = some e →
    k'.cache.entries.get? key = some e ∨ ∃ t ∈ times, e.expired t = true
  limiter : ∀ id w, k.limiter.windows.get? id = some w →
    k'.limiter.windows.get? id = some w ∨ ∃ t ∈ times', w.elapsed t = true

/-- What is done to a cache or a limiter, or time that passes. -/
inductive Use (α : Type)
  | cache (action : Cache.Action α)
  | limiter (action : Limiter.Action)
  | pass (ms : Nat)

section

variable {α : Type} (m : Maintenance)

/-- A cache and a limiter after one use, with the sweeps of the time that passes. -/
def use (k : Kept α) : Use α → Kept α
  | .cache action => { k with cache := k.cache.perform k.now action }
  | .limiter action => { k with limiter := k.limiter.perform k.now action }
  | .pass ms => ⟨k.now + ms, m.sweepCache k.now (k.now + ms) k.cache,
      m.sweepLimiter k.now (k.now + ms) k.limiter⟩

def useAll (k : Kept α) (uses : List (Use α)) : Kept α := uses.foldl m.use k

/-- Whatever is over is so for less than the period asked for, from the start of the sweeps on. -/
structure Bounded (periods : SweepPeriods) (start : Nat) (k : Kept α) : Prop where
  cache : ∀ key e, k.cache.entries.get? key = some e → e.expired k.now = true →
    k.now - max start e.expiry < 1000 * max 1 periods.cache
  limiter : ∀ id w, k.limiter.windows.get? id = some w → w.elapsed k.now = true →
    k.now - max start (w.start + w.length) < 1000 * max 1 periods.limiter

/-- Whatever is stored ends at a time that is ahead. -/
structure Upheld (k : Kept α) : Prop where
  cachePeriod : 0 < m.cachePeriod
  limiterPeriod : 0 < m.limiterPeriod
  started : m.start ≤ k.now
  cache : ∀ key e, k.cache.entries.get? key = some e → Ahead m.start m.cachePeriod k.now e.expiry
  limiter : ∀ id w, k.limiter.windows.get? id = some w →
    Ahead m.start m.limiterPeriod k.now (w.start + w.length)

end

end Maintenance

/-! ## What is stored anew -/

/-- An entry after an action was there before, or ends at the time of the action or later. -/
theorem Cache.get?_perform_eq_some {α : Type} {c : Cache α} {now : Nat} {action : Action α} {key : String}
    {e : Entry α} (h : (c.perform now action).entries.get? key = some e) :
    c.entries.get? key = some e ∨ now ≤ e.expiry := by
  cases action with
  | put k value ttl =>
    rw [perform, put, Dict.get?_insert] at h
    split at h
    · cases h
      exact .inr (Nat.le_add_right now ttl)
    · exact .inl h
  | get k => exact .inl (get?_of_get?_get h)
  | invalidate k =>
    rw [perform, invalidate, Dict.get?_erase] at h
    split at h
    · cases h
    · exact .inl h
  | invalidateEndpoint id => exact .inl (Dict.get?_filter_eq_some_iff.1 h).1
  | clear => cases h
  | sweep => exact .inl (get?_of_get?_sweep h)

namespace Limiter

/-- The window in force ends at the time of the check or later. -/
theorem le_end_windowAt (l : Limiter) (now : Nat) (id : String) (length : Nat) :
    now ≤ (l.windowAt now id length).start + length := by
  unfold windowAt
  dsimp only
  split
  · exact Nat.le_add_right now length
  · next hstill =>
    simp only [Window.elapsed, decide_eq_true_eq] at hstill ⊢
    omega

/-- So does a window that an action has stored. -/
theorem get?_perform_or_le_end {l : Limiter} {now : Nat} {a : Action} {id : String} {w : Window}
    (h : (l.perform now a).windows.get? id = some w) :
    l.windows.get? id = some w ∨ now ≤ w.start + w.length := by
  obtain hold | ⟨limit, -, hcheck⟩ := get?_perform_eq_some h
  · exact .inl hold
  · rw [get?_check, if_pos rfl, Option.some.injEq] at hcheck
    subst hcheck
    refine .inr ?_
    simp only [length_windowAt]
    exact l.le_end_windowAt now id limit.window

end Limiter

namespace Maintenance

variable {α : Type} {m : Maintenance} {k : Kept α}

theorem get?_foldl_sweepCache (c : Cache α) (times : List Nat) (key : String) :
    (times.foldl Cache.sweep c).entries.get? key =
      (c.entries.get? key).filter fun e => times.all fun t => !e.expired t :=
  look_foldl_sweep (fun c => c.entries.get? key) Cache.sweep Cache.Entry.expired
    (fun _ _ => Dict.get?_filter ..) c times

theorem get?_foldl_sweepLimiter (l : Limiter) (times : List Nat) (id : String) :
    (times.foldl Limiter.sweep l).windows.get? id =
      (l.windows.get? id).filter fun w => times.all fun t => !w.elapsed t :=
  look_foldl_sweep (fun l => l.windows.get? id) Limiter.sweep Window.elapsed
    (fun _ _ => Dict.get?_filter ..) l times

theorem Upheld.pass (h : m.Upheld k) (ms : Nat) : m.Upheld (m.use k (.pass ms)) where
  cachePeriod := h.cachePeriod
  limiterPeriod := h.limiterPeriod
  started := Nat.le_add_right_of_le h.started
  cache key e hget := by
    simp only [use, sweepCache_eq_foldl, get?_foldl_sweepCache, Option.filter_eq_some_iff,
      List.all_eq_true] at hget
    refine (h.cache key e hget.1).pass h.cachePeriod fun tick hmem => ?_
    have hlive := hget.2 tick hmem
    simp only [Cache.Entry.expired, Bool.not_eq_true', decide_eq_false_iff_not] at hlive
    omega
  limiter id w hget := by
    simp only [use, sweepLimiter_eq_foldl, get?_foldl_sweepLimiter, Option.filter_eq_some_iff,
      List.all_eq_true] at hget
    refine (h.limiter id w hget.1).pass h.limiterPeriod fun tick hmem => ?_
    have hlive := hget.2 tick hmem
    simp only [Window.elapsed, Bool.not_eq_true', decide_eq_false_iff_not] at hlive
    omega

/-- Whatever is done, what is stored ends at a time that is ahead. -/
theorem Upheld.use (h : m.Upheld k) (u : Use α) : m.Upheld (m.use k u) := by
  cases u with
  | cache action =>
    refine ⟨h.cachePeriod, h.limiterPeriod, h.started, fun key e hget => ?_, h.limiter⟩
    obtain hold | hnew := Cache.get?_perform_eq_some hget
    · exact h.cache key e hold
    · exact .of_le hnew
  | limiter action =>
    refine ⟨h.cachePeriod, h.limiterPeriod, h.started, h.cache, fun id w hget => ?_⟩
    obtain hold | hnew := Limiter.get?_perform_or_le_end hget
    · exact h.limiter id w hold
    · exact .of_le hnew
  | pass ms => exact h.pass ms

theorem Upheld.useAll (h : m.Upheld k) (uses : List (Use α)) : m.Upheld (m.useAll k uses) := by
  induction uses generalizing k with
  | nil => exact h
  | cons u uses ih => exact ih (h.use u)

/-! ## Sweeps that start, and a task that ends at once -/

/-- Where the time of each first sweep is on the clock, the sweeps take place once a period. -/
theorem begin_of_fitAt {periods : SweepPeriods} {now : Nat} (h : periods.FitAt now) :
    begin periods now = ⟨1000 * max 1 periods.cache, 1000 * max 1 periods.limiter, now⟩ :=
  if_pos h

/-- Otherwise they do not. -/
theorem begin_of_not_fitAt {periods : SweepPeriods} {now : Nat} (h : ¬ periods.FitAt now) :
    begin periods now = ended now :=
  if_neg h

theorem start_begin (periods : SweepPeriods) (now : Nat) : (begin periods now).start = now := by
  unfold begin
  split <;> rfl

theorem upheld_begin {periods : SweepPeriods} {start : Nat} (h : periods.FitAt start) (c : Cache α)
    (l : Limiter) : (begin periods start).Upheld ⟨start, c, l⟩ := by
  rw [begin_of_fitAt h]
  have hcache : 0 < 1000 * max 1 periods.cache := by omega
  have hlimiter : 0 < 1000 * max 1 periods.limiter := by omega
  exact ⟨hcache, hlimiter, Nat.le_refl start, fun _ _ _ => .at_start hcache, fun _ _ _ => .at_start hlimiter⟩

theorem Upheld.bounded {periods : SweepPeriods} {start : Nat} (hfit : periods.FitAt start)
    (h : (begin periods start).Upheld k) : Bounded periods start k := by
  rw [begin_of_fitAt hfit] at h
  refine ⟨fun key e hget _ => ?_, fun id w hget _ => ?_⟩
  · have hpos := h.cachePeriod
    have hlt := (h.cache key e hget).lt hpos h.started
    dsimp only at hpos hlt
    omega
  · have hpos := h.limiterPeriod
    have hlt := (h.limiter id w hget).lt hpos h.started
    dsimp only at hpos hlt
    omega

/-- Time that passes takes nothing where the task has ended. -/
theorem use_ended_pass (start : Nat) (k : Kept α) (ms : Nat) :
    (ended start).use k (.pass ms) = { k with now := k.now + ms } := by
  simp only [use, sweepCache, sweepLimiter, ended, lastTick?_zero, Option.elim_none]

/-- What is over at once then stays for longer than any period. -/
theorem not_bounded_of_not_fitAt {periods : SweepPeriods} {start : Nat} (h : ¬ periods.FitAt start)
    (c : Cache α) (l : Limiter) (value : α) :
    ¬ Bounded periods start ((begin periods start).useAll ⟨start, c, l⟩
      [.cache (.put "a" value 0), .pass (1000 * max 1 periods.cache)]) := by
  intro hbounded
  rw [begin_of_not_fitAt h, useAll, List.foldl_cons, List.foldl_cons, List.foldl_nil, use_ended_pass] at hbounded
  have hlt := hbounded.cache "a" ⟨value, start⟩ (Dict.get?_insert_self ..)
    (decide_eq_true (Nat.le_add_right ..))
  dsimp only [use] at hlt
  omega

/-! ## What sweeps take -/

/-- Sweeps at some times take what is over at one of them, and nothing else. -/
theorem Kept.spares_foldl (k : Kept α) (now : Nat) (times times' : List Nat) :
    k.Spares ⟨now, times.foldl Cache.sweep k.cache, times'.foldl Limiter.sweep k.limiter⟩ times times' where
  cache key e hget := by
    rw [get?_foldl_sweepCache, hget]
    exact spared_or_ended Cache.Entry.expired e times
  limiter id w hget := by
    rw [get?_foldl_sweepLimiter, hget]
    exact spared_or_ended Window.elapsed w times'

theorem spares_pass (m : Maintenance) (k : Kept α) (ms : Nat) :
    k.Spares (m.use k (.pass ms)) (ticks m.start m.cachePeriod k.now (k.now + ms))
      (ticks m.start m.limiterPeriod k.now (k.now + ms)) := by
  simp only [use, sweepCache_eq_foldl, sweepLimiter_eq_foldl]
  exact k.spares_foldl _ _ _

theorem useAll_append (m : Maintenance) (k : Kept α) (uses uses' : List (Use α)) :
    m.useAll k (uses ++ uses') = m.useAll (m.useAll k uses) uses' :=
  List.foldl_append

end Maintenance

/-! ## The service -/

open Maintenance

/-- The operation neither starts sweeps nor stops them. -/
def Operation.KeepsSweeping : Operation → Prop
  | .startMaintenance _ => False
  | .stopMaintenance => False
  | _ => True

/-- Nor does the move. -/
def Move.KeepsSweeping : Move → Prop
  | .operate op => op.KeepsSweeping
  | _ => True

/-- What a service keeps, at a point in time. -/
def Service.kept (s : Service) (now : Nat) : Kept Envelope := ⟨now, s.cache, s.limiter⟩

def Traffic.kept {ω : Type} (t : Traffic ω) : Kept Envelope := t.world.service.kept t.now

namespace Service

variable (m : Maintenance) (now : Nat)

/-- One service is the other one after some uses of its cache and limiter, as far as they are concerned. -/
def Uses (s s' : Service) : Prop := ∃ uses, s'.kept now = m.useAll (s.kept now) uses

variable {m now} {s s' s'' : Service}

theorem Uses.refl (s : Service) : Uses m now s s := ⟨[], rfl⟩

theorem Uses.trans (h : Uses m now s s') (h' : Uses m now s' s'') : Uses m now s s'' := by
  obtain ⟨uses, h⟩ := h
  obtain ⟨uses', h'⟩ := h'
  exact ⟨uses ++ uses', by rw [h', h, useAll_append]⟩

theorem Uses.of_cache (action : Cache.Action Envelope) (hcache : s'.cache = s.cache.perform now action)
    (hlimiter : s'.limiter = s.limiter) : Uses m now s s' :=
  ⟨[.cache action], by simp only [kept, hcache, hlimiter]; rfl⟩

theorem Uses.of_limiter (action : Limiter.Action) (hcache : s'.cache = s.cache)
    (hlimiter : s'.limiter = s.limiter.perform now action) : Uses m now s s' :=
  ⟨[.limiter action], by simp only [kept, hcache, hlimiter]; rfl⟩

theorem Uses.of_eq (hcache : s'.cache = s.cache) (hlimiter : s'.limiter = s.limiter) : Uses m now s s' :=
  ⟨[], by simp only [kept, hcache, hlimiter]; rfl⟩

/-- A look-up reads the cache at most. -/
theorem uses_lookup (m : Maintenance) (s : Service) (now : Nat) (job : Job) :
    Uses m now s (s.lookup now job).2 := by
  unfold lookup
  split
  · exact .refl s
  · split
    · exact .refl s
    · next key _ _ => exact .of_cache (.get key) rfl rfl

theorem uses_conclude (m : Maintenance) (s : Service) (now : Nat) (job : Job) (answer : Answer) :
    Uses m now s (s.conclude now job answer) := by
  cases answer with
  | error failure => exact .of_eq rfl rfl
  | ok envelope =>
    obtain ⟨events, heq⟩ := s.conclude_ok now job envelope
    rw [heq]
    cases s.cacheKey? job with
    | none => exact .of_eq rfl rfl
    | some kept => exact .of_cache (.put kept.1 envelope kept.2) rfl rfl

/-- A registration is no matter of cache, limiter and sweeps. -/
theorem register_keeps {e : Endpoint} (h : s.register e = .ok s') :
    s'.cache = s.cache ∧ s'.limiter = s.limiter ∧ s'.maintenance = s.maintenance := by
  unfold register at h
  split at h
  · cases h
  · cases h
    exact ⟨rfl, rfl, rfl⟩

/-- An operation does nothing to cache and limiter but use them. -/
theorem uses_operate (m : Maintenance) (s : Service) (now : Nat) (op : Operation) :
    Uses m now s (s.operate now op).1 := by
  cases op with
  | register e =>
    simp only [operate]
    split
    · exact .refl s
    · next hreg =>
      obtain ⟨hcache, hlimiter, -⟩ := register_keeps hreg
      exact .of_eq hcache hlimiter
  | update id u =>
    simp only [operate, update]
    cases s.registry.update id u with
    | error error => exact .refl s
    | ok updated => exact .of_cache (.invalidateEndpoint id) rfl rfl
  | unregister id =>
    simp only [operate, unregister]
    cases s.registry.unregister id with
    | error error => exact .refl s
    | ok removed =>
      have hcache : Uses m now s { s with cache := s.cache.invalidateEndpoint id } :=
        .of_cache (.invalidateEndpoint id) rfl rfl
      exact hcache.trans (.of_limiter (.reset id) rfl rfl)
  | clearCache id =>
    cases id with
    | none => exact .of_cache .clear rfl rfl
    | some id => exact .of_cache (.invalidateEndpoint id) rfl rfl
  | importText text =>
    obtain ⟨-, heq⟩ | ⟨-, es, told, -, hafter, -⟩ := importText_cases s text
    · rw [operate, heq]
      exact .refl s
    · have hcache : Uses m now s { s with cache := .empty } := .of_cache .clear rfl rfl
      exact hcache.trans (.of_limiter (.clear) hafter.cache hafter.limiter)
  | sweep =>
    have hcache : Uses m now s { s with cache := s.cache.sweep now } := .of_cache .sweep rfl rfl
    exact hcache.trans (.of_limiter .sweep rfl rfl)
  | setToken | startMaintenance | stopMaintenance => exact .of_eq rfl rfl

/-- The sweeps go on through every operation that is not about them. -/
theorem maintenance_operate (s : Service) (now : Nat) {op : Operation} (hop : op.KeepsSweeping) :
    (s.operate now op).1.maintenance = s.maintenance := by
  cases op with
  | register e =>
    simp only [operate]
    split
    · rfl
    · next hreg => exact (register_keeps hreg).2.2
  | update id u =>
    simp only [operate, update]
    cases s.registry.update id u <;> rfl
  | unregister id =>
    simp only [operate, unregister]
    cases s.registry.unregister id <;> rfl
  | importText text =>
    obtain ⟨-, heq⟩ | ⟨-, es, told, -, hafter, -⟩ := importText_cases s text
    · rw [operate, heq]
    · exact hafter.maintenance
  | clearCache | setToken | sweep => rfl
  | startMaintenance | stopMaintenance => exact hop.elim

end Service

/-- So does a turn of a request. -/
theorem World.Turns.uses {ω : Type} {transport : Transport ω} {now : Nat} {w w' : World ω}
    {request : Request} {turn : Turn Request Answer} (h : Turns transport now w request w' turn)
    (m : Maintenance) : Service.Uses m now w.service w'.service := by
  -- a check of the limiter, whatever comes of it
  have hlimiter : ∀ {id limit entry limiter}, w.service.limiter.enter now id limit = (entry, limiter) →
      Service.Uses m now w.service { w.service with limiter } := by
    intro id limit entry limiter henter
    exact .of_limiter (.enter id limit) rfl (by rw [Limiter.perform, henter])
  induction h with
  | unknown | call | again => exact .refl _
  | found _ _ ih => exact ih
  | wait henter => exact hlimiter henter
  | refuse henter => exact (hlimiter henter).trans (.of_eq rfl rfl)
  | @hit job limiter envelope s henter hlookup =>
    have hlooked := Service.uses_lookup m { w.service with limiter } now job
    rw [hlookup] at hlooked
    exact ((hlimiter henter).trans hlooked).trans (.of_eq rfl rfl)
  | @miss job limiter s wire duration result henter hlookup hcall =>
    have hlooked := Service.uses_lookup m { w.service with limiter } now job
    rw [hlookup] at hlooked
    exact (hlimiter henter).trans hlooked
  | @answer job n result answer hjudge => exact Service.uses_conclude m _ now job answer

namespace Traffic

variable {ω : Type} {t : Traffic ω} {m : Maintenance}

theorem kept_pass (transport : Transport ω) (hm : t.world.service.maintenance = some m) (ms : Nat) :
    (t.step transport (.pass ms)).kept = m.use t.kept (.pass ms) := by
  simp only [kept, step, Service.kept, Service.pass, hm]
  rfl

/-- With each move cache and limiter are used, and swept as time passes. -/
theorem exists_uses_step (transport : Transport ω) (hm : t.world.service.maintenance = some m) {move : Move}
    (hmove : move.KeepsSweeping) :
    (t.step transport move).world.service.maintenance = some m ∧
      ∃ uses, (t.step transport move).kept = m.useAll t.kept uses := by
  cases move with
  | operate op =>
    exact ⟨(t.world.service.maintenance_operate t.now hmove).trans hm, t.world.service.uses_operate m t.now op⟩
  | arrive id options => exact ⟨hm, [], rfl⟩
  | turn flight =>
    unfold step
    dsimp only
    split
    · next wake request _ =>
      split
      · have hturns := World.act_turns transport t.now t.world request
        exact ⟨hturns.maintenance.trans hm, hturns.uses m⟩
      · exact ⟨hm, [], rfl⟩
    · exact ⟨hm, [], rfl⟩
  | pass ms =>
    refine ⟨?_, [.pass ms], kept_pass transport hm ms⟩
    show (t.world.service.pass t.now (t.now + ms)).maintenance = some m
    rw [Service.pass_eq]
    exact hm

theorem exists_uses_run (transport : Transport ω) (hm : t.world.service.maintenance = some m)
    {moves : List Move} (hmoves : ∀ move ∈ moves, move.KeepsSweeping) :
    (t.run transport moves).world.service.maintenance = some m ∧
      ∃ uses, (t.run transport moves).kept = m.useAll t.kept uses := by
  induction moves generalizing t with
  | nil => exact ⟨hm, [], rfl⟩
  | cons move moves ih =>
    obtain ⟨hnext, uses, hstep⟩ := exists_uses_step transport hm (hmoves move List.mem_cons_self)
    obtain ⟨hend, uses', hrun⟩ := ih hnext fun move hmem => hmoves move (List.mem_cons_of_mem _ hmem)
    refine ⟨hend, uses ++ uses', ?_⟩
    rw [useAll_append, ← hstep]
    exact hrun

end Traffic

namespace Maintenance

/-- Time that passes may be cut in two. -/
theorem use_pass_pass {α : Type} (m : Maintenance) (k : Kept α) (ms ms' : Nat) :
    m.use (m.use k (.pass ms)) (.pass ms') = m.use k (.pass (ms + ms')) := by
  have hle : k.now ≤ k.now + ms := Nat.le_add_right ..
  have hle' : k.now + ms ≤ k.now + (ms + ms') := by omega
  simp only [use, Nat.add_assoc, m.sweepCache_cut k.cache hle hle',
    Limiter.sweepLimiter_cut m k.limiter hle hle']

/-- From the start of the sweeps on, whatever cache and limiter held then and whatever is done to them, an entry
that is expired has been so for less than a period of the cache sweeps, and a window that has elapsed for less
than a period of the limiter sweeps; from the start if it was over before. This holds at each point of the
time that passes, for it may be cut anywhere. It holds of just those periods that both fit the clock: one that
is too long ends the sweeps of the other kind too, and time takes nothing any more. Sweeps, the ones at the
ticks and all others, take only what is over when they take place. So it is in a service with any requests in
flight, as long as its sweeps are neither started anew nor stopped. -/
theorem leftovers_bounded (periods : SweepPeriods) :
    (∀ start, periods.FitAt start ↔ ∀ (α : Type) (c : Cache α) (l : Limiter) (uses : List (Use α)),
      Bounded periods start ((begin periods start).useAll ⟨start, c, l⟩ uses)) ∧
    (∀ (α : Type) (start : Nat) (c : Cache α) (l : Limiter) (uses : List (Use α)),
      let m := begin periods start
      let k := m.useAll ⟨start, c, l⟩ uses
      (∀ ms ms', m.use (m.use k (.pass ms)) (.pass ms') = m.use k (.pass (ms + ms'))) ∧
      (¬ periods.FitAt start → ∀ ms, m.use k (.pass ms) = { k with now := k.now + ms }) ∧
      (∀ ms, k.Spares (m.use k (.pass ms)) (ticks start m.cachePeriod k.now (k.now + ms))
        (ticks start m.limiterPeriod k.now (k.now + ms))) ∧
      k.Spares (m.use k (.cache .sweep)) [k.now] [] ∧ k.Spares (m.use k (.limiter .sweep)) [] [k.now]) ∧
    ∀ (ω : Type) (transport : Transport ω) (t : Traffic ω) (moves : List Move),
      (∀ move ∈ moves, move.KeepsSweeping) →
      let m := begin periods t.now
      let t' := (t.step transport (.operate (.startMaintenance periods))).run transport moves
      (periods.FitAt t.now → Bounded periods t.now t'.kept) ∧
      (∀ ms, t'.kept.Spares (t'.step transport (.pass ms)).kept
        (ticks t.now m.cachePeriod t'.now (t'.now + ms)) (ticks t.now m.limiterPeriod t'.now (t'.now + ms))) ∧
      t'.kept.Spares (t'.step transport (.operate .sweep)).kept [t'.now] [t'.now] := by
  refine ⟨fun start => ⟨fun hfit α c l uses => ?_, fun hall => ?_⟩, fun α start c l uses => ?_,
    fun ω transport t moves hmoves => ?_⟩
  · exact ((upheld_begin hfit c l).useAll uses).bounded hfit
  · by_contra hfit
    exact not_bounded_of_not_fitAt hfit .empty .empty () (hall Unit ..)
  · intro m k
    refine ⟨m.use_pass_pass k, fun hfit ms => ?_, fun ms => ?_, k.spares_foldl k.now [k.now] [],
      k.spares_foldl k.now [] [k.now]⟩
    · simp only [m, begin_of_not_fitAt hfit, use_ended_pass]
    · have hspares := m.spares_pass k ms
      rwa [start_begin] at hspares
  · intro m t'
    have hstarted : (t.step transport (.operate (.startMaintenance periods))).world.service.maintenance =
        some m := rfl
    obtain ⟨hm, uses, hkept⟩ := Traffic.exists_uses_run transport hstarted hmoves
    refine ⟨fun hfit => ?_, fun ms => ?_, t'.kept.spares_foldl t'.now [t'.now] [t'.now]⟩
    · have hupheld : m.Upheld t'.kept := hkept ▸ (upheld_begin hfit _ _).useAll uses
      exact hupheld.bounded hfit
    · have hspares := m.spares_pass t'.kept ms
      rw [Traffic.kept_pass transport hm]
      rwa [start_begin] at hspares

/-- A service with one endpoint. -/
def oneEndpoint : Traffic Unit :=
  (Traffic.start .request none (.create 1 0) ()).step .steady (.operate (.register .keeping))

/-- A request whose response is kept for 100 milliseconds, and some time. -/
def keptForAWhile : List Move := [.arrive "a" .plain, .turn 0, .pass 5, .turn 0, .pass 900]

/-- An entry that expires after 5 seconds is there until the sweep after 10 seconds. A response that expires
after 105 milliseconds is there after 905 milliseconds, where the sweeps take place each second. -/
theorem leftovers_bounded_keptForAWhile :
    let m := begin ⟨10, 20⟩ 0
    let k := m.useAll ⟨0, .empty, .empty⟩ [.cache (.put "a" () 5000), .pass 9999]
    let t := (oneEndpoint.step .steady (.operate (.startMaintenance ⟨1, 1⟩))).run .steady keptForAWhile
    (∃ e, k.cache.entries.get? "a" = some e ∧ e.expired k.now = true ∧ k.now - max 0 e.expiry < 10000) ∧
    (m.use k (.pass 1)).cache.entries.get? "a" = none ∧
    ∃ e, t.kept.cache.entries.get? "a" = some e ∧ e.expired t.now = true ∧ t.now - max 0 e.expiry < 1000 := by
  intro m k t
  have hbounded := ((leftovers_bounded ⟨10, 20⟩).1 0).1 (by decide) Unit .empty .empty
    [.cache (.put "a" () 5000), .pass 9999]
  obtain ⟨hserved, -⟩ := (leftovers_bounded ⟨1, 1⟩).2.2 Unit .steady oneEndpoint keptForAWhile
    (by simp [keptForAWhile, Move.KeepsSweeping])
  have hbounded' := hserved (by decide)
  have hkept : k.cache.entries.get? "a" = some ⟨(), 5000⟩ := by decide +kernel
  have hover : (⟨(), 5000⟩ : Cache.Entry Unit).expired k.now = true := by decide +kernel
  have hsome : (t.kept.cache.entries.get? "a").map (·.expiry) = some 105 := by decide +kernel
  obtain ⟨e, hget, hexpiry⟩ := Option.map_eq_some_iff.1 hsome
  have hexpired : e.expired t.now = true := by
    rw [Cache.Entry.expired, hexpiry]
    decide +kernel
  exact ⟨⟨_, hkept, hover, hbounded.cache "a" _ hkept hover⟩, by decide +kernel,
    e, hget, hexpired, hbounded'.cache "a" e hget hexpired⟩

/-- Where the windows are to be swept once in longer than the clock runs, the response is there for more than a
second after it has expired, although the cache is to be swept each second. -/
theorem not_bounded_endlessPeriod :
    let periods : SweepPeriods := ⟨1, 18446744073709551615⟩
    let moves := keptForAWhile ++ [.pass 300]
    let t := (oneEndpoint.step .steady (.operate (.startMaintenance periods))).run .steady moves
    (∀ move ∈ moves, move.KeepsSweeping) ∧ ¬ Bounded periods 0 t.kept := by
  intro periods moves t
  refine ⟨by simp [moves, keptForAWhile, Move.KeepsSweeping], fun hbounded => ?_⟩
  have hsome : (t.kept.cache.entries.get? "a").map (·.expiry) = some 105 := by decide +kernel
  have hnow : t.kept.now = 1205 := by decide +kernel
  obtain ⟨e, hget, hexpiry⟩ := Option.map_eq_some_iff.1 hsome
  have hexpired : e.expired t.kept.now = true := by
    rw [Cache.Entry.expired, hexpiry, hnow]
    decide
  have hlt := hbounded.cache "a" e hget hexpired
  simp only [hexpiry, hnow, periods] at hlt
  omega

end Maintenance

end Egress
