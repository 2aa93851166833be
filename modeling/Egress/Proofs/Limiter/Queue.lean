import Egress.Limiter.Queue
import Egress.Proofs.Limiter.Agreement
import Egress.Proofs.Schedule

/-!
# How long callers wait

Callers that start together under a limit that lets them wait check at the same times from then on: at
the start, and every delay after it. At each of these times the window in force admits the first of
those that are left, as many as it has free.

* `leads_admits`, `leads_refuses`: what the callers that check at one time come to.
* `leads_elapsed`: those that are over the limit check in vain until the window has elapsed.
* `leads_rounds`: from a new window on, each window takes as many callers as the limit says.
* `Within`: what earlier checks under the limit leave.
* `waits_of_queue` puts them together: who waits how long, whatever is done to other sources meanwhile.
-/

set_option autoImplicit false

namespace Egress

namespace Limiter

open Schedule

variable {l : Limiter} {id : String} {length t : Nat}

/-- The limiter after timed actions. -/
def performAll (l : Limiter) (steps : List (Nat × Action)) : Limiter :=
  steps.foldl (fun l s => l.perform s.1 s.2) l

/-- Callers of a source under one limit, with other things done to the limiter between their turns. -/
def workshopAmid (meanwhile : Nat → Nat → List (Nat × Action)) (id : String) (limit : Option RateLimit) :
    Workshop Limiter Unit (Except Nat Unit) :=
  { workshop id limit with
    pass := fun since now l => l.performAll (meanwhile since now) }

/-- A caller on the clock. -/
abbrev Caller := Course Unit (Except Nat Unit)

/-- Callers over the limit wait and check again after the delay, and each window admits some. -/
structure Queues (limit : RateLimit) (delay : Nat) : Prop where
  throttle : limit.throttle? = some delay
  delay_pos : 0 < delay
  requests_pos : 0 < limit.requests
  window_pos : 0 < limit.window

/-- With nothing done meanwhile these are the callers alone. -/
theorem enterAll_eq_amid (l : Limiter) (fuel now : Nat) (id : String) (limit : Option RateLimit)
    (n : Nat) :
    l.enterAll fuel now id limit n =
      run (workshopAmid (fun _ _ => []) id limit) fuel now l (List.replicate n (.pending now ())) := rfl

/-! ## What is done meanwhile -/

/-- What is done meanwhile is done in time and not to the source. -/
def Aside (id : String) (meanwhile : Nat → Nat → List (Nat × Action)) : Prop :=
  ∀ since now, ∀ s ∈ meanwhile since now, s.1 ≤ now ∧ s.2.Spares id

theorem Measures.pass {meanwhile : Nat → Nat → List (Nat × Action)} (hmeanwhile : Aside id meanwhile)
    (h : l.Measures id length) (limit : Option RateLimit) (since now : Nat) :
    ((workshopAmid meanwhile id limit).pass since now l).Measures id length ∧
      ∀ t, now ≤ t → ((workshopAmid meanwhile id limit).pass since now l).windowAt t id length =
        l.windowAt t id length := by
  have hall := hmeanwhile since now
  simp only [workshopAmid, performAll]
  generalize meanwhile since now = steps at hall
  induction steps generalizing l with
  | nil => exact ⟨h, fun _ _ => rfl⟩
  | cons s steps ih =>
    obtain ⟨htime, hspares⟩ := hall s List.mem_cons_self
    obtain ⟨hmeasures, hsame⟩ := h.perform hspares (u := s.1)
    obtain ⟨hmeasures', hsame'⟩ := ih hmeasures fun s' hs' => hall s' (List.mem_cons_of_mem _ hs')
    exact ⟨hmeasures', fun t ht => (hsame' t ht).trans (hsame t (Nat.le_trans htime ht))⟩

/-! ## Callers that check at one time -/

section

variable {limit : RateLimit} {w : Window}

theorem turn_of_free (h : (l.windowAt t id limit.window).count < limit.requests) :
    turn id (some limit) t l = ((l.check t id limit).2, .finish (.ok ())) := by
  have hadmitted : (l.check t id limit).1 = .admitted := check_admitted_iff.2 h
  rcases hc : l.check t id limit with ⟨admission, l'⟩
  rw [hc] at hadmitted
  cases hadmitted
  simp only [turn, enter, hc]

theorem turn_of_full {delay : Nat} (hthrottle : limit.throttle? = some delay)
    (h : limit.requests ≤ (l.windowAt t id limit.window).count) :
    turn id (some limit) t l = ((l.check t id limit).2, .wait delay ()) := by
  have hlimited : (l.check t id limit).1 ≠ .admitted :=
    fun ha => Nat.not_lt.2 h (check_admitted_iff.1 ha)
  rcases hc : l.check t id limit with ⟨_ | retryAfter, l'⟩
  · rw [hc] at hlimited
    exact absurd rfl hlimited
  · simp only [turn, enter, hc, hthrottle]

variable {meanwhile : Nat → Nat → List (Nat × Action)} {delay : Nat} (hmeanwhile : Aside id meanwhile)
  (hq : Queues limit delay)

include hmeanwhile hq

/-- A caller that finds the window free is admitted. -/
theorem leads_free {now : Nat} (hnow : now ≤ t) (hl : l.Measures id limit.window)
    (hw : l.windowAt t id limit.window = w) (hfree : w.count < limit.requests)
    {before after : List Caller} (hbefore : NotBefore (t + 1) before)
    (hafter : NotBefore t after) :
    ∃ l', l'.Measures id limit.window ∧
      l'.windowAt t id limit.window = { w with count := w.count + 1 } ∧
      Leads (workshopAmid meanwhile id (some limit)) ⟨now, l, before ++ .pending t () :: after⟩
        ⟨t, l', before ++ .done t (.ok ()) :: after⟩ := by
  obtain ⟨-, hsame⟩ := hl.pass hmeanwhile (some limit) now t
  have hlead := leads_turn (workshopAmid meanwhile id (some limit)) hnow l () hbefore hafter
  generalize (workshopAmid meanwhile id (some limit)).pass now t l = passed at hsame hlead
  have hwpassed : passed.windowAt t id limit.window = w := (hsame t (Nat.le_refl t)).trans hw
  have hturn : (workshopAmid meanwhile id (some limit)).act t passed () =
      ((passed.check t id limit).2, .finish (.ok ())) := turn_of_free (hwpassed ▸ hfree)
  obtain ⟨hchecked, hrenewed⟩ := windowAt_check hwpassed
  rw [hturn] at hlead
  refine ⟨_, hchecked, ?_, hlead⟩
  have hinforce : w.elapsed t = false := hw ▸ l.elapsed_windowAt t id hq.window_pos
  rw [hrenewed, if_pos hfree]
  exact Window.renewed_of_not_elapsed hinforce

/-- As many callers as the window has free are admitted at once. -/
theorem leads_admits {now : Nat} (hnow : now ≤ t) (hl : l.Measures id limit.window)
    (hw : l.windowAt t id limit.window = w) {k : Nat} (hk : w.count + k ≤ limit.requests)
    {before after : List Caller} (hbefore : NotBefore (t + 1) before)
    (hafter : NotBefore t after) :
    ∃ now' l', now' ≤ t ∧ l'.Measures id limit.window ∧
      l'.windowAt t id limit.window = { w with count := w.count + k } ∧
      Leads (workshopAmid meanwhile id (some limit))
        ⟨now, l, before ++ (List.replicate k (.pending t ()) ++ after)⟩
        ⟨now', l', before ++ (List.replicate k (.done t (.ok ())) ++ after)⟩ := by
  induction k generalizing now l w before with
  | zero => exact ⟨now, l, hnow, hl, hw, .refl _ _⟩
  | succ k ih =>
    have hrest : NotBefore t (List.replicate k (.pending t ()) ++ after) :=
      (notBefore_replicate (Nat.le_refl t) k ()).append hafter
    obtain ⟨l₁, hl₁, hw₁, hlead₁⟩ :=
      leads_free hmeanwhile hq hnow hl hw (by omega) hbefore hrest
    have hbefore₁ : NotBefore (t + 1) (before ++ [.done t (.ok ())]) :=
      hbefore.append fun time task hmem => by simp at hmem
    obtain ⟨now', l', hnow', hl', hw', hlead'⟩ :=
      ih (Nat.le_refl t) hl₁ hw₁ (by simp only; omega) hbefore₁
    refine ⟨now', l', hnow', hl', ?_, hlead₁.trans ?_⟩
    · rw [hw', Nat.add_assoc, Nat.add_comm 1 k]
    · simpa [List.replicate_succ] using hlead'

/-- A caller that finds the window used up checks again later. -/
theorem leads_full {now : Nat} (hnow : now ≤ t) (hl : l.Measures id limit.window)
    (hw : l.windowAt t id limit.window = w) (hfull : limit.requests ≤ w.count)
    {before after : List Caller} (hbefore : NotBefore (t + 1) before)
    (hafter : NotBefore t after) :
    ∃ l', l'.Measures id limit.window ∧ (∀ u, l'.windowAt u id limit.window = w.renewed u) ∧
      Leads (workshopAmid meanwhile id (some limit)) ⟨now, l, before ++ .pending t () :: after⟩
        ⟨t, l', before ++ .pending (t + delay) () :: after⟩ := by
  obtain ⟨-, hsame⟩ := hl.pass hmeanwhile (some limit) now t
  have hlead := leads_turn (workshopAmid meanwhile id (some limit)) hnow l () hbefore hafter
  generalize (workshopAmid meanwhile id (some limit)).pass now t l = passed at hsame hlead
  have hwpassed : passed.windowAt t id limit.window = w := (hsame t (Nat.le_refl t)).trans hw
  have hturn : (workshopAmid meanwhile id (some limit)).act t passed () =
      ((passed.check t id limit).2, .wait delay ()) := turn_of_full hq.throttle (hwpassed ▸ hfull)
  obtain ⟨hchecked, hrenewed⟩ := windowAt_check hwpassed
  simp only [if_neg (Nat.not_lt.2 hfull)] at hrenewed
  rw [hturn] at hlead
  exact ⟨_, hchecked, hrenewed, hlead⟩

/-- Where the window is used up, all callers check again later. -/
theorem leads_refuses {now : Nat} (hnow : now ≤ t) (hl : l.Measures id limit.window)
    (hw : l.windowAt t id limit.window = w) (hfull : limit.requests ≤ w.count) (m : Nat)
    {before : List Caller} (hbefore : NotBefore (t + 1) before) :
    ∃ l', l'.Measures id limit.window ∧ (∀ u, l'.windowAt u id limit.window = w.renewed u) ∧
      Leads (workshopAmid meanwhile id (some limit))
        ⟨now, l, before ++ List.replicate (m + 1) (.pending t ())⟩
        ⟨t, l', before ++ List.replicate (m + 1) (.pending (t + delay) ())⟩ := by
  induction m generalizing now l before with
  | zero =>
    exact leads_full hmeanwhile hq hnow hl hw hfull hbefore fun _ _ hmem => by
      cases hmem
  | succ m ih =>
    have hrest : NotBefore t (List.replicate (m + 1) (.pending t () : Caller)) :=
      notBefore_replicate (Nat.le_refl t) (m + 1) ()
    obtain ⟨l₁, hl₁, hrenewed₁, hlead₁⟩ :=
      leads_full hmeanwhile hq hnow hl hw hfull hbefore hrest
    have hw₁ : l₁.windowAt t id limit.window = w := by
      have hinforce : w.elapsed t = false := hw ▸ l.elapsed_windowAt t id hq.window_pos
      rw [hrenewed₁, Window.renewed_of_not_elapsed hinforce]
    have hbefore₁ : NotBefore (t + 1) (before ++ [.pending (t + delay) ()]) :=
      hbefore.append (notBefore_replicate (Nat.add_le_add_left hq.delay_pos t) 1 ())
    obtain ⟨l', hl', hrenewed', hlead'⟩ := ih (Nat.le_refl t) hl₁ hw₁ hbefore₁
    refine ⟨l', hl', hrenewed', hlead₁.trans ?_⟩
    simpa [List.replicate_succ] using hlead'

/-- Those who find the window used up check in vain until it has elapsed. -/
theorem leads_elapsed {now : Nat} (hnow : now ≤ t) (hl : l.Measures id limit.window)
    (hw : l.windowAt t id limit.window = w) (hfull : limit.requests ≤ w.count) (m k : Nat)
    (hk : w.elapsed (t + k * delay) = false) {before : List Caller}
    (hbefore : ∀ wake, NotBefore wake before) :
    ∃ now' l', now' ≤ t + (k + 1) * delay ∧ l'.Measures id limit.window ∧
      (∀ u, l'.windowAt u id limit.window = w.renewed u) ∧
      Leads (workshopAmid meanwhile id (some limit))
        ⟨now, l, before ++ List.replicate (m + 1) (.pending t ())⟩
        ⟨now', l', before ++ List.replicate (m + 1) (.pending (t + (k + 1) * delay) ())⟩ := by
  induction k with
  | zero =>
    obtain ⟨l', hl', hrenewed, hlead⟩ := leads_refuses hmeanwhile hq hnow hl hw hfull m (hbefore _)
    refine ⟨t, l', Nat.le_add_right _ _, hl', hrenewed, ?_⟩
    simpa using hlead
  | succ k ih =>
    have hstep : t + (k + 1) * delay + delay = t + (k + 1 + 1) * delay := by
      rw [Nat.add_assoc, ← Nat.succ_mul]
    -- a window that is still in force at this check was in force at the ones before
    have hbelow : w.elapsed (t + k * delay) = false := by
      rw [← Bool.not_eq_true] at hk ⊢
      refine fun h => hk (Window.elapsed_mono h ?_)
      exact Nat.add_le_add_left (Nat.mul_le_mul_right _ (Nat.le_succ k)) t
    obtain ⟨now₁, l₁, hnow₁, hl₁, hrenewed₁, hlead₁⟩ := ih hbelow
    have hw₁ : l₁.windowAt (t + (k + 1) * delay) id limit.window = w := by
      rw [hrenewed₁, Window.renewed_of_not_elapsed hk]
    obtain ⟨l', hl', hrenewed', hlead'⟩ :=
      leads_refuses hmeanwhile hq hnow₁ hl₁ hw₁ hfull m (hbefore _)
    rw [hstep] at hlead'
    exact ⟨_, l', by omega, hl', hrenewed', hlead₁.trans hlead'⟩

end

/-! ## All callers -/

/-- Callers that were admitted at the times. -/
def admittedAt (times : Nat → Nat) (n : Nat) : List Caller :=
  (List.range n).map fun i => .done (times i) (.ok ())

theorem admittedAt_add (times : Nat → Nat) (m n : Nat) :
    admittedAt times (m + n) = admittedAt times m ++ admittedAt (fun i => times (m + i)) n := by
  simp [admittedAt, List.range_add]

theorem admittedAt_congr {times times' : Nat → Nat} {n : Nat} (h : ∀ i < n, times i = times' i) :
    admittedAt times n = admittedAt times' n := by
  refine List.map_congr_left fun i hi => ?_
  rw [h i (List.mem_range.1 hi)]

theorem admittedAt_eq_replicate {times : Nat → Nat} {t n : Nat} (h : ∀ i < n, times i = t) :
    admittedAt times n = List.replicate n (.done t (.ok ())) := by
  rw [admittedAt_congr h]
  simp [admittedAt, List.map_const']

theorem notBefore_admittedAt (wake : Nat) (times : Nat → Nat) (n : Nat) :
    NotBefore wake (admittedAt times n) := by
  intro time task hmem
  simp [admittedAt] at hmem

theorem admittedAt_rounds_of_le {n requests : Nat} (hn : n ≤ requests) (t period : Nat) :
    admittedAt (fun i => t + i / requests * period) n = List.replicate n (.done t (.ok ())) := by
  refine admittedAt_eq_replicate fun i hi => ?_
  rw [Nat.div_eq_of_lt (Nat.lt_of_lt_of_le hi hn), Nat.zero_mul, Nat.add_zero]

theorem admittedAt_rounds_add {requests : Nat} (hpos : 0 < requests) (t period m : Nat) :
    admittedAt (fun i => t + i / requests * period) (requests + m) =
      List.replicate requests (.done t (.ok ())) ++
        admittedAt (fun i => t + period + i / requests * period) m := by
  rw [admittedAt_add, admittedAt_rounds_of_le (Nat.le_refl requests)]
  congr 1
  refine admittedAt_congr fun i _ => ?_
  rw [Nat.add_div_left _ hpos, Nat.succ_mul]
  omega

/-- The first multiple of a delay that is not below a positive number. -/
theorem exists_ceilDiv {r delay : Nat} (hr : 0 < r) (hdelay : 0 < delay) :
    ∃ k, r ⌈/⌉ delay = k + 1 ∧ k * delay < r ∧ r ≤ (k + 1) * delay := by
  refine ⟨(r - 1) / delay, ?_, ?_, ?_⟩
  · rw [Nat.ceilDiv_eq_add_pred_div, show r + delay - 1 = r - 1 + delay by omega,
      Nat.add_div_right _ hdelay]
  · have := Nat.div_mul_le_self (r - 1) delay
    omega
  · have := Nat.lt_mul_div_succ (r - 1) hdelay
    rw [Nat.mul_comm] at this
    omega

section

variable {limit : RateLimit} {w : Window} {meanwhile : Nat → Nat → List (Nat × Action)} {delay : Nat}
  (hmeanwhile : Aside id meanwhile) (hq : Queues limit delay)

include hmeanwhile hq

/-- The window admits as many callers as it has free; the others find a new one at the first of their
checks after it has elapsed. -/
theorem leads_next_window {now t : Nat} {l : Limiter} (hnow : now ≤ t) (hl : l.Measures id limit.window)
    (hw : l.windowAt t id limit.window = w) (hstart : w.start ≤ t) {f : Nat}
    (hf : w.count + f = limit.requests) (m : Nat) {before : List Caller}
    (hbefore : ∀ wake, NotBefore wake before) {next : Nat}
    (hnext : next = t + ((limit.window - (t - w.start)) ⌈/⌉ delay) * delay) :
    ∃ now' l', now' ≤ next ∧ l'.Measures id limit.window ∧
      l'.windowAt next id limit.window = ⟨0, next, limit.window⟩ ∧
      Leads (workshopAmid meanwhile id (some limit))
        ⟨now, l, before ++ List.replicate (f + (m + 1)) (.pending t ())⟩
        ⟨now', l', (before ++ List.replicate f (.done t (.ok ()))) ++
          List.replicate (m + 1) (.pending next ())⟩ := by
  have hlength : w.length = limit.window := hw ▸ l.length_windowAt t id limit.window
  have hinforce : w.elapsed t = false := hw ▸ l.elapsed_windowAt t id hq.window_pos
  have hleft : 0 < limit.window - (t - w.start) := by
    simp only [Window.elapsed, hlength, decide_eq_false_iff_not] at hinforce
    omega
  obtain ⟨k, hceil, hbelow, habove⟩ := exists_ceilDiv hleft hq.delay_pos
  rw [hceil] at hnext
  have hrest : NotBefore t (List.replicate (m + 1) (.pending t () : Caller)) :=
    notBefore_replicate (Nat.le_refl t) _ _
  obtain ⟨now₁, l₁, hnow₁, hl₁, hw₁, hlead₁⟩ :=
    leads_admits hmeanwhile hq hnow hl hw (Nat.le_of_eq hf) (hbefore (t + 1)) hrest
  have hbefore₁ : ∀ wake, NotBefore wake (before ++ List.replicate f (.done t (.ok ()))) :=
    fun wake => (hbefore wake).append fun time task hmem => by simp at hmem
  have hstill : ({ w with count := w.count + f } : Window).elapsed (t + k * delay) = false := by
    simp only [Window.elapsed, hlength, decide_eq_false_iff_not]
    omega
  have hover : ({ w with count := w.count + f } : Window).elapsed next = true := by
    simp only [Window.elapsed, hlength, decide_eq_true_eq]
    omega
  obtain ⟨now', l', hnow', hl', hrenewed, hlead'⟩ :=
    leads_elapsed hmeanwhile hq hnow₁ hl₁ hw₁ (Nat.le_of_eq hf.symm) m k hstill hbefore₁
  rw [← hnext] at hnow' hlead'
  refine ⟨now', l', hnow', hl', ?_, Leads.trans ?_ hlead'⟩
  · rw [hrenewed, Window.renewed_of_elapsed hover, hlength]
  · rw [← List.replicate_append_replicate, List.append_assoc]
    exact hlead₁

/-- From a new window on, each window takes as many callers as the limit says, and the next one opens
with the first check after it has elapsed. -/
theorem leads_rounds (n : Nat) {now t : Nat} {l : Limiter} (hnow : now ≤ t)
    (hl : l.Measures id limit.window) (hw : l.windowAt t id limit.window = ⟨0, t, limit.window⟩)
    {before : List Caller} (hbefore : ∀ wake, NotBefore wake before) :
    ∃ now' l', Leads (workshopAmid meanwhile id (some limit))
      ⟨now, l, before ++ List.replicate n (.pending t ())⟩
      ⟨now', l', before ++
        admittedAt (fun i => t + i / limit.requests * ((limit.window ⌈/⌉ delay) * delay)) n⟩ := by
  -- on the callers left, of which a window takes at least one
  induction n using Nat.strong_induction_on generalizing now t l before with
  | _ n ih =>
    by_cases hn : n ≤ limit.requests
    · have hnone : NotBefore t ([] : List Caller) := fun _ _ hmem => by cases hmem
      obtain ⟨now', l', -, -, -, hlead⟩ := leads_admits hmeanwhile hq hnow hl hw (k := n)
        (by simpa using hn) (hbefore (t + 1)) hnone
      rw [admittedAt_rounds_of_le hn]
      simp only [List.append_nil] at hlead
      exact ⟨now', l', hlead⟩
    · obtain ⟨m, rfl⟩ : ∃ m, n = limit.requests + (m + 1) := ⟨n - limit.requests - 1, by omega⟩
      obtain ⟨now₁, l₁, hnow₁, hl₁, hw₁, hlead₁⟩ := leads_next_window hmeanwhile hq hnow hl hw
        (Nat.le_refl t) (Nat.zero_add limit.requests) m hbefore rfl
      simp only [Nat.sub_self, Nat.sub_zero] at hnow₁ hw₁ hlead₁
      have hfirst : ∀ wake,
          NotBefore wake (before ++ List.replicate limit.requests (.done t (.ok ()))) :=
        fun wake => (hbefore wake).append fun time task hmem => by simp at hmem
      have hfewer : m + 1 < limit.requests + (m + 1) := Nat.lt_add_of_pos_left hq.requests_pos
      obtain ⟨now', l', hlead'⟩ := ih (m + 1) hfewer hnow₁ hl₁ hw₁ hfirst
      rw [admittedAt_rounds_add hq.requests_pos, ← List.append_assoc]
      exact ⟨now', l', hlead₁.trans hlead'⟩

end

/-! ## The state that callers find -/

/-- What the source has left of the limit: the calls that its window still admits. -/
def free (l : Limiter) (now : Nat) (id : String) (limit : RateLimit) : Nat :=
  match l.windows.get? id with
  | none => limit.requests
  | some w => if w.elapsed now then limit.requests else limit.requests - w.count

/-- The time left in the window in force. -/
def left (l : Limiter) (now : Nat) (id : String) (limit : RateLimit) : Nat :=
  match l.windows.get? id with
  | none => limit.window
  | some w => if w.elapsed now then limit.window else limit.window - (now - w.start)

/-- How long the caller with the number waits, of callers that start together and check again after
each delay. -/
def waitFor (l : Limiter) (now : Nat) (id : String) (limit : RateLimit) (delay i : Nat) : Nat :=
  if i < l.free now id limit then 0
  else (l.left now id limit ⌈/⌉ delay +
    (i - l.free now id limit) / limit.requests * (limit.window ⌈/⌉ delay)) * delay

/-- What checks of the source leave if they are all against one limit: its window opened in the past,
is as long as the limit says and has admitted no more than it allows. -/
def Within (l : Limiter) (id : String) (limit : RateLimit) (now : Nat) : Prop :=
  ∀ w, l.windows.get? id = some w →
    w.length = limit.window ∧ w.count ≤ limit.requests ∧ w.start ≤ now

section

variable {limit : RateLimit} {now : Nat}

theorem Within.windowAt (h : l.Within id limit now) (ht : t ≤ now) :
    (l.windowAt t id limit.window).length = limit.window ∧
      (l.windowAt t id limit.window).count ≤ limit.requests ∧
      (l.windowAt t id limit.window).start ≤ now := by
  cases ho : l.opens t id limit.window with
  | true =>
    rw [windowAt_of_opens ho]
    exact ⟨rfl, Nat.zero_le _, ht⟩
  | false =>
    obtain ⟨w, hw, hat⟩ := windowAt_of_not_opens ho
    obtain ⟨-, hcount, hstart⟩ := h w hw
    rw [hat]
    exact ⟨rfl, hcount, hstart⟩

theorem Within.perform (h : l.Within id limit now) (ht : t ≤ now) {a : Action}
    (ha : ∀ limit', a.checked? = some (id, limit') → limit' = limit) :
    (l.perform t a).Within id limit now := by
  intro w hw
  rcases get?_perform_eq_some hw with hkept | ⟨limit', hc, hchecked⟩
  · exact h w hkept
  · obtain rfl := ha limit' hc
    obtain ⟨hlength, hcount, hstart⟩ := h.windowAt ht
    rw [get?_check, if_pos rfl, Option.some.injEq] at hchecked
    subst hchecked
    refine ⟨hlength, ?_, hstart⟩
    simp only
    split
    · exact check_admitted_iff.1 ‹_›
    · exact hcount

theorem within_performAll {steps : List (Nat × Action)} (h : l.Within id limit now)
    (hsteps : ∀ s ∈ steps, s.1 ≤ now ∧ ∀ limit', s.2.checked? = some (id, limit') → limit' = limit) :
    (l.performAll steps).Within id limit now := by
  induction steps generalizing l with
  | nil => exact h
  | cons s steps ih =>
    obtain ⟨htime, hlimit⟩ := hsteps s List.mem_cons_self
    exact ih (h.perform htime hlimit) fun s' hs' => hsteps s' (List.mem_cons_of_mem _ hs')

theorem Within.measures (h : l.Within id limit now) : l.Measures id limit.window :=
  fun w hw => (h w hw).1

theorem Within.count_add_free (h : l.Within id limit now) :
    (l.windowAt now id limit.window).count + l.free now id limit = limit.requests := by
  unfold free
  cases hw : l.windows.get? id with
  | none => simp [windowAt_of_none hw]
  | some w =>
    obtain ⟨hlength, hcount, -⟩ := h w hw
    rw [windowAt_of_some hw hlength]
    cases he : w.elapsed now with
    | true => simp [Window.renewed_of_elapsed he, he]
    | false =>
      simp only [Window.renewed_of_not_elapsed he, he, Bool.false_eq_true, if_false]
      omega

theorem Within.left_eq (h : l.Within id limit now) :
    l.left now id limit = limit.window - (now - (l.windowAt now id limit.window).start) := by
  unfold left
  cases hw : l.windows.get? id with
  | none => simp [windowAt_of_none hw]
  | some w =>
    obtain ⟨hlength, -, -⟩ := h w hw
    rw [windowAt_of_some hw hlength]
    cases he : w.elapsed now with
    | true => simp [Window.renewed_of_elapsed he, he]
    | false => simp [Window.renewed_of_not_elapsed he, he]

theorem waitFor_mono (l : Limiter) (now : Nat) (id : String) (limit : RateLimit) (delay : Nat) {i j : Nat}
    (hij : i ≤ j) : l.waitFor now id limit delay i ≤ l.waitFor now id limit delay j := by
  unfold waitFor
  split
  · exact Nat.zero_le _
  · rw [if_neg (by omega)]
    have hround : (i - l.free now id limit) / limit.requests ≤ (j - l.free now id limit) / limit.requests :=
      Nat.div_le_div_right (Nat.sub_le_sub_right hij _)
    gcongr

theorem admittedAt_waitFor_of_le {n : Nat} (delay : Nat) (hn : n ≤ l.free now id limit) :
    admittedAt (fun i => now + l.waitFor now id limit delay i) n =
      List.replicate n (.done now (.ok ())) := by
  refine admittedAt_eq_replicate fun i hi => ?_
  rw [waitFor, if_pos (Nat.lt_of_lt_of_le hi hn), Nat.add_zero]

theorem admittedAt_waitFor_add (l : Limiter) (now : Nat) (id : String) (limit : RateLimit)
    (delay m : Nat) :
    admittedAt (fun i => now + l.waitFor now id limit delay i) (l.free now id limit + m) =
      List.replicate (l.free now id limit) (.done now (.ok ())) ++
        admittedAt (fun i => now + (l.left now id limit ⌈/⌉ delay) * delay +
          i / limit.requests * ((limit.window ⌈/⌉ delay) * delay)) m := by
  rw [admittedAt_add, admittedAt_waitFor_of_le delay (Nat.le_refl _)]
  congr 1
  refine admittedAt_congr fun i _ => ?_
  rw [waitFor, if_neg (by omega), Nat.add_sub_cancel_left, Nat.add_mul, Nat.mul_assoc, Nat.add_assoc]

end

theorem earliest?_admittedAt (times : Nat → Nat) (n : Nat) : earliest? (admittedAt times n) = none := by
  cases he : earliest? (admittedAt times n) with
  | none => rfl
  | some wake =>
    have := (notBefore_admittedAt (wake + 1) times n).le_first he
    omega

/-- Callers that start together and wait if they must are all admitted, in their order: as many at once
as the window in force has free, and then, at the first common check after it has elapsed and after each
further window, as many as the limit says. -/
theorem waits_of_queue {limit : RateLimit} {delay : Nat} (hqueue : limit.queue = true)
    (hthrottle : limit.throttleDelay = some delay) (hdelay : 0 < delay) (hrequests : 0 < limit.requests)
    (hwindow : 0 < limit.window) {id : String} {now : Nat} {steps : List (Nat × Action)}
    (hsteps : ∀ s ∈ steps, s.1 ≤ now ∧ ∀ limit', s.2.checked? = some (id, limit') → limit' = limit)
    {meanwhile : Nat → Nat → List (Nat × Action)} (hmeanwhile : Aside id meanwhile) (n : Nat) :
    let l := empty.performAll steps
    (∃ enough, ∀ fuel, enough ≤ fuel → ∃ outcome,
      run (workshopAmid meanwhile id (some limit)) fuel now l (List.replicate n (.pending now ())) =
          some outcome ∧
        outcome.courses = (List.range n).map fun i =>
          .done (now + l.waitFor now id limit delay i) (.ok ())) ∧
      ∀ i j, i ≤ j → l.waitFor now id limit delay i ≤ l.waitFor now id limit delay j := by
  intro l
  have hq : Queues limit delay :=
    ⟨by simp [RateLimit.throttle?, hqueue, hthrottle, hdelay, hrequests], hdelay, hrequests, hwindow⟩
  have hwithin : l.Within id limit now :=
    within_performAll (fun w hw => by cases hw) hsteps
  refine ⟨?_, fun i j hij => waitFor_mono l now id limit delay hij⟩
  suffices hlead : ∃ now' l', Leads (workshopAmid meanwhile id (some limit))
      ⟨now, l, List.replicate n (.pending now ())⟩
      ⟨now', l', admittedAt (fun i => now + l.waitFor now id limit delay i) n⟩ by
    obtain ⟨now', l', hlead⟩ := hlead
    obtain ⟨enough, hrun⟩ := hlead.run_eq (earliest?_admittedAt _ n)
    exact ⟨enough, fun fuel hfuel => ⟨_, hrun fuel hfuel, rfl⟩⟩
  have hfree := hwithin.count_add_free
  have hnone : ∀ wake, NotBefore wake ([] : List Caller) := fun _ _ _ hmem => by cases hmem
  by_cases hn : n ≤ l.free now id limit
  · obtain ⟨now', l', -, -, -, hlead⟩ := leads_admits hmeanwhile hq (Nat.le_refl now) hwithin.measures rfl
      (k := n) (by omega) (hnone _) (hnone _)
    rw [admittedAt_waitFor_of_le delay hn]
    simp only [List.append_nil, List.nil_append] at hlead
    exact ⟨now', l', hlead⟩
  · obtain ⟨m, rfl⟩ : ∃ m, n = l.free now id limit + (m + 1) := ⟨n - l.free now id limit - 1, by omega⟩
    have hstart : (l.windowAt now id limit.window).start ≤ now := (hwithin.windowAt (Nat.le_refl now)).2.2
    obtain ⟨now₁, l₁, hnow₁, hl₁, hw₁, hlead₁⟩ := leads_next_window hmeanwhile hq (Nat.le_refl now)
      hwithin.measures rfl hstart hfree m hnone rfl
    have hfirst : ∀ wake,
        NotBefore wake (List.replicate (l.free now id limit) (.done now (.ok ()) : Caller)) :=
      fun wake time task hmem => by simp at hmem
    rw [← hwithin.left_eq] at hnow₁ hw₁ hlead₁
    obtain ⟨now', l', hlead'⟩ := leads_rounds hmeanwhile hq (m + 1) hnow₁ hl₁ hw₁ hfirst
    rw [admittedAt_waitFor_add]
    exact ⟨now', l', hlead₁.trans hlead'⟩

/-- Two of three calls are taken at 0 and 100; of five callers that come at 100 the first is admitted at
once, three when the window is over, and the last with the first check after the next one is. -/
theorem waits_of_queue_five_callers :
    let limit : RateLimit := ⟨3, 1000, true, some 300⟩
    let l := empty.performAll [(0, .check "a" limit), (100, .check "a" limit)]
    ∃ enough, ∀ fuel, enough ≤ fuel → ∃ outcome,
      l.enterAll fuel 100 "a" (some limit) 5 = some outcome ∧
        outcome.courses = [0, 900, 900, 900, 2100].map fun wait => .done (100 + wait) (.ok ()) := by
  intro limit l
  have hsteps : ∀ s ∈ [(0, Action.check "a" limit), (100, .check "a" limit)],
      s.1 ≤ 100 ∧ ∀ limit', s.2.checked? = some ("a", limit') → limit' = limit := by
    simp [Action.checked?]
  have haside : Aside "a" fun _ _ => [] := by simp [Aside]
  obtain ⟨⟨enough, hrun⟩, -⟩ :=
    @waits_of_queue limit 300 rfl rfl (by decide) (by decide) (by decide) "a" 100 _ hsteps _ haside 5
  refine ⟨enough, fun fuel hfuel => ?_⟩
  obtain ⟨outcome, hrun, hcourses⟩ := hrun fuel hfuel
  refine ⟨outcome, (enterAll_eq_amid ..).trans hrun, ?_⟩
  have hwaits : (List.range 5).map (l.waitFor 100 "a" limit 300) = [0, 900, 900, 900, 2100] := by decide
  rw [hcourses, ← hwaits, List.map_map]
  rfl

end Limiter

end Egress
