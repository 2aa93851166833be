import Egress.Proofs.Metrics.Mirror
import Egress.Proofs.Service.Turns
import Mathlib.Algebra.Order.BigOperators.Group.List
import Mathlib.Algebra.Order.Field.Basic
import Mathlib.Algebra.Order.Field.Rat
import Mathlib.Data.Finset.Max
import Mathlib.Data.List.DropRight
import Mathlib.Tactic.FieldSimp
import Mathlib.Tactic.Linarith
import Mathlib.Tactic.NormNum
import Mathlib.Tactic.Positivity
import Mathlib.Tactic.Ring

/-!
# What the running statistics come to

The statistics of an endpoint are updated record by record. In exact arithmetic they are functions of the
reports since they began: the average is the mean of the times of the successful requests, the error rate is
the part of the failed ones, and each cache hit takes from what is missing in the hit rate the part that its
position among all records says.

* `Metrics.get?_run`: the statistics of an id come from its reports since they began, in their order.
* `Stats.Closed`: the closed forms. One more report keeps to them (`Closed.report`), so they hold after any
  number of reports (`closed_ofReports`).
* `Report.Proper`: a cache hit carries no outcome. `World.act_proper` says that requests report nothing else.
* `Metrics.closed_forms` puts this together with the bounds that follow.
-/

set_option autoImplicit false

namespace Egress

namespace Report

/-- The times of the successful requests, in milliseconds. -/
def durations (reports : List Report) : List ℚ :=
  (reports.filter (·.endsIn (some .success))).filterMap fun r =>
    r.nanos?.map fun nanos : Nat => (nanos : ℚ) / 1000000

/-- The number of requests that are recorded. -/
def records (reports : List Report) : Nat := reports.countP (·.nanos?.isSome)

def failures (reports : List Report) : Nat := reports.countP (·.endsIn (some .failure))

/-- The positions of the cache hits among all records, counted from 1. -/
def hitPositions (reports : List Report) : List Nat :=
  (((reports.filter (·.nanos?.isSome)).zipIdx 1).filter (·.1.isHit)).map (·.2)

theorem failures_le_records (reports : List Report) : failures reports ≤ records reports := by
  refine List.countP_mono_left fun r _ h => ?_
  cases r with
  | record id nanos hit result => rfl
  | limitHit id => cases h

theorem pos_of_mem_hitPositions {reports : List Report} {t : Nat} (h : t ∈ hitPositions reports) : 1 ≤ t := by
  obtain ⟨⟨r, t⟩, hmem, rfl⟩ := List.mem_map.1 h
  exact (List.mem_zipIdx (List.mem_filter.1 hmem).1).1

theorem hitPositions_concat (reports : List Report) (r : Report) :
    hitPositions (reports ++ [r]) =
      hitPositions reports ++ if r.isHit then [records reports + 1] else [] := by
  cases r with
  | record id nanos hit result =>
    cases hit <;>
      simp [hitPositions, records, isHit, nanos?, List.filter_append, List.zipIdx_append,
        List.countP_eq_length_filter, Nat.add_comm]
  | limitHit id => simp [hitPositions, nanos?, isHit, List.filter_append]

theorem durations_concat (reports : List Report) (r : Report) :
    durations (reports ++ [r]) = durations reports ++ durations [r] := by
  simp [durations, List.filter_append, List.filterMap_append]

end Report

open Report

namespace Stats

/-! ## One record -/

/-- A duration is what its seconds and the rest come to. -/
theorem inMilliseconds_eq (nanos : Nat) : (inMilliseconds nanos : ℚ) = nanos / 1000000 := by
  have hsplit : ((nanosPerSecond * (nanos / nanosPerSecond) + nanos % nanosPerSecond : Nat) : ℚ) = nanos :=
    congrArg Nat.cast (Nat.div_add_mod nanos nanosPerSecond)
  rw [← hsplit, inMilliseconds, inSeconds]
  push_cast
  norm_num [nanosPerSecond]
  ring

/-- The mean with one more value. -/
theorem nextAverage_eq (values : List ℚ) (value : ℚ) :
    nextAverage (values.sum / values.length) value (values.length + 1) =
      (values ++ [value]).sum / (values ++ [value]).length := by
  rw [nextAverage, List.sum_append, List.sum_singleton, List.length_append, List.length_singleton]
  cases values with
  | nil => simp
  | cons first rest =>
    have hne : (((first :: rest).length : Nat) : ℚ) ≠ 0 := Nat.cast_ne_zero.2 (Nat.succ_ne_zero _)
    push_cast
    field_simp
    ring

/-- What is missing in the hit rate after one more hit. -/
theorem one_sub_nextHitRate (rate : ℚ) (total : Nat) :
    1 - nextHitRate rate total = (1 - rate) * (1 - 1 / total) := by
  rw [nextHitRate]
  push_cast
  ring

/-! ## Any number of records -/

section

variable {α : Type} [NatCast α] [Add α] [Sub α] [Mul α] [Div α]

/-- The statistics that were told of reports. -/
def ofReports (reports : List Report) : Stats α := reports.foldl report zero

theorem ofReports_concat (reports : List Report) (r : Report) :
    (ofReports (reports ++ [r]) : Stats α) = (ofReports reports).report r := by
  simp [ofReports, List.foldl_append]

end

/-- The statistics are those of the reports. -/
structure Closed (s : Stats ℚ) (reports : List Report) : Prop where
  total : s.total = records reports
  successes : s.successes = (durations reports).length
  failures : s.failures = Report.failures reports
  average : s.averageTime = (durations reports).sum / (durations reports).length
  errorRate : s.errorRate = 100 * Report.failures reports / records reports
  hitRate : 1 - s.hitRate = ((hitPositions reports).map fun t : Nat => 1 - 1 / (t : ℚ)).prod

theorem closed_zero : Closed zero [] where
  total := rfl
  successes := rfl
  failures := rfl
  average := by simp [zero, durations]
  errorRate := by simp [zero, records]
  hitRate := by simp [zero, hitPositions]

theorem Closed.report {s : Stats ℚ} {reports : List Report} (h : Closed s reports) (r : Report) :
    Closed (s.report r) (reports ++ [r]) where
  total := by rw [total_report, h.total, records, records, List.countP_append, List.countP_singleton]
  successes := by
    rw [successes_report, h.successes, durations_concat, List.length_append]
    rcases r with ⟨_, _, _, _ | _ | _⟩ | _ <;> rfl
  failures := by
    rw [failures_report, h.failures, Report.failures, Report.failures, List.countP_append,
      List.countP_singleton]
  average := by
    rw [durations_concat]
    rcases r with ⟨id, nanos, hit, _ | _ | _⟩ | id
    case record.some.success =>
      have hnext := nextAverage_eq (durations reports) (nanos / 1000000)
      rw [← h.average, ← h.successes] at hnext
      simpa [Stats.report, record, inMilliseconds_eq, durations, endsIn, nanos?] using hnext
    -- the other reports leave the average
    all_goals
      rw [show durations [_] = [] from rfl, List.append_nil]
      exact h.average
  errorRate := by
    have htotal := total_report s r
    have hfailures := failures_report s r
    rw [h.total] at htotal
    rw [h.failures] at hfailures
    rw [records, Report.failures, List.countP_append, List.countP_append, List.countP_singleton,
      List.countP_singleton]
    rcases r with ⟨id, nanos, hit, result⟩ | id
    case record =>
      have hrate : ((s.report (.record id nanos hit result)).errorRate : ℚ) =
          ((s.report (.record id nanos hit result)).failures : ℚ) /
            ((s.report (.record id nanos hit result)).total : ℚ) * ((100 : Nat) : ℚ) := rfl
      rw [hrate, htotal, hfailures, Nat.cast_ofNat, div_mul_eq_mul_div, mul_comm]
      rfl
    case limitHit => exact h.errorRate
  hitRate := by
    rw [hitPositions_concat, List.map_append, List.prod_append, ← h.hitRate]
    rcases r with ⟨id, nanos, _ | _, result⟩ | id
    case record.true =>
      simp only [Stats.report, record, if_true, one_sub_nextHitRate, h.total, isHit, List.map_cons,
        List.map_nil, List.prod_singleton]
    all_goals simp [Stats.report, record, recordLimitHit, isHit]

theorem closed_ofReports (reports : List Report) : Closed (ofReports reports) reports := by
  induction reports using List.reverseRecOn with
  | nil => exact closed_zero
  | append_singleton reports r ih =>
    rw [ofReports_concat]
    exact ih.report r

/-! ## Bounds -/

/-- The mean of some values lies between the smallest and the greatest one. -/
theorem mean_between {values : List ℚ} (h : values ≠ []) :
    ∃ low ∈ values, ∃ high ∈ values, (∀ value ∈ values, low ≤ value ∧ value ≤ high) ∧
      low ≤ values.sum / values.length ∧ values.sum / values.length ≤ high := by
  have hfinite : values.toFinset.Nonempty := List.toFinset_nonempty_iff values |>.2 h
  obtain ⟨low, hlow, hmin⟩ := values.toFinset.exists_min_image (fun value => value) hfinite
  obtain ⟨high, hhigh, hmax⟩ := values.toFinset.exists_max_image (fun value => value) hfinite
  simp only [List.mem_toFinset] at hlow hmin hhigh hmax
  have hpos : (0 : ℚ) < values.length := Nat.cast_pos.2 (List.length_pos_iff.2 h)
  have hleast := List.card_nsmul_le_sum values low hmin
  have hgreatest := List.sum_le_card_nsmul values high hmax
  rw [nsmul_eq_mul] at hleast hgreatest
  refine ⟨low, hlow, high, hhigh, fun value hmem => ⟨hmin value hmem, hmax value hmem⟩, ?_, ?_⟩
  · rw [le_div_iff₀ hpos, mul_comm]
    exact hleast
  · rw [div_le_iff₀ hpos, mul_comm]
    exact hgreatest

/-- What is missing in the hit rate is a part of one. -/
theorem missing_between {positions : List Nat} (h : ∀ t ∈ positions, 1 ≤ t) :
    0 ≤ (positions.map fun t : Nat => 1 - 1 / (t : ℚ)).prod ∧
      (positions.map fun t : Nat => 1 - 1 / (t : ℚ)).prod ≤ 1 := by
  induction positions with
  | nil => simp
  | cons t positions ih =>
    obtain ⟨hnonneg, hle⟩ := ih fun t ht => h t (List.mem_cons_of_mem _ ht)
    have ht : (1 : ℚ) ≤ t := Nat.one_le_cast.2 (h t List.mem_cons_self)
    have hinv : 1 / (t : ℚ) ≤ 1 := by
      rw [div_le_one (by linarith)]
      exact ht
    have hinvpos : 0 ≤ 1 / (t : ℚ) := by positivity
    rw [List.map_cons, List.prod_cons]
    exact ⟨mul_nonneg (by linarith) hnonneg, mul_le_one₀ (by linarith) hnonneg hle⟩

namespace Closed

variable {s : Stats ℚ} {reports : List Report}

theorem errorRate_between (h : Closed s reports) : 0 ≤ s.errorRate ∧ s.errorRate ≤ 100 := by
  have hle : (Report.failures reports : ℚ) ≤ records reports := Nat.cast_le.2 (failures_le_records reports)
  rw [h.errorRate]
  refine ⟨by positivity, div_le_of_le_mul₀ (by positivity) (by norm_num) ?_⟩
  linarith

theorem hitRate_between (h : Closed s reports) : 0 ≤ s.hitRate ∧ s.hitRate ≤ 1 := by
  obtain ⟨hnonneg, hle⟩ := missing_between fun t (ht : t ∈ hitPositions reports) =>
    pos_of_mem_hitPositions ht
  rw [← h.hitRate] at hnonneg hle
  constructor <;> linarith

end Closed

end Stats

namespace Metrics

/-! ## The reports since the statistics began -/

/-- The action ends the statistics of an endpoint, or starts them from zero. -/
def Action.ends (id : String) : Action → Bool
  | .report _ => false
  | .reset id' | .remove id' => id' = id
  | .clear => true

/-- The reports on an endpoint since its statistics were last ended or started from zero. -/
def reportsSince (id : String) (actions : List Action) : List Report :=
  ((actions.rtakeWhile fun action => !action.ends id).filterMap Action.report?).filter (·.id = id)

theorem reportsSince_report (id : String) (actions : List Action) (r : Report) :
    reportsSince id (actions ++ [.report r]) =
      if r.id = id then reportsSince id actions ++ [r] else reportsSince id actions := by
  unfold reportsSince
  rw [List.rtakeWhile_concat_pos _ _ _ rfl, List.filterMap_append, List.filter_append]
  by_cases hid : r.id = id <;> simp [Action.report?, hid]

theorem reportsSince_of_ends {id : String} {action : Action} (h : action.ends id = true)
    (actions : List Action) : reportsSince id (actions ++ [action]) = [] := by
  unfold reportsSince
  rw [List.rtakeWhile_concat_neg]
  · rfl
  · simp [h]

theorem reportsSince_of_not_ends {id : String} {action : Action} (h : action.ends id = false)
    (hreport : action.report? = none) (actions : List Action) :
    reportsSince id (actions ++ [action]) = reportsSince id actions := by
  unfold reportsSince
  rw [List.rtakeWhile_concat_pos _ _ _ (by simp [h]), List.filterMap_append]
  simp [hreport]

/-- The statistics of an id come from the reports on it since they began. -/
theorem get?_run (actions : List Action) (id : String) :
    ((empty.run actions).get? id).getD Stats.zero = Stats.ofReports (reportsSince id actions) := by
  induction actions using List.reverseRecOn with
  | nil => rfl
  | append_singleton actions action ih =>
    rw [run_concat]
    cases action with
    | report r =>
      rw [reportsSince_report, perform, get?, stats_report, Dict.get?_insert]
      by_cases hid : r.id = id
      · rw [if_pos hid, if_pos hid, hid, Stats.ofReports_concat, ← ih]
        rfl
      · rw [if_neg hid, if_neg hid]
        exact ih
    | reset id' =>
      rw [perform, get?, reset, Dict.get?_insert]
      by_cases hid : id' = id
      · have hends : (Action.reset id').ends id = true := decide_eq_true hid
        rw [if_pos hid, reportsSince_of_ends hends]
        rfl
      · have hkeeps : (Action.reset id').ends id = false := decide_eq_false hid
        rw [if_neg hid, reportsSince_of_not_ends hkeeps rfl]
        exact ih
    | remove id' =>
      rw [perform, get?, remove, Dict.get?_erase]
      by_cases hid : id' = id
      · have hends : (Action.remove id').ends id = true := decide_eq_true hid
        rw [if_pos hid, reportsSince_of_ends hends]
        rfl
      · have hkeeps : (Action.remove id').ends id = false := decide_eq_false hid
        rw [if_neg hid, reportsSince_of_not_ends hkeeps rfl]
        exact ih
    | clear =>
      rw [reportsSince_of_ends rfl]
      rfl

end Metrics

/-! ## What requests report -/

/-- A cache hit carries no outcome. -/
def Report.Proper (r : Report) : Prop := r.isHit = true → r.endsIn none = true

theorem Report.Proper.not_hit {r : Report} (h : r.Proper)
    (hkind : r.isHit = false ∨ r.endsIn (some .failure) = true) : r.isHit = false := by
  rcases r with ⟨id, nanos, _ | _, _ | _ | _⟩ | id <;> simp_all [Report.Proper, isHit, endsIn]

theorem Report.Proper.not_success {r : Report} (h : r.Proper)
    (hkind : r.isHit = true ∨ r.endsIn (some .failure) = true) : r.endsIn (some .success) = false := by
  rcases r with ⟨id, nanos, _ | _, _ | _ | _⟩ | id <;> simp_all [Report.Proper, isHit, endsIn]

/-- Whatever a turn of a request reports is proper. -/
theorem World.act_proper {ω : Type} (transport : Transport ω) (now : Nat) (w : World ω) (request : Request) :
    ∃ reports : List Report, (∀ r ∈ reports, r.Proper) ∧
      (World.act transport now w request).1.service.metrics =
        w.service.metrics.run (reports.map .report) := by
  have hturns := World.act_turns transport now w request
  generalize (World.act transport now w request).1 = w' at hturns ⊢
  generalize (World.act transport now w request).2 = turn at hturns
  induction hturns with
  | unknown | wait | call | again => exact ⟨[], List.forall_mem_nil _, rfl⟩
  | found _ _ ih => exact ih
  | @refuse job retryAfter limiter henter =>
    refine ⟨[.limitHit job.endpoint.id,
      .record job.endpoint.id (job.elapsed now) false (some .failure)], ?_, rfl⟩
    simp [Report.Proper, isHit]
  | @hit job limiter envelope s henter hlookup =>
    have hmetrics := Service.lookup_metrics { w.service with limiter } now job
    rw [hlookup] at hmetrics
    refine ⟨[.record job.endpoint.id (job.elapsed now) true none], ?_, ?_⟩
    · simp [Report.Proper, endsIn]
    · exact congrArg (fun m : Metrics => m.record job.endpoint.id (job.elapsed now) true none) hmetrics
  | @miss job limiter s wire duration result henter hlookup hcall =>
    have hmetrics := Service.lookup_metrics { w.service with limiter } now job
    rw [hlookup] at hmetrics
    exact ⟨[], List.forall_mem_nil _, hmetrics⟩
  | @answer job n result answer hjudge =>
    cases answer with
    | ok envelope =>
      refine ⟨[.record job.endpoint.id (job.elapsed now) false (some .success)], ?_, rfl⟩
      simp [Report.Proper, isHit]
    | error failure =>
      refine ⟨[.record job.endpoint.id (job.elapsed now) false (some .failure)], ?_, rfl⟩
      simp [Report.Proper, isHit]

namespace Metrics

/-- The statistics of an id come from the reports on it since they began, and in exact arithmetic they are as
follows, whatever the reports. The average is the mean of the times of the successful requests, and lies
between them; it does not depend on their order, and only a success moves it. The error rate is the part of
the failures among all records, between 0 and 100 per cent. Each cache hit, at its position among all
records, leaves its part of what is missing in the hit rate, which lies between 0 and 1; only a record that
is flagged as a cache hit moves it. A cache hit carries no outcome, in all that requests report: then misses
and failures do not move the hit rate, and cache hits and failures do not move the average. -/
theorem closed_forms :
    (∀ (actions : List Action) (id : String),
      ((empty.run actions).get? id).getD Stats.zero = Stats.ofReports (reportsSince id actions)) ∧
    (∀ (ω : Type) (transport : Transport ω) (now : Nat) (w : World ω) (request : Request),
      ∃ reports : List Report, (∀ r ∈ reports, r.Proper) ∧
        (World.act transport now w request).1.service.metrics =
          w.service.metrics.run (reports.map .report)) ∧
    ∀ reports : List Report,
      let s : Stats ℚ := Stats.ofReports reports
      s.averageTime = (durations reports).sum / (durations reports).length ∧
      (durations reports = [] → s.averageTime = 0) ∧
      s.errorRate = 100 * failures reports / records reports ∧
      s.hitRate = 1 - ((hitPositions reports).map fun t : Nat => 1 - 1 / (t : ℚ)).prod ∧
      (durations reports ≠ [] → ∃ low ∈ durations reports, ∃ high ∈ durations reports,
        (∀ duration ∈ durations reports, low ≤ duration ∧ duration ≤ high) ∧
          low ≤ s.averageTime ∧ s.averageTime ≤ high) ∧
      0 ≤ s.errorRate ∧ s.errorRate ≤ 100 ∧ 0 ≤ s.hitRate ∧ s.hitRate ≤ 1 ∧
      (∀ r : Report, r.isHit = false →
        (Stats.ofReports (reports ++ [r]) : Stats ℚ).hitRate = s.hitRate) ∧
      (∀ r : Report, r.endsIn (some .success) = false →
        (Stats.ofReports (reports ++ [r]) : Stats ℚ).averageTime = s.averageTime) ∧
      (∀ r : Report, r.Proper →
        (r.isHit = false ∨ r.endsIn (some .failure) = true →
          (Stats.ofReports (reports ++ [r]) : Stats ℚ).hitRate = s.hitRate) ∧
        (r.isHit = true ∨ r.endsIn (some .failure) = true →
          (Stats.ofReports (reports ++ [r]) : Stats ℚ).averageTime = s.averageTime)) ∧
      ∀ reports', (durations reports').Perm (durations reports) →
        (Stats.ofReports reports' : Stats ℚ).averageTime = s.averageTime := by
  refine ⟨get?_run, fun _ transport now w request => World.act_proper transport now w request,
    fun reports => ?_⟩
  intro s
  have h := Stats.closed_ofReports reports
  have hmiss : ∀ r : Report, r.isHit = false →
      (Stats.ofReports (reports ++ [r]) : Stats ℚ).hitRate = s.hitRate := by
    intro r hr
    have hnext := (Stats.closed_ofReports (reports ++ [r])).hitRate
    rw [hitPositions_concat, hr, if_neg Bool.false_ne_true, List.append_nil, ← h.hitRate] at hnext
    linarith
  have hother : ∀ r : Report, r.endsIn (some .success) = false →
      (Stats.ofReports (reports ++ [r]) : Stats ℚ).averageTime = s.averageTime := by
    intro r hr
    have hnone : durations [r] = [] := by simp [durations, hr]
    rw [(Stats.closed_ofReports (reports ++ [r])).average, durations_concat, hnone, List.append_nil]
    exact h.average.symm
  refine ⟨h.average, fun hnone => ?_, h.errorRate, ?_, fun hsome => ?_, h.errorRate_between.1,
    h.errorRate_between.2, h.hitRate_between.1, h.hitRate_between.2, hmiss, hother, fun r hr => ?_,
    fun reports' hperm => ?_⟩
  · rw [h.average, hnone]
    simp
  · rw [← h.hitRate]
    ring
  · rw [h.average]
    exact Stats.mean_between hsome
  · exact ⟨fun hkind => hmiss r (hr.not_hit hkind), fun hkind => hother r (hr.not_success hkind)⟩
  · rw [(Stats.closed_ofReports reports').average, hperm.sum_eq, hperm.length_eq]
    exact h.average.symm

/-- A success, a cache hit, another success and a failure. -/
def mixedReports : List Report :=
  [.record "a" 100000000 false (some .success), .record "a" 1000000 true none,
    .record "a" 300000000 false (some .success), .record "a" 5000000 false (some .failure)]

/-- Their average is 200 milliseconds, also with the successes the other way round, and neither one more
failure nor one more cache hit moves it; a quarter of them failed; and half of the hit rate is missing after
the hit at position 2, and after one more failure too. -/
theorem closed_forms_mixedReports :
    let average (reports : List Report) := (Stats.ofReports reports : Stats ℚ).averageTime
    let hitRate (reports : List Report) := (Stats.ofReports reports : Stats ℚ).hitRate
    average [] = 0 ∧ average mixedReports = 200 ∧
      (∃ low ∈ durations mixedReports, low ≤ average mixedReports) ∧
      (Stats.ofReports mixedReports : Stats ℚ).errorRate = 25 ∧ hitRate mixedReports = 1 / 2 ∧
      hitRate (mixedReports ++ [.record "a" 1 false (some .failure)]) = 1 / 2 ∧
      average (mixedReports ++ [.record "a" 1 false (some .failure)]) = 200 ∧
      average (mixedReports ++ [.record "a" 1 true none]) = 200 ∧
      average [.record "a" 300000000 false (some .success), .record "a" 100000000 false (some .success)] =
        200 := by
  intro average hitRate
  obtain ⟨-, hnone, -⟩ := closed_forms.2.2 []
  obtain ⟨haverage, -, herror, hhit, hbetween, -, -, -, -, hmiss, hother, hproper, hperm⟩ :=
    closed_forms.2.2 mixedReports
  have hdurations : durations mixedReports =
      [((100000000 : Nat) : ℚ) / 1000000, ((300000000 : Nat) : ℚ) / 1000000] := rfl
  have htwo : average mixedReports = 200 := haverage.trans (by norm_num [hdurations])
  have hhalf : hitRate mixedReports = 1 / 2 := by
    refine hhit.trans ?_
    rw [show hitPositions mixedReports = [2] from rfl]
    norm_num
  obtain ⟨low, hlow, -, -, -, hle, -⟩ := hbetween (by simp [hdurations])
  refine ⟨hnone rfl, htwo, ⟨low, hlow, hle⟩, herror.trans ?_, hhalf, (hmiss _ rfl).trans hhalf,
    (hother _ rfl).trans htwo, ((hproper _ fun _ => rfl).2 (.inl rfl)).trans htwo,
    (hperm _ ?_).trans htwo⟩
  · rw [show failures mixedReports = 1 from rfl, show records mixedReports = 4 from rfl]
    norm_num
  · exact List.Perm.swap ..

end Metrics

end Egress
