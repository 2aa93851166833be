import Egress.Metrics.Basic
import Egress.Proofs.Dict
import Mathlib.Data.List.Forall2
import Mathlib.Data.List.Induction

/-!
# What is exposed agrees with the statistics

Statistics are kept by id and end with it; what is exposed is kept by label, which several ids may share,
and never ends. Both are told of the same reports.

* `counts_run`: the series of a label counts the reports for that label, whatever was reset, removed or
  cleared in between.
* `sumOver_run`: what the statistics of all ids of a label count comes to the number of its reports.
* `mirror_run` puts the two side by side, and says that a series only ever grows.
-/

set_option autoImplicit false

namespace Egress

/-- What the statistics are told. -/
inductive Report
  | record (id : String) (nanos : Nat) (hit : Bool) (result : Option RequestResult)
  | limitHit (id : String)

namespace Report

def id : Report → String
  | .record id .. | .limitHit id => id

/-- The label that a report is exposed under. -/
def label (r : Report) : String := Label.sanitize r.id

/-- The request is recorded to have ended in this way, or not to have been sent. -/
def endsIn (result : Option RequestResult) : Report → Bool
  | .record _ _ _ r => r = result
  | .limitHit _ => false

/-- The request is flagged to be served from the cache. -/
def isHit : Report → Bool
  | .record _ _ hit _ => hit
  | .limitHit _ => false

def isLimitHit : Report → Bool
  | .record .. => false
  | .limitHit _ => true

/-- The time that a recorded request took. -/
def nanos? : Report → Option Nat
  | .record _ nanos _ _ => some nanos
  | .limitHit _ => none

end Report

namespace Stats

variable {α : Type} [NatCast α] [Add α] [Sub α] [Mul α] [Div α]

def report (s : Stats α) : Report → Stats α
  | .record _ nanos hit result => s.record nanos hit result
  | .limitHit _ => s.recordLimitHit

theorem successes_report (s : Stats α) (r : Report) :
    (s.report r).successes = s.successes + if r.endsIn (some .success) then 1 else 0 := by
  rcases r with ⟨_, _, _, _ | _ | _⟩ | _ <;> rfl

theorem failures_report (s : Stats α) (r : Report) :
    (s.report r).failures = s.failures + if r.endsIn (some .failure) then 1 else 0 := by
  rcases r with ⟨_, _, _, _ | _ | _⟩ | _ <;> rfl

theorem limitHits_report (s : Stats α) (r : Report) :
    (s.report r).limitHits = s.limitHits + if r.isLimitHit then 1 else 0 := by
  cases r <;> rfl

theorem total_report (s : Stats α) (r : Report) :
    (s.report r).total = s.total + if r.nanos?.isSome then 1 else 0 := by
  cases r <;> rfl

end Stats

namespace Series

def report (s : Series) : Report → Series
  | .record _ nanos hit result => s.record nanos hit result
  | .limitHit _ => s.recordLimitHit

/-- The counts of the samples up to each bound, and up to none. -/
def cumulative (s : Series) : List Nat := s.buckets ++ [s.samples]

/-- No counter of the first series is above that of the second one. -/
structure AtMost (a b : Series) : Prop where
  successes : a.successes ≤ b.successes
  failures : a.failures ≤ b.failures
  others : a.others ≤ b.others
  cacheHits : a.cacheHits ≤ b.cacheHits
  limitHits : a.limitHits ≤ b.limitHits
  cumulative : List.Forall₂ (· ≤ ·) a.cumulative b.cumulative

/-- What a series counts if it was told of these reports. -/
structure Counts (s : Series) (reports : List Report) : Prop where
  successes : s.successes = reports.countP (·.endsIn (some .success))
  failures : s.failures = reports.countP (·.endsIn (some .failure))
  others : s.others = reports.countP (·.endsIn none)
  cacheHits : s.cacheHits = reports.countP (·.isHit)
  limitHits : s.limitHits = reports.countP (·.isLimitHit)
  samples : s.samples = (reports.filterMap (·.nanos?)).length
  buckets : s.buckets = bounds.map fun bound => (reports.filterMap (·.nanos?)).countP (· ≤ bound.1)

/-! ## One series -/

theorem counts_zero : Counts zero [] := ⟨rfl, rfl, rfl, rfl, rfl, rfl, rfl⟩

theorem countSample_map (below : Nat × String → Nat) (nanos : Nat) :
    countSample (bounds.map below) nanos =
      bounds.map fun bound => below bound + if nanos ≤ bound.1 then 1 else 0 := by
  rw [countSample, List.zipWith_map_left, List.zipWith_self]
  refine List.map_congr_left fun bound _ => ?_
  split <;> rfl

theorem Counts.report {s : Series} {reports : List Report} (h : Counts s reports) (r : Report) :
    Counts (s.report r) (reports ++ [r]) := by
  constructor
  case successes =>
    rw [List.countP_append, List.countP_singleton, ← h.successes]
    rcases r with ⟨_, _, _, _ | _ | _⟩ | _ <;> rfl
  case failures =>
    rw [List.countP_append, List.countP_singleton, ← h.failures]
    rcases r with ⟨_, _, _, _ | _ | _⟩ | _ <;> rfl
  case others =>
    rw [List.countP_append, List.countP_singleton, ← h.others]
    rcases r with ⟨_, _, _, _ | _ | _⟩ | _ <;> rfl
  case cacheHits =>
    rw [List.countP_append, List.countP_singleton, ← h.cacheHits]
    rcases r with ⟨_, _, _ | _, _⟩ | _ <;> rfl
  case limitHits =>
    rw [List.countP_append, List.countP_singleton, ← h.limitHits]
    cases r <;> rfl
  case samples =>
    rw [List.filterMap_append, List.length_append, ← h.samples]
    cases r <;> rfl
  case buckets =>
    rw [List.filterMap_append]
    cases r with
    | record id nanos hit result =>
      simp only [Series.report, record, h.buckets, countSample_map, List.filterMap_cons,
        List.filterMap_nil, Report.nanos?, List.countP_append, List.countP_singleton, decide_eq_true_eq]
    | limitHit id =>
      rw [show [Report.limitHit id].filterMap (·.nanos?) = [] from rfl, List.append_nil]
      exact h.buckets

theorem Counts.cumulative {s : Series} {reports : List Report} (h : Counts s reports) :
    s.cumulative.Pairwise (· ≤ ·) := by
  have hbounds : bounds.Pairwise fun a b => a.1 ≤ b.1 := by decide
  rw [Series.cumulative, h.buckets, h.samples, List.pairwise_append, List.pairwise_map]
  refine ⟨hbounds.imp fun {a b} hab => ?_, List.pairwise_singleton .., ?_⟩
  · refine List.countP_mono_left fun nanos _ hnanos => ?_
    rw [decide_eq_true_eq] at hnanos ⊢
    exact Nat.le_trans hnanos hab
  · intro count hcount total htotal
    obtain ⟨bound, -, rfl⟩ := List.mem_map.1 hcount
    rw [List.mem_singleton.1 htotal]
    exact List.countP_le_length

theorem Counts.total {s : Series} {reports : List Report} (h : Counts s reports) :
    s.successes + s.failures + s.others = s.samples := by
  rw [h.successes, h.failures, h.others, h.samples, List.length_filterMap_eq_countP]
  clear h
  induction reports with
  | nil => rfl
  | cons r reports ih =>
    have hone : (if r.endsIn (some .success) then 1 else 0) + (if r.endsIn (some .failure) then 1 else 0) +
        (if r.endsIn none then 1 else 0) = if r.nanos?.isSome then 1 else 0 := by
      rcases r with ⟨id, nanos, hit, _ | _ | _⟩ | id <;> rfl
    simp only [List.countP_cons]
    omega

/-- A series does not go down when it is told more. -/
theorem Counts.atMost {s s' : Series} {reports more : List Report} (h : Counts s reports)
    (h' : Counts s' (reports ++ more)) : s.AtMost s' := by
  have hle : ∀ counts, reports.countP counts ≤ (reports ++ more).countP counts :=
    fun counts => (List.sublist_append_left reports more).countP_le
  constructor
  case successes => rw [h.successes, h'.successes]; exact hle _
  case failures => rw [h.failures, h'.failures]; exact hle _
  case others => rw [h.others, h'.others]; exact hle _
  case cacheHits => rw [h.cacheHits, h'.cacheHits]; exact hle _
  case limitHits => rw [h.limitHits, h'.limitHits]; exact hle _
  case cumulative =>
    have hsub := (List.sublist_append_left reports more).filterMap (·.nanos?)
    rw [Series.cumulative, Series.cumulative, h.buckets, h'.buckets, h.samples, h'.samples]
    refine List.rel_append ?_ (.cons hsub.length_le .nil)
    rw [List.forall₂_map_left_iff, List.forall₂_map_right_iff]
    exact List.forall₂_same.2 fun bound _ => hsub.countP_le

end Series

namespace Exposition

/-- The bucket lines of a histogram with these counts, the last of which has no bound. -/
def bucketLines (name label : String) (counts : List Nat) : List String :=
  List.zipWith (fun count bound => seriesText (name ++ "_bucket")
      [("endpoint", label), ("le", bound)] ++ " " ++ toString count) counts
    (Series.bounds.map (·.2) ++ ["+Inf"])

theorem histogramLines_eq {s : Series} {reports : List Report} (h : s.Counts reports) (name : String)
    (number : Float → String) (label : String) :
    histogramLines name number label s =
      if s.samples = 0 then []
      else bucketLines name label s.cumulative ++
        [seriesText (name ++ "_sum") [("endpoint", label)] ++ " " ++ number s.sum,
          seriesText (name ++ "_count") [("endpoint", label)] ++ " " ++ toString s.samples] := by
  have hlength : s.buckets.length = (Series.bounds.map (·.2)).length := by
    rw [h.buckets, List.length_map, List.length_map]
  rw [histogramLines, bucketLines, Series.cumulative, List.zipWith_append hlength,
    List.zipWith_map_right, List.append_assoc]
  rfl

end Exposition

namespace Metrics

/-- What is done to the statistics. -/
inductive Action
  | report (r : Report)
  | reset (id : String)
  | remove (id : String)
  | clear

/-- What an action tells, if it is a report. -/
def Action.report? : Action → Option Report
  | .report r => some r
  | .reset _ | .remove _ | .clear => none

def report (m : Metrics) : Report → Metrics
  | .record id nanos hit result => m.record id nanos hit result
  | .limitHit id => m.recordLimitHit id

def perform (m : Metrics) : Action → Metrics
  | .report r => m.report r
  | .reset id => m.reset id
  | .remove id => m.remove id
  | .clear => m.clear

/-- The statistics after actions. -/
def run (m : Metrics) (actions : List Action) : Metrics := actions.foldl perform m

/-- The series of a label. One that was never counted is zero. -/
def series (m : Metrics) (label : String) : Series := (m.exposition.series.get? label).getD Series.zero

/-- The sum over all ids with this label. -/
def sumOver (m : Metrics) (label : String) (f : Stats Float → Nat) : Nat :=
  m.stats.sumOver (fun id => Label.sanitize id = label) f

/-- The reports for a label. -/
def reportsFor (label : String) (actions : List Action) : List Report :=
  (actions.filterMap Action.report?).filter (·.label = label)

/-! ## Labels -/

/-- What is remembered of labels is what would be made again. -/
def Faithful (m : Metrics) : Prop :=
  ∀ text label, m.labels.known.get? text = some label → label = Label.sanitize text

theorem label_fst {m : Metrics} (h : m.Faithful) (text : String) :
    (m.label text).1 = Label.sanitize text := by
  unfold label LabelMemo.sanitize
  cases hknown : m.labels.known.get? text with
  | none => rfl
  | some label => exact h text label hknown

theorem Faithful.label {m : Metrics} (h : m.Faithful) (text : String) : (m.label text).2.Faithful := by
  unfold Metrics.label LabelMemo.sanitize
  cases hknown : m.labels.known.get? text with
  | some label => exact h
  | none =>
    intro k label hget
    rw [Dict.get?_insert] at hget
    split at hget
    · next heq => exact heq ▸ (Option.some.inj hget).symm
    · exact h k label hget

/-! ## One action -/

theorem stats_report (m : Metrics) (r : Report) :
    (m.report r).stats = m.stats.insert r.id (((m.stats.get? r.id).getD Stats.zero).report r) := by
  cases r <;> rfl

theorem series_count {m : Metrics} (h : m.Faithful) (id : String) (f : Series → Series) (label : String) :
    (m.count id f).series label =
      if Label.sanitize id = label then f (m.series label) else m.series label := by
  have hseries : (m.count id f).series label =
      (((m.label id).2.exposition.series.insert (m.label id).1
        (f ((m.label id).2.series (m.label id).1))).get? label).getD Series.zero := rfl
  rw [hseries, label_fst h, Dict.get?_insert]
  split
  · next heq => subst heq; rfl
  · rfl

theorem series_report {m : Metrics} (h : m.Faithful) (r : Report) (label : String) :
    (m.report r).series label =
      if r.label = label then (m.series label).report r else m.series label := by
  cases r with
  | record id nanos hit result => exact series_count (fun text label => h text label) id _ label
  | limitHit id => exact series_count (fun text label => h text label) id _ label

/-- A sum over the statistics of a label goes up with what the report adds to those of its id. -/
theorem sumOver_report (m : Metrics) {f : Stats Float → Nat} {counts : Report → Bool}
    (hzero : f Stats.zero = 0)
    (hreport : ∀ s r, f (s.report r) = f s + if counts r then 1 else 0) (r : Report) (label : String) :
    (m.report r).sumOver label f =
      m.sumOver label f + if r.label = label then (if counts r then 1 else 0) else 0 := by
  have hold : (m.stats.get? r.id).elim 0 f = f ((m.stats.get? r.id).getD Stats.zero) := by
    cases m.stats.get? r.id with
    | none => exact hzero.symm
    | some s => rfl
  have hinsert := m.stats.sumOver_insert r.id (((m.stats.get? r.id).getD Stats.zero).report r)
    (fun id => Label.sanitize id = label) f
  rw [← stats_report, hreport, hold] at hinsert
  by_cases hr : r.label = label
  · have hid : decide (Label.sanitize r.id = label) = true := decide_eq_true hr
    simp only [hid, if_true] at hinsert
    rw [if_pos hr]
    unfold sumOver
    omega
  · have hid : decide (Label.sanitize r.id = label) = false := decide_eq_false hr
    simp only [hid, Bool.false_eq_true, if_false] at hinsert
    rw [if_neg hr]
    exact hinsert

theorem Faithful.perform {m : Metrics} (h : m.Faithful) (action : Action) :
    (m.perform action).Faithful := by
  rcases action with ⟨⟨id, nanos, hit, result⟩ | ⟨id⟩⟩ | ⟨id⟩ | ⟨id⟩ | ⟨⟩
  · exact Faithful.label (fun text label => h text label) id
  · exact Faithful.label (fun text label => h text label) id
  all_goals exact h

/-! ## Runs -/

theorem run_concat (m : Metrics) (actions : List Action) (action : Action) :
    m.run (actions ++ [action]) = (m.run actions).perform action := by
  simp [run]

theorem faithful_run (actions : List Action) : (empty.run actions).Faithful := by
  induction actions using List.reverseRecOn with
  | nil =>
    intro text label hget
    cases hget
  | append_singleton actions action ih =>
    rw [run_concat]
    exact ih.perform action

theorem reportsFor_append (label : String) (actions more : List Action) :
    reportsFor label (actions ++ more) = reportsFor label actions ++ reportsFor label more := by
  simp [reportsFor]

theorem reportsFor_report (label : String) (r : Report) :
    reportsFor label [.report r] = if r.label = label then [r] else [] := by
  by_cases hr : r.label = label <;> simp [reportsFor, Action.report?, hr]

theorem reportsFor_reports (label : String) (reports : List Report) :
    reportsFor label (reports.map .report) = reports.filter (·.label = label) := by
  rw [reportsFor, List.filterMap_map]
  exact congrArg _ List.filterMap_some

/-- A series counts the reports for its label, whatever was reset, removed or cleared in between. -/
theorem counts_run (actions : List Action) (label : String) :
    ((empty.run actions).series label).Counts (reportsFor label actions) := by
  induction actions using List.reverseRecOn with
  | nil => exact Series.counts_zero
  | append_singleton actions action ih =>
    rw [run_concat, reportsFor_append]
    cases action with
    | report r =>
      rw [perform, series_report (faithful_run actions), reportsFor_report]
      by_cases hr : r.label = label
      · rw [if_pos hr, if_pos hr]
        exact ih.report r
      · rw [if_neg hr, if_neg hr, List.append_nil]
        exact ih
    | reset | remove | clear =>
      rw [show reportsFor label [_] = [] from rfl, List.append_nil]
      exact ih

/-- The sum of a count that goes up by one with some of the reports is the number of these. -/
theorem sumOver_run {f : Stats Float → Nat} {counts : Report → Bool} (hzero : f Stats.zero = 0)
    (hreport : ∀ s r, f (s.report r) = f s + if counts r then 1 else 0) (reports : List Report)
    (label : String) :
    (empty.run (reports.map .report)).sumOver label f =
      (reportsFor label (reports.map .report)).countP counts := by
  induction reports using List.reverseRecOn with
  | nil => rfl
  | append_singleton reports r ih =>
    rw [List.map_append, List.map_singleton, run_concat, perform, sumOver_report _ hzero hreport, ih,
      reportsFor_append, List.countP_append, reportsFor_report]
    split
    · rw [List.countP_singleton]
    · rfl

/-- Where nothing is reset, removed or cleared, the series of a label count what the statistics of all ids of
the label come to: the requests by outcome, those over the limit, and all of them. They also count the cache
hits and the times of the reports for the label, each time at the bounds it does not exceed, and the lines of
the histogram tell these counts. Whatever is reset, removed or cleared, no series ever goes down. -/
theorem mirror_run :
    (∀ (reports : List Report) (label : String),
      let m := empty.run (reports.map .report)
      let s := m.series label
      let nanos := (reports.filter (·.label = label)).filterMap (·.nanos?)
      s.successes = m.sumOver label (·.successes) ∧
        s.failures = m.sumOver label (·.failures) ∧
        m.sumOver label (·.successes) + m.sumOver label (·.failures) + s.others =
          m.sumOver label (·.total) ∧
        s.limitHits = m.sumOver label (·.limitHits) ∧
        s.cacheHits = reports.countP (fun r => r.label = label ∧ r.isHit) ∧
        s.samples = m.sumOver label (·.total) ∧
        s.cumulative = (Series.bounds.map fun bound => nanos.countP (· ≤ bound.1)) ++ [s.samples] ∧
        s.cumulative.Pairwise (· ≤ ·) ∧
        ∀ name number, Exposition.histogramLines name number label s =
          if s.samples = 0 then []
          else Exposition.bucketLines name label s.cumulative ++
            [Exposition.seriesText (name ++ "_sum") [("endpoint", label)] ++ " " ++ number s.sum,
              Exposition.seriesText (name ++ "_count") [("endpoint", label)] ++ " " ++
                toString s.samples]) ∧
      ∀ (actions more : List Action) (label : String),
        ((empty.run actions).series label).AtMost ((empty.run (actions ++ more)).series label) := by
  refine ⟨fun reports label => ?_, fun actions more label => ?_⟩
  · intro m s nanos
    have hcounts : s.Counts (reportsFor label (reports.map .report)) := counts_run _ label
    have hsuccesses : m.sumOver label (·.successes) = s.successes :=
      (sumOver_run rfl Stats.successes_report reports label).trans hcounts.successes.symm
    have hfailures : m.sumOver label (·.failures) = s.failures :=
      (sumOver_run rfl Stats.failures_report reports label).trans hcounts.failures.symm
    have hlimitHits : m.sumOver label (·.limitHits) = s.limitHits :=
      (sumOver_run rfl Stats.limitHits_report reports label).trans hcounts.limitHits.symm
    have htotal : m.sumOver label (·.total) = s.samples := by
      rw [hcounts.samples, List.length_filterMap_eq_countP]
      exact sumOver_run rfl Stats.total_report reports label
    have hbuckets := hcounts.buckets
    have hhits := hcounts.cacheHits
    rw [reportsFor_reports] at hbuckets hhits
    refine ⟨hsuccesses.symm, hfailures.symm, ?_, hlimitHits.symm, ?_, htotal.symm, ?_, hcounts.cumulative,
      fun name number => Exposition.histogramLines_eq hcounts name number label⟩
    · rw [hsuccesses, hfailures, htotal]
      exact hcounts.total
    · rw [hhits, List.countP_filter]
      refine List.countP_congr fun r _ => ?_
      simp [and_comm]
    · rw [Series.cumulative, hbuckets]
  · have hmore := counts_run (actions ++ more) label
    rw [reportsFor_append] at hmore
    exact (counts_run actions label).atMost hmore

/-- Two ids share a label, and what was counted for the first one outlasts its statistics. -/
example :
    let m := empty.run [.report (.record "a-b" 60000000 false (some .success)), .reset "a-b",
      .report (.record "a b" 10000000 true none)]
    (m.series "a_b").successes = 1 ∧ (m.series "a_b").others = 1 ∧
      (m.series "a_b").cumulative = [1, 1, 2, 2, 2, 2, 2, 2, 2, 2, 2] ∧ m.sumOver "a_b" (·.total) = 1 :=
  ⟨rfl, rfl, rfl, rfl⟩

end Metrics

end Egress
