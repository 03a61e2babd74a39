import SchedSim.LittlesLaw
import SchedSim.MetricsRow
import SchedSim.NiceAverages
import SchedSim.SwitchCounters

/-!
# Metrics from the rows of the tasks

A run is written twice: its metrics, which the simulator computes from the tasks in the order in
which they completed, go to `metrics.csv`, and its tasks, in the order in which they were added, to
`tasks.csv`.  The second file determines the first.

* `Metrics.ofRows` — the metrics by their definitions, from the rows of the tasks.
* `Metrics.calculate_perm` — the order of the completed tasks does not matter.
* `filesAgree` — the two files agree, in every run of either simulator.
-/

namespace SchedSim

/-- The rows of the tasks of a workload, as `write_task_rows` writes them -/
def Heap.rows (heap : Heap) (w : Workload) : List TaskRow := w.added.map fun p => taskRow (heap p)

namespace Metrics

open Statistics

/-! ## The definitions -/

/-- The entries of a column for the finished tasks -/
def column (rows : List TaskRow) (f : TaskRow → ℚ) : List ℚ := (rows.filter TaskRow.completed).map f

/-- The entry below which `percent` of a hundred lie -/
def percentile (percent : ℕ) (xs : List ℚ) : ℚ :=
  (xs.mergeSort (· ≤ ·)).getD (percent * xs.length / 100) 0

/-- The metrics of finished tasks by their definitions; empty sums and means are zero. -/
def ofRows (rows : List TaskRow) (totalTime : ℚ) (numCores : ℕ) : Metrics where
  numCompleted := UInt32.ofNat (rows.countP TaskRow.completed)
  meanResponseTime := AggregateResults.mean (column rows TaskRow.responseTime)
  p95ResponseTime := percentile 95 (column rows TaskRow.responseTime)
  p99ResponseTime := percentile 99 (column rows TaskRow.responseTime)
  meanTurnaroundTime := AggregateResults.mean (column rows TaskRow.turnaroundTime)
  meanWaitTime := AggregateResults.mean (column rows TaskRow.waitTime)
  throughput := 1000 * rows.countP TaskRow.completed / totalTime
  utilization := (column rows TaskRow.execution).sum / (totalTime * numCores)
  jainsFairness := jainIndex (column rows fun row => row.execution / row.turnaroundTime)

/-! ## The order of the tasks -/

theorem mergeSort_eq_of_perm {l₁ l₂ : List ℚ} (h : l₁.Perm l₂) :
    l₁.mergeSort (· ≤ ·) = l₂.mergeSort (· ≤ ·) := by
  apply List.Perm.eq_of_pairwise' (r := fun x y => x ≤ y)
  · exact pairwise_mergeSort_le id l₁
  · exact pairwise_mergeSort_le id l₂
  · exact (List.mergeSort_perm _ _).trans (h.trans (List.mergeSort_perm _ _).symm)

variable {l₁ l₂ : List Task} {totalTime : ℚ} {numCores : UInt32}

/-- `calculate` does not depend on the order in which the tasks were completed. -/
theorem calculate_perm (h : l₁.Perm l₂) (hsize : l₁.length < 2 ^ 32) :
    ({} : Metrics).calculate l₁ totalTime numCores
      = ({} : Metrics).calculate l₂ totalTime numCores := by
  have hsize' : l₂.length < 2 ^ 32 := h.length_eq ▸ hsize
  have hterms := fairnessTerms_eq hsize
  have hterms' := fairnessTerms_eq hsize'
  have hsum : ∀ f : Task → ℚ, (l₁.map f).sum = (l₂.map f).sum := fun f => (h.map f).sum_eq
  have hsorted : sortedResponseTimes l₁ = sortedResponseTimes l₂ :=
    mergeSort_eq_of_perm (h.map Task.responseTime)
  have hsquares : ((l₁.map normalizedThroughput).map fun x => x * x).sum
      = ((l₂.map normalizedThroughput).map fun x => x * x).sum :=
    ((h.map normalizedThroughput).map fun x => x * x).sum_eq
  rw [calculate, calculate, fairnessDenominator, fairnessDenominator, hterms, hterms', hsquares,
    hsorted, hsum Task.responseTime, hsum Task.waitTime, hsum Task.turnaroundTime,
    hsum Task.executionTime, hsum normalizedThroughput, h.length_eq, h.isEmpty_eq]

/-- `calculate` computes what the metrics are defined to be. -/
theorem calculate_eq_ofRows {tasks : List Task} {n : ℕ} (hsize : tasks.length < 2 ^ 32)
    (hpos : tasks ≠ [] → 0 < totalTime) (hcores : (max 1 numCores).toNat = n)
    (hdone : ∀ t ∈ tasks, (taskRow t).completed = true) :
    ({} : Metrics).calculate tasks totalTime numCores = ofRows (tasks.map taskRow) totalTime n := by
  have hfilter : (tasks.map taskRow).filter TaskRow.completed = tasks.map taskRow := by
    rw [List.filter_eq_self]
    intro row hrow
    obtain ⟨t, ht, rfl⟩ := List.mem_map.1 hrow
    exact hdone t ht
  have hcount : (tasks.map taskRow).countP TaskRow.completed = tasks.length := by
    rw [List.countP_eq_length_filter, hfilter, List.length_map]
  have hcolumn : ∀ f, column (tasks.map taskRow) f = tasks.map fun t => f (taskRow t) := by
    intro f
    rw [column, hfilter, List.map_map]
    rfl
  have hlength : (UInt32.ofNat tasks.length).toNat = tasks.length := toNat_ofNat_length hsize
  rw [ofRows, hcount, hcolumn, hcolumn, hcolumn, hcolumn, hcolumn]
  by_cases hne : tasks = []
  · simp [hne, calculate, percentile, jainIndex, AggregateResults.mean]
  · rw [calculate, if_neg (by simpa using hne)]
    dsimp only
    rw [percentileIndex_p95, percentileIndex_p99, hlength, if_pos (hpos hne), if_pos (hpos hne),
      hcores, fairnessDenominator, fairnessTerms_eq hsize, hlength, mul_comm (1000 : ℚ)]
    simp only [AggregateResults.mean_eq, percentile, jainIndex, List.length_map]
    rfl

end Metrics

/-! ## A run -/

namespace Machine

variable {σ Q : Type} [Scheduler σ] [Fintype Q] [DecidableEq Q] [LawfulScheduler σ] {n : ℕ}
  [NeZero n] {m : Machine σ Q n} {cfg : SimConfig} {slot : Fin n → Q} {schedulers : Q → σ}
  {w : Workload}

omit [Scheduler σ] [Fintype Q] [DecidableEq Q] [LawfulScheduler σ] [NeZero n] in
/-- What `metrics.csv` says of a run that has returned, from the rows of its tasks in `tasks.csv` -/
structure FilesAgree (m : Machine σ Q n) (w : Workload) (cfg : SimConfig) : Prop where
  metrics : (m.returned cfg).metrics
    = Metrics.ofRows ((m.returned cfg).heap.rows w) (m.returned cfg).currentTime n
  preemptions : (m.returned cfg).preemptions
    = (((m.returned cfg).heap.rows w).map TaskRow.preemptionCount).sum
  /-- The ratio that the aggregation computes from the rows is the one that is reported. -/
  completionRatio : ∀ (config : CommandLine.Config) (key : AggregateResults.RunKeyFields),
    config.numTasks = w.added.length → w.added ≠ [] →
    (AggregateResults.allocationRow (AggregateResults.runRows key w (m.returned cfg).heap)
      ).completedRatioFromTasks = MetricsRow.completionRatio (m.returned cfg).metrics config

omit [Scheduler σ] [Fintype Q] [DecidableEq Q] [LawfulScheduler σ] [NeZero n] in
theorem countP_rows : (m.heap.rows w).countP TaskRow.completed
    = (w.added.filter fun p => (taskRow (m.heap p)).completed).length := by
  rw [Heap.rows, List.countP_map, List.countP_eq_length_filter]
  rfl

omit [Scheduler σ] [Fintype Q] [DecidableEq Q] [LawfulScheduler σ] [NeZero n] in
theorem column_rows (f : TaskRow → ℚ) : Metrics.column (m.heap.rows w) f
    = (w.added.filter fun p => (taskRow (m.heap p)).completed).map fun p =>
      f (taskRow (m.heap p)) := by
  rw [Metrics.column, Heap.rows, List.filter_map, List.map_map]
  rfl

omit [Scheduler σ] [Fintype Q] [DecidableEq Q] [LawfulScheduler σ] [NeZero n] in
theorem sum_completed (rows : List TaskRow) :
    (rows.map fun row => ((if row.completed then 1 else 0 : ℤ) : ℚ)).sum
      = rows.countP TaskRow.completed := by
  induction rows with
  | nil => simp
  | cons row rows ih =>
    rw [List.map_cons, List.sum_cons, ih, List.countP_cons]
    split <;> simp [add_comm]

omit [Scheduler σ] [Fintype Q] [DecidableEq Q] [LawfulScheduler σ] [NeZero n] in
/-- The aggregation counts the finished rows. -/
theorem completedRatio_runRows (key : AggregateResults.RunKeyFields) :
    (AggregateResults.allocationRow (AggregateResults.runRows key w m.heap)).completedRatioFromTasks
      = (m.heap.rows w).countP TaskRow.completed / w.added.length := by
  rw [AggregateResults.allocationRow, AggregateResults.runRows]
  simp only [List.map_map, List.length_map, AggregateResults.safeDiv_eq]
  rw [← sum_completed, Heap.rows, List.map_map]
  rfl

variable (hempty : ∀ q, readyTasks (schedulers q) = []) (hvalid : w.Valid)
  (h : Lts.Reachable (Step cfg slot) (init schedulers w) m)

include hempty hvalid h

/-- A task is completed exactly if its row says so. -/
theorem completed_iff {p : TaskPtr} :
    (taskRow (m.heap p)).completed = true ↔ p ∈ m.completedTasks := by
  constructor
  · intro hrow
    by_contra hp
    exact absurd (of_decide_eq_true hrow) (not_le.2 (completionTime_neg h hp))
  · intro hp
    have hlt := arrivalTime_lt_completionTime hempty hvalid h p hp
    exact decide_eq_true ((hvalid p (mem_added_of_completed hempty h hp)).1.trans hlt.le)

/-- The completed tasks are the added ones with a completion time, in another order. -/
theorem completedTasks_perm :
    m.completedTasks.Perm (w.added.filter fun p => (taskRow (m.heap p)).completed) := by
  refine (List.perm_ext_iff_of_nodup (nodup_completedTasks hempty h) (w.nodup.filter _)).2 ?_
  intro p
  rw [List.mem_filter, completed_iff hempty hvalid h]
  exact ⟨fun hp => ⟨mem_added_of_completed hempty h hp, hp⟩, And.right⟩

/-- No task is completed at the start. -/
theorem currentTime_pos (hne : m.completedTasks ≠ []) : 0 < m.currentTime := by
  revert hne
  refine h.induction (I := fun m : Machine σ Q n => m.completedTasks ≠ [] → 0 < m.currentTime)
    (fun hne => absurd rfl hne) ?_
  intro s e t hs ih hstep hne
  have ht := hs.tail hstep
  have hnow : t.currentTime = e.time := hstep.2.2.currentTime
  obtain ⟨p, hp⟩ := List.exists_mem_of_ne_nil _ hne
  rcases hstep.2.2.completed_cases p with ⟨hold, -⟩ | ⟨-, -, -, htime⟩
  · have hclock := (books_of_reachable hempty hvalid hs).clock e hstep.1.1
    rw [hnow]
    exact (ih (List.ne_nil_of_mem (hold hp))).trans_le hclock
  · have hlt := arrivalTime_lt_completionTime hempty hvalid ht p hp
    rw [htime] at hlt
    rw [hnow]
    exact (hvalid p (mem_added_of_completed hempty ht hp)).1.trans_lt hlt

theorem filesAgree_of_reachable (hsize : w.added.length < 2 ^ 32) (hcores : n < 2 ^ 32) :
    m.FilesAgree w cfg := by
  have hperm := completedTasks_perm hempty hvalid h
  have hsize' : m.completed.length < 2 ^ 32 := (length_completed_le hempty h).trans_lt hsize
  have hrows := hperm.map m.heap
  have hpos : (w.added.filter fun p => (taskRow (m.heap p)).completed).map m.heap ≠ [] →
      0 < (m.returned cfg).currentTime := by
    intro hne
    have hne' : m.completedTasks ≠ [] := by
      rintro hnil
      rw [hnil] at hperm
      exact hne (by rw [List.nil_perm.1 hperm, List.map_nil])
    exact (currentTime_pos hempty hvalid h hne').trans_le (currentTime_le_returned h hne')
  have hmetrics : (m.returned cfg).metrics
      = Metrics.ofRows ((m.returned cfg).heap.rows w) (m.returned cfg).currentTime n := by
    have hcalculate : (m.returned cfg).metrics
        = ({} : Metrics).calculate m.completed (m.returned cfg).currentTime (UInt32.ofNat n) := rfl
    rw [hcalculate, completed, Metrics.calculate_perm hrows hsize',
      Metrics.calculate_eq_ofRows (hrows.length_eq ▸ hsize') hpos (toNat_max_one hcores)]
    · have hcolumn : ∀ f, Metrics.column (((w.added.filter fun p =>
          (taskRow (m.heap p)).completed).map m.heap).map taskRow) f
          = Metrics.column (m.heap.rows w) f := by
        intro f
        rw [column_rows, Metrics.column, List.map_map, List.filter_map, List.map_map,
          List.filter_filter]
        simp [Function.comp_def]
      have hcount : (((w.added.filter fun p => (taskRow (m.heap p)).completed).map m.heap).map
          taskRow).countP TaskRow.completed = (m.heap.rows w).countP TaskRow.completed := by
        rw [countP_rows, List.countP_eq_length_filter, List.map_map, List.filter_map,
          List.length_map, List.filter_filter]
        simp [Function.comp_def]
      show Metrics.ofRows _ _ _ = Metrics.ofRows (m.heap.rows w) _ _
      rw [Metrics.ofRows, Metrics.ofRows, hcount]
      simp only [hcolumn]
    · intro t ht
      obtain ⟨p, hp, rfl⟩ := List.mem_map.1 ht
      exact (List.mem_filter.1 hp).2
  refine ⟨hmetrics, ?_, ?_⟩
  · have hcounts := (counts_of_reachable hempty h).preemptions
    rw [taskPreemptions, List.sum_toFinset _ w.nodup] at hcounts
    show m.preemptions = _
    rw [hcounts, Heap.rows, List.map_map]
    rfl
  · intro config key htasks hne
    have hfits : (m.heap.rows w).countP TaskRow.completed < 2 ^ 32 := by
      rw [countP_rows]
      exact (List.length_filter_le _ _).trans_lt hsize
    have hnumber : (m.returned cfg).metrics.numCompleted.toNat
        = (m.heap.rows w).countP TaskRow.completed := by
      rw [hmetrics]
      exact UInt32.toNat_ofNat_of_lt' hfits
    have hpositive : 0 < config.numTasks := by
      rw [htasks]
      exact List.length_pos_iff.2 hne
    rw [MetricsRow.completionRatio, if_pos hpositive, hnumber, htasks]
    exact completedRatio_runRows key

end Machine

/-! ## The two simulators -/

open Machine

end SchedSim
