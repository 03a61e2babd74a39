import SchedSim.Grouping
import SchedSim.Statistics
import Mathlib.Algebra.Order.BigOperators.Group.List

/-!
# Summaries of the task rows

The task-derived part of `scripts/aggregate_results.py`: the rows of all `tasks.csv` files are
grouped by run, and each group gives a row of `weighted_allocation_summary.csv` and, for every
nice value in it, a row of `nice_bucket_allocation.csv`.  Numbers are exact.  The correlation
columns, which need square roots, and the columns that copy the run over are left out.

* `AggregateResults.allocationRow`, `AggregateResults.niceBucketRows` — the two kinds of rows.
* `AggregateResults.sum_niceBuckets` — sums over the buckets are sums over the tasks.
* `AggregateResults.allocation_normalised` — the shares of a group are normalised.
-/

namespace SchedSim

namespace AggregateResults

/-- `run_key_fields` -/
structure RunKeyFields where
  suiteId : String
  runId : String
  seed : ℤ
  replication : ℤ
  numTasks : ℤ
  cores : ℤ
  topology : String
  balancer : String
  workStealing : String
  stopTime : ℚ
  scheduler : String
  workload : String
  deriving DecidableEq

/-- A row of `tasks.csv` as it is read, with the columns the summaries use. -/
structure TaskRow where
  runKey : RunKeyFields
  nice : ℤ
  weight : ℚ
  execution : ℚ
  allocatedCpu : ℚ
  completed : ℤ
  responseTime : ℚ
  turnaroundTime : ℚ
  waitTime : ℚ

/-- `safe_div` -/
def safeDiv (a b : ℚ) : ℚ := if b ≠ 0 then a / b else 0

/-- Dividing by zero gives zero in any case. -/
@[simp] theorem safeDiv_eq (a b : ℚ) : safeDiv a b = a / b := by
  rw [safeDiv]
  split
  next => rfl
  next hb => rw [not_not.1 hb, div_zero]

def mean (values : List ℚ) : ℚ :=
  if values = [] then 0 else values.sum / values.length

/-- `tasks_by_run` -/
def tasksByRun (rows : List TaskRow) : List (RunKeyFields × List TaskRow) :=
  Grouping.tally TaskRow.runKey [] (fun tasks row => tasks ++ [row]) rows

/-! ## The allocation summary -/

/-- A row of `weighted_allocation_summary.csv` -/
structure AllocationRow where
  completedRatioFromTasks : ℚ
  totalAllocatedCpu : ℚ
  totalWeight : ℚ
  shareMae : ℚ
  shareTv : ℚ
  proportionalJain : ℚ

def totalAlloc (tasks : List TaskRow) : ℚ := (tasks.map TaskRow.allocatedCpu).sum

def totalWeight (tasks : List TaskRow) : ℚ := (tasks.map TaskRow.weight).sum

/-- The share of the allocated CPU time that a task got -/
def obs (tasks : List TaskRow) (t : TaskRow) : ℚ := safeDiv t.allocatedCpu (totalAlloc tasks)

/-- The share that its weight stands for -/
def exp (tasks : List TaskRow) (t : TaskRow) : ℚ := safeDiv t.weight (totalWeight tasks)

def shareAbsErr (tasks : List TaskRow) : List ℚ :=
  tasks.map fun t => |obs tasks t - exp tasks t|

def ratioVals (tasks : List TaskRow) : List ℚ :=
  tasks.map fun t => if 0 < exp tasks t then safeDiv (obs tasks t) (exp tasks t) else 0

def proportionalJain (ratios : List ℚ) : ℚ :=
  let ratioSqSum := (ratios.map fun v => v * v).sum
  if ratioSqSum ≠ 0 then safeDiv (ratios.sum ^ 2) (ratios.length * ratioSqSum) else 0

/-- The row of a group -/
def allocationRow (tasks : List TaskRow) : AllocationRow where
  completedRatioFromTasks := safeDiv (tasks.map fun t => (t.completed : ℚ)).sum tasks.length
  totalAllocatedCpu := totalAlloc tasks
  totalWeight := totalWeight tasks
  shareMae := mean (shareAbsErr tasks)
  shareTv := 1 / 2 * (shareAbsErr tasks).sum
  proportionalJain := proportionalJain (ratioVals tasks)

def allocationRows (rows : List TaskRow) : List (RunKeyFields × AllocationRow) :=
  (tasksByRun rows).map fun (key, tasks) => (key, allocationRow tasks)

/-! ## The buckets of nice values -/

/-- What is added up over the tasks of one nice value -/
structure NiceBucket where
  alloc : ℚ := 0
  weight : ℚ := 0
  count : ℕ := 0
  respSum : ℚ := 0
  waitSum : ℚ := 0
  tatSum : ℚ := 0
  slowSum : ℚ := 0

/-- One task more -/
def NiceBucket.add (b : NiceBucket) (t : TaskRow) : NiceBucket where
  alloc := b.alloc + t.allocatedCpu
  weight := b.weight + t.weight
  count := b.count + 1
  respSum := b.respSum + t.responseTime
  waitSum := b.waitSum + t.waitTime
  tatSum := b.tatSum + t.turnaroundTime
  slowSum := b.slowSum + safeDiv t.turnaroundTime t.execution

/-- `by_nice` -/
def byNice (tasks : List TaskRow) : List (ℤ × NiceBucket) :=
  Grouping.tally TaskRow.nice {} NiceBucket.add tasks

/-- A row of `nice_bucket_allocation.csv` -/
structure NiceBucketRow where
  nice : ℤ
  taskCount : ℕ
  observedShare : ℚ
  expectedWeightShare : ℚ
  shareDelta : ℚ
  avgResponseTime : ℚ
  avgWaitTime : ℚ
  avgTurnaroundTime : ℚ
  avgSlowdown : ℚ

/-- The row of a bucket of a group -/
def niceBucketRow (tasks : List TaskRow) (nice : ℤ) (vals : NiceBucket) : NiceBucketRow :=
  let obsShare := safeDiv vals.alloc (totalAlloc tasks)
  let expShare := safeDiv vals.weight (totalWeight tasks)
  { nice
    taskCount := vals.count
    observedShare := obsShare
    expectedWeightShare := expShare
    shareDelta := obsShare - expShare
    avgResponseTime := safeDiv vals.respSum vals.count
    avgWaitTime := safeDiv vals.waitSum vals.count
    avgTurnaroundTime := safeDiv vals.tatSum vals.count
    avgSlowdown := safeDiv vals.slowSum vals.count }

/-- The rows of a group, in the order of the nice values -/
def niceBuckets (tasks : List TaskRow) : List NiceBucketRow :=
  ((byNice tasks).mergeSort fun a b => a.1 ≤ b.1).map fun (nice, vals) =>
    niceBucketRow tasks nice vals

def niceBucketRows (rows : List TaskRow) : List (RunKeyFields × NiceBucketRow) :=
  (tasksByRun rows).flatMap fun (key, tasks) => (niceBuckets tasks).map fun row => (key, row)

/-! ## What the buckets hold -/

variable {tasks : List TaskRow} {row : NiceBucketRow}

/-- The tasks of a nice value -/
def ofNice (tasks : List TaskRow) (nice : ℤ) : List TaskRow :=
  tasks.filter fun t => t.nice = nice

/-- What a bucket has added up -/
theorem foldl_add (tasks : List TaskRow) : tasks.foldl NiceBucket.add {} =
    { alloc := (tasks.map TaskRow.allocatedCpu).sum
      weight := (tasks.map TaskRow.weight).sum
      count := tasks.length
      respSum := (tasks.map TaskRow.responseTime).sum
      waitSum := (tasks.map TaskRow.waitTime).sum
      tatSum := (tasks.map TaskRow.turnaroundTime).sum
      slowSum := (tasks.map fun t => t.turnaroundTime / t.execution).sum } := by
  induction tasks using List.reverseRecOn with
  | nil => rfl
  | append_singleton tasks t ih =>
    rw [List.foldl_concat, ih]
    simp [NiceBucket.add]

/-- A row stands for the tasks of its nice value. -/
theorem niceBuckets_spec (h : row ∈ niceBuckets tasks) : ofNice tasks row.nice ≠ [] ∧
    row = niceBucketRow tasks row.nice ((ofNice tasks row.nice).foldl NiceBucket.add {}) := by
  obtain ⟨⟨nice, vals⟩, hentry, rfl⟩ := List.mem_map.1 h
  rw [List.mem_mergeSort] at hentry
  obtain ⟨-, hkeys, hvalue⟩ := Grouping.tally_spec TaskRow.nice {} NiceBucket.add tasks
  obtain ⟨t, ht, hnice⟩ := (hkeys nice).1 (List.mem_map_of_mem (f := Prod.fst) hentry)
  constructor
  · exact List.ne_nil_of_mem (List.mem_filter.2 ⟨ht, decide_eq_true hnice⟩)
  · have hvals : vals = (ofNice tasks nice).foldl NiceBucket.add {} := hvalue _ hentry
    rw [hvals]
    rfl

/-- Every nice value of a task has a row. -/
theorem exists_niceBucket {t : TaskRow} (h : t ∈ tasks) :
    ∃ row ∈ niceBuckets tasks, row.nice = t.nice := by
  obtain ⟨-, hkeys, -⟩ := Grouping.tally_spec TaskRow.nice {} NiceBucket.add tasks
  obtain ⟨⟨nice, vals⟩, hentry, hnice⟩ := List.mem_map.1 ((hkeys t.nice).2 ⟨t, h, rfl⟩)
  exact ⟨niceBucketRow tasks nice vals,
    List.mem_map.2 ⟨_, List.mem_mergeSort.2 hentry, rfl⟩, hnice⟩

/-- Sums over the buckets are sums over the tasks. -/
theorem sum_niceBuckets {M : Type*} [AddCommMonoid M] {g : NiceBucketRow → M} {f : NiceBucket → M}
    {x : TaskRow → M} (hg : ∀ nice vals, g (niceBucketRow tasks nice vals) = f vals)
    (hdefault : f {} = 0) (hadd : ∀ vals t, f (vals.add t) = f vals + x t) :
    ((niceBuckets tasks).map g).sum = (tasks.map x).sum := by
  have htally : ((Grouping.tally TaskRow.nice {} NiceBucket.add tasks).map fun entry =>
      f entry.2).sum
      = (tasks.map x).sum := Grouping.sum_map_tally hdefault hadd tasks
  rw [← htally, niceBuckets, List.map_map]
  refine List.Perm.sum_eq ?_
  refine ((List.mergeSort_perm _ _).map _).trans (List.Perm.of_eq ?_)
  exact List.map_congr_left fun entry _ => hg entry.1 entry.2

/-! ## Normalisation -/

section Normalised

variable (hne : tasks ≠ []) (halloc : ∀ t ∈ tasks, 0 ≤ t.allocatedCpu)
  (hweight : ∀ t ∈ tasks, 0 < t.weight) (hsome : ∃ t ∈ tasks, 0 < t.allocatedCpu)

include halloc hsome in
theorem totalAlloc_pos : 0 < totalAlloc tasks := by
  obtain ⟨t, ht, hpos⟩ := hsome
  have hle : t.allocatedCpu ≤ totalAlloc tasks :=
    List.single_le_sum (by simpa using halloc) _ (List.mem_map_of_mem ht)
  exact hpos.trans_le hle

include hne hweight in
theorem totalWeight_pos : 0 < totalWeight tasks :=
  List.sum_pos _ (by simpa using hweight) (by simpa using hne)

/-- Parts of a total add up to one. -/
theorem sum_map_div_total {x : TaskRow → ℚ} (h : 0 < (tasks.map x).sum) :
    (tasks.map fun t => x t / (tasks.map x).sum).sum = 1 := by
  have hmul : (tasks.map fun t => x t / (tasks.map x).sum)
      = (tasks.map x).map fun v => v * (tasks.map x).sum⁻¹ := by
    rw [List.map_map]
    exact List.map_congr_left fun t _ => div_eq_mul_inv _ _
  rw [hmul, List.sum_map_mul_right, List.map_id', mul_inv_cancel₀ h.ne']

include halloc hsome in
theorem sum_obs : (tasks.map (obs tasks)).sum = 1 := by
  have h := sum_map_div_total (totalAlloc_pos halloc hsome)
  simp only [← safeDiv_eq] at h
  exact h

include hne hweight in
theorem sum_exp : (tasks.map (exp tasks)).sum = 1 := by
  have h := sum_map_div_total (totalWeight_pos hne hweight)
  simp only [← safeDiv_eq] at h
  exact h

include halloc hsome in
theorem obs_nonneg {t : TaskRow} (ht : t ∈ tasks) : 0 ≤ obs tasks t := by
  rw [obs, safeDiv_eq]
  exact div_nonneg (halloc t ht) (totalAlloc_pos halloc hsome).le

include hne hweight in
theorem exp_pos {t : TaskRow} (ht : t ∈ tasks) : 0 < exp tasks t := by
  rw [exp, safeDiv_eq]
  exact div_pos (hweight t ht) (totalWeight_pos hne hweight)

include hne halloc hweight hsome

/-- The total variation of two distributions is at most one. -/
theorem shareTv_bounds : 0 ≤ (allocationRow tasks).shareTv ∧ (allocationRow tasks).shareTv ≤ 1 := by
  have hnonneg : 0 ≤ (shareAbsErr tasks).sum := by
    refine List.sum_nonneg fun x hx => ?_
    obtain ⟨t, -, rfl⟩ := List.mem_map.1 hx
    exact abs_nonneg _
  have hle : (shareAbsErr tasks).sum ≤ (tasks.map fun t => obs tasks t + exp tasks t).sum := by
    refine List.sum_le_sum fun t ht => ?_
    have hobs := obs_nonneg halloc hsome ht
    have hexp := exp_pos hne hweight ht
    rw [abs_le]
    constructor <;> linarith
  rw [List.sum_map_add, sum_obs halloc hsome, sum_exp hne hweight] at hle
  rw [allocationRow]
  constructor <;> linarith

/-- The index of the ratios is Jain's index. -/
theorem proportionalJain_bounds : 1 / (tasks.length : ℚ) ≤ (allocationRow tasks).proportionalJain ∧
    (allocationRow tasks).proportionalJain ≤ 1 := by
  have hratio : ∀ t ∈ tasks, (if 0 < exp tasks t then safeDiv (obs tasks t) (exp tasks t) else 0)
      = obs tasks t / exp tasks t := by
    intro t ht
    rw [if_pos (exp_pos hne hweight ht), safeDiv_eq]
  have hpos : ∀ x ∈ ratioVals tasks, 0 ≤ x := by
    intro x hx
    obtain ⟨t, ht, rfl⟩ := List.mem_map.1 hx
    rw [hratio t ht]
    exact div_nonneg (obs_nonneg halloc hsome ht) (exp_pos hne hweight ht).le
  have hne' : ∃ x ∈ ratioVals tasks, x ≠ 0 := by
    obtain ⟨t, ht, hallocPos⟩ := hsome
    refine ⟨_, List.mem_map.2 ⟨t, ht, rfl⟩, ?_⟩
    rw [hratio t ht, obs, safeDiv_eq]
    exact (div_pos (div_pos hallocPos (totalAlloc_pos halloc ⟨t, ht, hallocPos⟩))
      (exp_pos hne hweight ht)).ne'
  have hindex : (allocationRow tasks).proportionalJain
      = Statistics.jainIndex (ratioVals tasks) := by
    show proportionalJain (ratioVals tasks) = _
    rw [proportionalJain, if_pos (Statistics.sum_mul_self_pos hne').ne', safeDiv_eq, sq,
      Statistics.jainIndex]
  have hlength : (ratioVals tasks).length = tasks.length := List.length_map _
  rw [hindex, ← hlength]
  exact ⟨Statistics.one_div_length_le_jainIndex hpos hne', Statistics.jainIndex_le_one hne'⟩

omit hne hweight in
theorem sum_observedShare : ((niceBuckets tasks).map NiceBucketRow.observedShare).sum = 1 := by
  rw [← sum_obs halloc hsome]
  refine sum_niceBuckets (f := fun b => safeDiv b.alloc (totalAlloc tasks)) (fun _ _ => rfl) ?_ ?_
  · simp
  · intro vals t
    simp only [NiceBucket.add, obs, safeDiv_eq, add_div]

omit halloc hsome in
theorem sum_expectedWeightShare :
    ((niceBuckets tasks).map NiceBucketRow.expectedWeightShare).sum = 1 := by
  rw [← sum_exp hne hweight]
  refine sum_niceBuckets (f := fun b => safeDiv b.weight (totalWeight tasks)) (fun _ _ => rfl) ?_ ?_
  · simp
  · intro vals t
    simp only [NiceBucket.add, exp, safeDiv_eq, add_div]

theorem sum_shareDelta : ((niceBuckets tasks).map NiceBucketRow.shareDelta).sum = 0 := by
  have hdelta : ((niceBuckets tasks).map NiceBucketRow.shareDelta).sum
      = (tasks.map fun t => obs tasks t - exp tasks t).sum := by
    refine sum_niceBuckets (f := fun b => safeDiv b.alloc (totalAlloc tasks)
      - safeDiv b.weight (totalWeight tasks)) (fun _ _ => rfl) ?_ ?_
    · simp
    · intro vals t
      simp only [NiceBucket.add, obs, exp, safeDiv_eq, add_div]
      ring
  have hsum : (tasks.map (obs tasks)).sum
      = (tasks.map fun t => obs tasks t - exp tasks t).sum + (tasks.map (exp tasks)).sum := by
    rw [← List.sum_map_add]
    simp only [sub_add_cancel]
  rw [sum_obs halloc hsome, sum_exp hne hweight] at hsum
  linarith

end Normalised

theorem sum_taskCount : ((niceBuckets tasks).map NiceBucketRow.taskCount).sum = tasks.length := by
  have h : ((niceBuckets tasks).map NiceBucketRow.taskCount).sum = (tasks.map fun _ => 1).sum :=
    sum_niceBuckets (f := NiceBucket.count) (fun _ _ => rfl) rfl fun _ _ => rfl
  rw [h]
  simp

/-- **Allocation summaries are normalised.** Of every group of tasks that have got no negative CPU
time and have positive weights, one of them having got some: the total variation of the shares is
between zero and one, the index of the ratios between one over the number of tasks and one, and
over the buckets of nice values the observed and the expected shares each add up to one, their
differences to zero and the task counts to the number of tasks. -/
theorem allocation_normalised (tasks : List TaskRow) (hne : tasks ≠ [])
    (halloc : ∀ t ∈ tasks, 0 ≤ t.allocatedCpu) (hweight : ∀ t ∈ tasks, 0 < t.weight)
    (hsome : ∃ t ∈ tasks, 0 < t.allocatedCpu) :
    (0 ≤ (allocationRow tasks).shareTv ∧ (allocationRow tasks).shareTv ≤ 1) ∧
      (1 / (tasks.length : ℚ) ≤ (allocationRow tasks).proportionalJain ∧
        (allocationRow tasks).proportionalJain ≤ 1) ∧
      ((niceBuckets tasks).map NiceBucketRow.observedShare).sum = 1 ∧
      ((niceBuckets tasks).map NiceBucketRow.expectedWeightShare).sum = 1 ∧
      ((niceBuckets tasks).map NiceBucketRow.shareDelta).sum = 0 ∧
      ((niceBuckets tasks).map NiceBucketRow.taskCount).sum = tasks.length :=
  ⟨shareTv_bounds hne halloc hweight hsome, proportionalJain_bounds hne halloc hweight hsome,
    sum_observedShare halloc hsome, sum_expectedWeightShare hne hweight,
    sum_shareDelta hne halloc hweight hsome, sum_taskCount⟩

/-- A key for rows to try things on -/
def sampleKey : RunKeyFields where
  suiteId := "ad-hoc"
  runId := "run-1"
  seed := 1
  replication := 1
  numTasks := 3
  cores := 1
  topology := "sq"
  balancer := "na"
  workStealing := "na"
  stopTime := 50
  scheduler := "CFS"
  workload := "Server"

/-- A row with the given nice value, weight and CPU time -/
def sampleRow (nice : ℤ) (weight alloc : ℚ) : TaskRow where
  runKey := sampleKey
  nice := nice
  weight := weight
  execution := 10
  allocatedCpu := alloc
  completed := 0
  responseTime := 0
  turnaroundTime := 0
  waitTime := 0

/-- Three tasks in two buckets, one of them without any CPU time -/
theorem allocation_normalised_three :
    let tasks := [sampleRow 0 1024 6, sampleRow 5 335 0, sampleRow 0 1024 2]
    (allocationRow tasks).shareTv ≤ 1 ∧
      ((niceBuckets tasks).map NiceBucketRow.observedShare).sum = 1 := by
  intro tasks
  have h := allocation_normalised tasks (by simp [tasks]) (by simp [tasks, sampleRow])
    (by simp [tasks, sampleRow]) ⟨sampleRow 0 1024 6, by simp [tasks], by norm_num [sampleRow]⟩
  exact ⟨h.1.2, h.2.2.1⟩

end AggregateResults

end SchedSim
