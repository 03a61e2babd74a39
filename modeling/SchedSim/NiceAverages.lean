import SchedSim.JainsFairness
import SchedSim.Reports
import SchedSim.TaskSummaries

/-!
# The averages of the nice buckets

`write_task_rows` writes a row for every task, finished or not, and the turnaround time of an
unfinished one is written as zero.  The aggregation adds up the rows of a nice value and divides by
their number.

* `AggregateResults.runRows` — the rows of a run, as they are read back.
* `AggregateResults.average_eq_iff` — zeros may not be averaged over.
* `Machine.describesFinished_iff` — the averages of a bucket are those of its finished tasks exactly
  if all its tasks are finished.
* `niceAverages` — in every run of either simulator.
* `Simulator.niceAverages_false` — a run that is stopped before.
-/

namespace SchedSim

namespace AggregateResults

/-! ## The rows of a run -/

/-- A row of `tasks.csv` as the script reads it -/
def readTaskRow (key : RunKeyFields) (row : SchedSim.TaskRow) : TaskRow where
  runKey := key
  nice := row.nice
  weight := row.weight.toNat
  execution := row.execution
  allocatedCpu := row.allocatedCPU
  completed := if row.completed then 1 else 0
  responseTime := row.responseTime
  turnaroundTime := row.turnaroundTime
  waitTime := row.waitTime

/-- The rows of the tasks of a workload, in the order in which they were added. -/
def runRows (key : RunKeyFields) (w : Workload) (heap : Heap) : List TaskRow :=
  w.added.map fun p => readTaskRow key (SchedSim.taskRow (heap p))

variable {key : RunKeyFields} {w : Workload} {heap : Heap} {tasks : List TaskRow}

theorem runKey_of_mem_runRows {row : TaskRow} (h : row ∈ runRows key w heap) :
    row.runKey = key := by
  obtain ⟨p, -, rfl⟩ := List.mem_map.1 h
  rfl

/-- The rows of a run are one group. -/
theorem mem_tasksByRun_runRows {key' : RunKeyFields} :
    (key', tasks) ∈ tasksByRun (runRows key w heap) ↔
      key' = key ∧ tasks = runRows key w heap ∧ tasks ≠ [] := by
  have hsame : ((runRows key w heap).filter fun row => row.runKey = key) = runRows key w heap :=
    List.filter_eq_self.2 fun row hrow => decide_eq_true (runKey_of_mem_runRows hrow)
  constructor
  · intro h
    obtain ⟨htasks, hne⟩ := Grouping.mem_tally_append.1 h
    obtain ⟨row, hrow⟩ := List.exists_mem_of_ne_nil _ hne
    rw [htasks, List.mem_filter, decide_eq_true_eq] at hrow
    obtain rfl : key' = key := hrow.2.symm.trans (runKey_of_mem_runRows hrow.1)
    exact ⟨rfl, htasks.trans hsame, hne⟩
  · rintro ⟨rfl, rfl, hne⟩
    exact Grouping.mem_tally_append.2 ⟨hsame.symm, hne⟩

theorem mem_niceBucketRows {key' : RunKeyFields} {row : NiceBucketRow}
    (h : (key', row) ∈ niceBucketRows (runRows key w heap)) :
    row ∈ niceBuckets (runRows key w heap) := by
  obtain ⟨⟨key'', tasks⟩, hgroup, hrow⟩ := List.mem_flatMap.1 h
  obtain ⟨row', hrow', heq⟩ := List.mem_map.1 hrow
  obtain ⟨-, rfl⟩ := Prod.mk.inj heq
  rwa [(mem_tasksByRun_runRows.1 hgroup).2.1] at hrow'

/-- Every nice value of a task has a row. -/
theorem exists_niceBucketRow (key : RunKeyFields) {p : TaskPtr} (hp : p ∈ w.added) :
    ∃ entry ∈ niceBucketRows (runRows key w heap), entry.2.nice = (heap p).nice := by
  have hmem : readTaskRow key (SchedSim.taskRow (heap p)) ∈ runRows key w heap :=
    List.mem_map_of_mem hp
  obtain ⟨row, hrow, hnice⟩ := exists_niceBucket hmem
  have hgroup := mem_tasksByRun_runRows.2 ⟨rfl, rfl, List.ne_nil_of_mem hmem⟩
  exact ⟨(key, row), List.mem_flatMap.2 ⟨_, hgroup, List.mem_map.2 ⟨row, hrow, rfl⟩⟩, hnice⟩

/-! ## Averages -/

/-- The averages of a row are those of the tasks. -/
structure DescribesTasks (tasks : List Task) (row : NiceBucketRow) : Prop where
  avgTurnaroundTime : row.avgTurnaroundTime = mean (tasks.map Task.turnaroundTime)
  avgSlowdown : row.avgSlowdown = mean (tasks.map fun t => t.turnaroundTime / t.executionTime)

theorem mean_eq (values : List ℚ) : mean values = values.sum / values.length := by
  rw [mean]
  split
  next h => rw [h, List.sum_nil, zero_div]
  next => rfl

/-- Leaving out zeros does not change a sum. -/
theorem sum_filter_of_zero {α : Type*} {l : List α} {p : α → Prop} [DecidablePred p] {x : α → ℚ}
    (hzero : ∀ a ∈ l, ¬ p a → x a = 0) :
    ((l.filter p).map x).sum = (l.map x).sum := by
  induction l with
  | nil => rfl
  | cons a l ih =>
    have hrest := ih fun b hb => hzero b (List.mem_cons_of_mem a hb)
    by_cases ha : p a
    · rw [List.filter_cons_of_pos (by simpa using ha), List.map_cons, List.sum_cons, hrest,
        List.map_cons, List.sum_cons]
    · rw [List.filter_cons_of_neg (by simpa using ha), hrest, List.map_cons, List.sum_cons,
        hzero a List.mem_cons_self ha, zero_add]

/-- If the numbers of some are positive and those of the others zero, then the average over all is
the average over these exactly if there are no others. -/
theorem average_eq_iff {α : Type*} {l : List α} {p : α → Prop} [DecidablePred p] {x : α → ℚ}
    (hzero : ∀ a ∈ l, ¬ p a → x a = 0) (hpos : ∀ a ∈ l, p a → 0 < x a) (hsome : ∃ a ∈ l, p a) :
    (l.map x).sum / l.length = mean ((l.filter p).map x) ↔ ∀ a ∈ l, p a := by
  obtain ⟨a, ha, hpa⟩ := hsome
  have hmem : a ∈ l.filter p := List.mem_filter.2 ⟨ha, decide_eq_true hpa⟩
  have hfiltered : ∀ b ∈ l.filter p, 0 < x b := fun b hb =>
    hpos b (List.mem_of_mem_filter hb) (by simpa using List.of_mem_filter hb)
  have hsum : 0 < ((l.filter p).map x).sum := by
    refine List.sum_pos _ (fun y hy => ?_) (by simpa using List.ne_nil_of_mem hmem)
    obtain ⟨b, hb, rfl⟩ := List.mem_map.1 hy
    exact hfiltered b hb
  have hlength : ((l.filter p).length : ℚ) ≠ 0 := by
    exact_mod_cast List.length_pos_iff.2 (List.ne_nil_of_mem hmem) |>.ne'
  have hlength' : (l.length : ℚ) ≠ 0 := by
    exact_mod_cast List.length_pos_iff.2 (List.ne_nil_of_mem ha) |>.ne'
  rw [mean_eq, ← sum_filter_of_zero hzero, List.length_map, div_eq_div_iff hlength' hlength,
    mul_right_inj' hsum.ne', Nat.cast_inj]
  simp only [List.length_filter_eq_length_iff, decide_eq_true_eq]

end AggregateResults

/-! ## A run -/

namespace Machine

open AggregateResults

variable {σ Q : Type} [Scheduler σ] [DecidableEq Q] [LawfulScheduler σ] {n : ℕ}
  {m : Machine σ Q n} {cfg : SimConfig} {slot : Fin n → Q} {schedulers : Q → σ} {w : Workload}
  {key key' : RunKeyFields} {row : NiceBucketRow}

/-- The tasks of a nice value that are completed -/
def finishedOf (m : Machine σ Q n) (w : Workload) (nice : ℤ) : List Task :=
  (w.added.filter fun p => (m.heap p).nice = nice ∧ p ∈ m.completedTasks).map m.heap

/-- The averages of a bucket with a finished task describe the finished tasks exactly if there are
no others in it. -/
theorem describesFinished_iff [Fintype Q] [NeZero n] (hempty : ∀ q, readyTasks (schedulers q) = [])
    (hvalid : w.Valid) (h : Lts.Reachable (Step cfg slot) (init schedulers w) m)
    (hrow : (key', row) ∈ niceBucketRows (runRows key w m.heap))
    (hsome : m.finishedOf w row.nice ≠ []) :
    DescribesTasks (m.finishedOf w row.nice) row ↔
      ∀ p ∈ w.added, (m.heap p).nice = row.nice → p ∈ m.completedTasks := by
  let bucket := w.added.filter fun p => (m.heap p).nice = row.nice
  have hbucket : ∀ {p}, p ∈ bucket ↔ p ∈ w.added ∧ (m.heap p).nice = row.nice := by
    intro p
    simp only [bucket, List.mem_filter, decide_eq_true_eq]
  have hof : ofNice (runRows key w m.heap) row.nice
      = bucket.map fun p => readTaskRow key (SchedSim.taskRow (m.heap p)) := by
    rw [ofNice, runRows, List.filter_map]
    rfl
  have hfinished : m.finishedOf w row.nice
      = (bucket.filter fun p => p ∈ m.completedTasks).map m.heap := by
    rw [finishedOf, List.filter_filter]
    congr 2
    funext p
    rw [Bool.decide_and, Bool.and_comm]
  have hexec : ∀ p ∈ bucket, 0 < (m.heap p).executionTime := by
    intro p hp
    rw [executionTime_eq h]
    exact (hvalid p (hbucket.1 hp).1).2
  have hzero : ∀ p ∈ bucket, p ∉ m.completedTasks → (m.heap p).turnaroundTime = 0 := by
    intro p _ hp
    rw [Task.turnaroundTime, if_pos (completionTime_neg h hp)]
  have hpos : ∀ p ∈ bucket, p ∈ m.completedTasks → 0 < (m.heap p).turnaroundTime :=
    fun p _ hp => turnaroundTime_pos hempty hvalid h hp
  have hdone : ∃ p ∈ bucket, p ∈ m.completedTasks := by
    rw [hfinished, ne_eq, List.map_eq_nil_iff] at hsome
    obtain ⟨p, hp⟩ := List.exists_mem_of_ne_nil _ hsome
    exact ⟨p, List.mem_of_mem_filter hp, by simpa using List.of_mem_filter hp⟩
  -- what the row has added up
  obtain ⟨-, heq⟩ := niceBuckets_spec (mem_niceBucketRows hrow)
  rw [hof, foldl_add, List.map_map, List.map_map, List.length_map] at heq
  have htat : row.avgTurnaroundTime
      = (bucket.map fun p => (m.heap p).turnaroundTime).sum / bucket.length := by
    rw [heq, niceBucketRow]
    simp only [safeDiv_eq, List.map_map]
    rfl
  have hslow : row.avgSlowdown = (bucket.map fun p =>
      (m.heap p).turnaroundTime / (m.heap p).executionTime).sum / bucket.length := by
    rw [heq, niceBucketRow]
    simp only [safeDiv_eq, List.map_map]
    rfl
  have hall : (∀ p ∈ bucket, p ∈ m.completedTasks)
      ↔ ∀ p ∈ w.added, (m.heap p).nice = row.nice → p ∈ m.completedTasks := by
    simp only [hbucket, and_imp]
  rw [← hall]
  have hiffTat := average_eq_iff hzero hpos hdone
  have hiffSlow := average_eq_iff
    (x := fun p => (m.heap p).turnaroundTime / (m.heap p).executionTime)
    (fun p hp hnot => by rw [hzero p hp hnot, zero_div])
    (fun p hp hcomp => div_pos (hpos p hp hcomp) (hexec p hp)) hdone
  constructor
  · intro hrow
    refine hiffTat.1 ?_
    rw [← htat, hrow.avgTurnaroundTime, hfinished, List.map_map]
    rfl
  · intro hcomp
    refine ⟨?_, ?_⟩
    · rw [htat, hiffTat.2 hcomp, hfinished, List.map_map]
      rfl
    · rw [hslow, hiffSlow.2 hcomp, hfinished, List.map_map]
      rfl

end Machine

/-! ## The two simulators -/

open Machine AggregateResults

/-- **When the averages of a nice bucket describe its finished tasks.** Of every run of either
simulator, whenever it is stopped, and of every nice value with a finished task: the average
turnaround time and the average slowdown in the row of this nice value are the means over its
finished tasks if and only if all its tasks are finished. -/
theorem niceAverages {n : ℕ} [NeZero n] (kind : SchedulerKind) (w : Workload) (hvalid : w.Valid)
    (key : RunKeyFields) :
    (∀ (cfg : SimConfig) (s : Simulator kind.State n),
      Lts.Reachable (Simulator.Step cfg) (Simulator.init kind.make w) s →
      ∀ entry ∈ niceBucketRows (runRows key w (s.returned cfg).heap),
        s.finishedOf w entry.2.nice ≠ [] →
        (DescribesTasks (s.finishedOf w entry.2.nice) entry.2 ↔
          ∀ p ∈ w.added, (s.heap p).nice = entry.2.nice → p ∈ s.completedTasks)) ∧
    (∀ (balancer : LoadBalancer) (cfg : MultiConfig) (s : MultiCoreSimulator kind.State n),
      Lts.Reachable (MultiCoreSimulator.Step cfg) (MultiCoreSimulator.init kind.make balancer w) s →
      ∀ entry ∈ niceBucketRows (runRows key w (s.returned cfg.toSimConfig).heap),
        s.finishedOf w entry.2.nice ≠ [] →
        (DescribesTasks (s.finishedOf w entry.2.nice) entry.2 ↔
          ∀ p ∈ w.added, (s.heap p).nice = entry.2.nice → p ∈ s.completedTasks)) := by
  constructor
  · intro cfg s hs entry hentry hsome
    exact describesFinished_iff (fun _ => kind.readyTasks_make) hvalid
      (hs.simulate (f := id) fun _ _ _ => Simulator.step_machine) hentry hsome
  · intro balancer cfg s hs entry hentry hsome
    exact describesFinished_iff (fun _ => kind.readyTasks_make) hvalid
      (hs.simulate (f := MultiCoreSimulator.toMachine) fun _ _ _ =>
        MultiCoreSimulator.step_machine) hentry hsome

/-- Two tasks of nice value 0, the second of which is longer -/
def twoOfNiceZero : Workload := .ofList [⟨0, 0, 4, 0⟩, ⟨1, 0, 10, 0⟩]

/-- Both tasks have been finished. -/
theorem niceAverages_two :
    let kind := SchedulerKind.stride {}
    let s := Simulator.turns (n := 1) { stopTime := 50 } 5 (Simulator.init kind.make twoOfNiceZero)
    ∃ entry ∈ niceBucketRows (runRows sampleKey twoOfNiceZero s.heap),
      entry.2.nice = 0 ∧ DescribesTasks (s.finishedOf twoOfNiceZero 0) entry.2 := by
  intro kind s
  obtain ⟨entry, hentry, hnice⟩ : ∃ entry ∈ niceBucketRows (runRows sampleKey twoOfNiceZero s.heap),
      entry.2.nice = (s.heap 0).nice := exists_niceBucketRow sampleKey (by decide)
  have hzero : entry.2.nice = 0 := hnice.trans (by decide +kernel)
  have h := (niceAverages kind twoOfNiceZero (by decide +kernel) sampleKey).1 { stopTime := 50 } s
    (Simulator.reachable_turns _ 5 _) entry hentry (by rw [hzero]; decide +kernel)
  rw [hzero] at h
  exact ⟨entry, hentry, hzero, h.2 (by decide +kernel)⟩

/-- **They need not describe the finished tasks.** The run is stopped at 6, when one of the two
tasks of the bucket is finished. -/
theorem Simulator.niceAverages_false :
    let kind := SchedulerKind.stride {}
    ¬ ∀ s : Simulator kind.State 1,
      Lts.Reachable (Step { stopTime := 6 }) (init kind.make twoOfNiceZero) s →
      ∀ entry ∈ niceBucketRows (runRows sampleKey twoOfNiceZero
        (s.returned { stopTime := 6 }).heap), s.finishedOf twoOfNiceZero entry.2.nice ≠ [] →
        DescribesTasks (s.finishedOf twoOfNiceZero entry.2.nice) entry.2 := by
  intro kind hall
  let s := turns (n := 1) { stopTime := 6 } 5 (init kind.make twoOfNiceZero)
  obtain ⟨entry, hentry, hnice⟩ : ∃ entry ∈ niceBucketRows (runRows sampleKey twoOfNiceZero s.heap),
      entry.2.nice = (s.heap 0).nice := exists_niceBucketRow sampleKey (by decide)
  have hzero : entry.2.nice = 0 := hnice.trans (by decide +kernel)
  have hreach : Lts.Reachable (Step { stopTime := 6 }) (init kind.make twoOfNiceZero) s :=
    reachable_turns _ 5 _
  have hsome : s.finishedOf twoOfNiceZero entry.2.nice ≠ [] := by
    rw [hzero]
    decide +kernel
  have hiff := describesFinished_iff (fun _ => kind.readyTasks_make) (by decide +kernel)
    (hreach.simulate (f := id) fun _ _ _ => Simulator.step_machine) hentry hsome
  have hdone := hiff.1 (hall s hreach entry hentry hsome) 1 (by decide)
    (Eq.trans (by decide +kernel) hzero.symm)
  exact absurd hdone (by decide +kernel)

end SchedSim
