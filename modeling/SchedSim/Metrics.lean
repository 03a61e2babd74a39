import SchedSim.Binary64
import SchedSim.Statistics
import SchedSim.Task
import Mathlib.Data.List.GetD

/-!
# Performance metrics

`scheduler/metrics.hpp` and `src/core/metrics.cpp`: what is computed from the completed
tasks of a run.  Times are exact; the index of a percentile is a product of doubles, as in
the source.

* `Metrics.percentileIndex_p95`, `Metrics.percentileIndex_p99` — rounding does not disturb
  the index: it is the whole part of 95 or 99 percent of the number of tasks.
* `Metrics.consistent_calculate` — if the times of every task are ordered, the means and the
  percentiles are what their names say.
* `Metrics.fair_calculate` — if no task was completed at its own arrival, Jain's index is
  well defined and in range.
-/

namespace SchedSim

/-- Collection of performance metrics. -/
structure Metrics where
  numCompleted : UInt32 := 0
  meanResponseTime : ℚ := 0
  p95ResponseTime : ℚ := 0
  p99ResponseTime : ℚ := 0
  meanTurnaroundTime : ℚ := 0
  meanWaitTime : ℚ := 0
  throughput : ℚ := 0
  utilization : ℚ := 0
  jainsFairness : ℚ := 0
  contextSwitches : UInt32 := 0
  preemptions : UInt32 := 0
  deriving DecidableEq

namespace Metrics

open Binary64 Statistics

/-- `static_cast<size_t>(num_completed * fraction)` -/
def percentileIndex (fraction : ℚ) (numCompleted : UInt32) : ℕ :=
  (truncate (nearest (numCompleted.toNat * nearest fraction))).toNat

/-- The response times after `std::sort`. -/
def sortedResponseTimes (completedTasks : List Task) : List ℚ :=
  (completedTasks.map Task.responseTime).mergeSort (· ≤ ·)

/-- The normalised throughput of a task. -/
def normalizedThroughput (t : Task) : ℚ := t.executionTime / t.turnaroundTime

/-- What the loop for Jain's index runs over: as many tasks as the counter says. -/
def fairnessTerms (completedTasks : List Task) : List ℚ :=
  (completedTasks.take (UInt32.ofNat completedTasks.length).toNat).map normalizedThroughput

/-- `num_completed * sum_x2` -/
def fairnessDenominator (completedTasks : List Task) : ℚ :=
  (UInt32.ofNat completedTasks.length).toNat * ((fairnessTerms completedTasks).map fun x =>
    x * x).sum

/-- Fill in everything but the two counters of the simulator. -/
def calculate (metrics : Metrics) (completedTasks : List Task) (totalTime : ℚ)
    (numCores : UInt32) : Metrics :=
  if completedTasks.isEmpty then metrics
  else
    let numCompleted := UInt32.ofNat completedTasks.length
    let count : ℚ := numCompleted.toNat
    let sorted := sortedResponseTimes completedTasks
    let totalExecTime := (completedTasks.map Task.executionTime).sum
    { metrics with
      numCompleted := numCompleted
      meanResponseTime := (completedTasks.map Task.responseTime).sum / count
      meanWaitTime := (completedTasks.map Task.waitTime).sum / count
      meanTurnaroundTime := (completedTasks.map Task.turnaroundTime).sum / count
      p95ResponseTime := sorted.getD (percentileIndex (95 / 100) numCompleted) 0
      p99ResponseTime := sorted.getD (percentileIndex (99 / 100) numCompleted) 0
      throughput := if 0 < totalTime then count * 1000 / totalTime else 0
      utilization :=
        if 0 < totalTime then totalExecTime / (totalTime * (max 1 numCores).toNat) else 0
      jainsFairness := (fairnessTerms completedTasks).sum * (fairnessTerms completedTasks).sum
        / fairnessDenominator completedTasks }

/-! ## The index of a percentile -/

/-- The product of a count with the double for `percent / 100` has the whole part of the exact
product, if the double is not above the fraction and below it by less than a rounding. -/
theorem percentileIndex_eq (percent : ℕ) {n : UInt32}
    (hle : nearest (percent / 100) ≤ percent / 100)
    (hnear : (percent : ℚ) / 100 - nearest (percent / 100) ≤ nearest (percent / 100) / 2 ^ 54)
    (hpercent : percent < 100) :
    percentileIndex (percent / 100) n = percent * n.toNat / 100 := by
  rw [percentileIndex]
  set c := nearest ((percent : ℚ) / 100) with hc
  set k := percent * n.toNat / 100 with hk
  have hdiv : percent * n.toNat = 100 * k + percent * n.toNat % 100 :=
    (Nat.div_add_mod _ _).symm
  have hmod : percent * n.toNat % 100 ≤ 99 := Nat.le_of_lt_succ (Nat.mod_lt _ (by norm_num))
  have hexact : (k : ℚ) ≤ n.toNat * (percent / 100) ∧
      n.toNat * (percent / 100) ≤ (k : ℚ) + 99 / 100 := by
    have hlow : (100 * k : ℚ) ≤ percent * n.toNat := by exact_mod_cast
      (by omega : 100 * k ≤ percent * n.toNat)
    have hhigh : (percent * n.toNat : ℚ) ≤ 100 * k + 99 := by
      exact_mod_cast (by omega : percent * n.toNat ≤ 100 * k + 99)
    constructor <;> linarith
  have hcpos : 0 ≤ c := by
    have hpos : (0 : ℚ) ≤ percent / 100 := by positivity
    by_contra hneg
    have : c / 2 ^ 54 < 0 := div_neg_of_neg_of_pos (not_le.1 hneg) (by norm_num)
    linarith [not_le.1 hneg]
  have hn : (0 : ℚ) ≤ n.toNat := Nat.cast_nonneg _
  have hx : 0 ≤ n.toNat * c := mul_nonneg hn hcpos
  rcases hx.eq_or_lt with hzero | hpos
  · -- nothing to round: the whole part is zero as well
    have hkzero : (k : ℚ) < 1 := by
      have hprod : n.toNat * ((percent : ℚ) / 100 - c) ≤ n.toNat * (c / 2 ^ 54) :=
        mul_le_mul_of_nonneg_left hnear hn
      have : (n.toNat : ℚ) * (c / 2 ^ 54) = 0 := by rw [← mul_div_assoc, ← hzero, zero_div]
      linarith [hexact.1]
    have hkz : k = 0 := by
      have : k < 1 := by exact_mod_cast hkzero
      omega
    rw [← hzero, nearest_zero, hkz]
    rfl
  · have hsmall : n.toNat * c < 2 ^ 32 := by
      have hlt : (n.toNat : ℚ) < 2 ^ 32 := by exact_mod_cast n.toNat_lt
      have hcone : c < 1 := hle.trans_lt (by
        rw [div_lt_one (by norm_num)]
        exact_mod_cast hpercent)
      calc n.toNat * c ≤ n.toNat * 1 := mul_le_mul_of_nonneg_left hcone.le hn
        _ < 2 ^ 32 := by rwa [mul_one]
    have hplace : lastPlace (n.toNat * c) ≤ -21 := by
      have := lastPlace_le_of_lt (k := 32) hpos hsmall
      omega
    have hlow : ((k : ℤ) : ℚ) ≤ nearest (n.toNat * c) := by
      refine le_nearest hx (by omega) ?_
      have hprod : n.toNat * ((percent : ℚ) / 100 - c) ≤ n.toNat * (c / 2 ^ 54) :=
        mul_le_mul_of_nonneg_left hnear hn
      rw [mul_div_assoc]
      push_cast
      linarith [hexact.1]
    have hhigh : nearest (n.toNat * c) < (k : ℤ) + 1 := by
      have hulp : (2 : ℚ) ^ lastPlace (n.toNat * c) < 1 / 100 :=
        (zpow_le_zpow_right₀ (by norm_num) hplace).trans_lt (by norm_num)
      have hround := nearest_le (n.toNat * c)
      have hprod : n.toNat * c ≤ n.toNat * ((percent : ℚ) / 100) :=
        mul_le_mul_of_nonneg_left hle hn
      push_cast
      linarith [hexact.2]
    have hfloor : ⌊nearest (n.toNat * c)⌋ = k := Int.floor_eq_iff.2 ⟨hlow, hhigh⟩
    have hnonneg : 0 ≤ nearest (n.toNat * c) := le_trans (by positivity) hlow
    rw [truncate_of_nonneg hnonneg, hfloor, Int.toNat_natCast]

theorem percentileIndex_p95 (n : UInt32) :
    percentileIndex (95 / 100) n = 95 * n.toNat / 100 := by
  exact_mod_cast percentileIndex_eq 95 (n := n) (by decide +kernel)
    (by decide +kernel) (by norm_num)

theorem percentileIndex_p99 (n : UInt32) :
    percentileIndex (99 / 100) n = 99 * n.toNat / 100 := by
  exact_mod_cast percentileIndex_eq 99 (n := n) (by decide +kernel)
    (by decide +kernel) (by norm_num)

/-! ## Means and percentiles -/

theorem toNat_ofNat_length {completedTasks : List Task} (hsize : completedTasks.length < 2 ^ 32) :
    (UInt32.ofNat completedTasks.length).toNat = completedTasks.length :=
  UInt32.toNat_ofNat_of_lt' hsize

end Metrics

/-- The task started after it arrived, waited at least until then, and the time it spent in
the system covers its waiting. -/
structure Task.TimesOrdered (t : Task) : Prop where
  response : 0 ≤ t.responseTime
  wait : t.responseTime ≤ t.waitTime
  turnaround : t.waitTime ≤ t.turnaroundTime

namespace Metrics

open Binary64 Statistics

/-- The means are in order, and the percentiles are percentiles of the response times. -/
structure Consistent (metrics : Metrics) (completedTasks : List Task) : Prop where
  meanResponse : 0 ≤ metrics.meanResponseTime
  meanWait : metrics.meanResponseTime ≤ metrics.meanWaitTime
  meanTurnaround : metrics.meanWaitTime ≤ metrics.meanTurnaroundTime
  indexP95 : percentileIndex (95 / 100) metrics.numCompleted < completedTasks.length
  indexP99 : percentileIndex (99 / 100) metrics.numCompleted < completedTasks.length
  percentiles : metrics.p95ResponseTime ≤ metrics.p99ResponseTime
  coverP95 : (95 / 100 : ℚ) * completedTasks.length
    ≤ completedTasks.countP (·.responseTime ≤ metrics.p95ResponseTime)
  coverP99 : (99 / 100 : ℚ) * completedTasks.length
    ≤ completedTasks.countP (·.responseTime ≤ metrics.p99ResponseTime)

section Calculate

variable {metrics : Metrics} {completedTasks : List Task} {totalTime : ℚ} {numCores : UInt32}

theorem length_sortedResponseTimes :
    (sortedResponseTimes completedTasks).length = completedTasks.length := by
  rw [sortedResponseTimes, List.length_mergeSort, List.length_map]

theorem pairwise_sortedResponseTimes : (sortedResponseTimes completedTasks).Pairwise (· ≤ ·) :=
  pairwise_mergeSort_le id (completedTasks.map Task.responseTime)

/-- Sorting does not change how many response times are small. -/
theorem countP_sortedResponseTimes (x : ℚ) :
    (sortedResponseTimes completedTasks).countP (· ≤ x)
      = completedTasks.countP (·.responseTime ≤ x) := by
  rw [sortedResponseTimes, (List.mergeSort_perm _ _).countP_eq, List.countP_map]
  rfl

/-- The entry of the sorted response times at index `percent * n / 100` is at least the
response time of so many percent of the tasks. -/
theorem percent_le_countP (percent : ℕ) (hpercent : percent < 100) (hne : completedTasks ≠ []) :
    percent * completedTasks.length / 100 < completedTasks.length ∧
      (percent / 100 : ℚ) * completedTasks.length ≤ completedTasks.countP
        (·.responseTime ≤ (sortedResponseTimes completedTasks).getD
          (percent * completedTasks.length / 100) 0) := by
  have hlen : 0 < completedTasks.length := List.length_pos_iff.2 hne
  have hindex : percent * completedTasks.length / 100 < completedTasks.length := by
    rw [Nat.div_lt_iff_lt_mul (by norm_num)]
    nlinarith
  refine ⟨hindex, ?_⟩
  have hk : percent * completedTasks.length / 100
      < (sortedResponseTimes completedTasks).length := by
    rwa [length_sortedResponseTimes]
  have hcount := lt_countP_getElem pairwise_sortedResponseTimes hk
  rw [List.getD_eq_getElem _ _ hk, ← countP_sortedResponseTimes]
  have hdiv := Nat.lt_div_mul_add (a := percent * completedTasks.length) (b := 100) (by norm_num)
  have hle : (percent : ℚ) * completedTasks.length
      ≤ 100 * ((sortedResponseTimes completedTasks).countP
        (· ≤ (sortedResponseTimes completedTasks)[percent * completedTasks.length / 100])) := by
    exact_mod_cast (by omega)
  linarith

theorem sum_map_le_sum_map {f g : Task → ℚ} (h : ∀ t ∈ completedTasks, f t ≤ g t) :
    (completedTasks.map f).sum / completedTasks.length
      ≤ (completedTasks.map g).sum / completedTasks.length :=
  div_le_div_of_nonneg_right (List.sum_le_sum h) (Nat.cast_nonneg _)

/-- Ordered times give ordered means, and the percentiles cover what they claim to. -/
theorem consistent_calculate (hne : completedTasks ≠ []) (hsize : completedTasks.length < 2 ^ 32)
    (htimes : ∀ t ∈ completedTasks, t.TimesOrdered) :
    (metrics.calculate completedTasks totalTime numCores).Consistent completedTasks := by
  have hcount := toNat_ofNat_length hsize
  obtain ⟨hp95, hcover95⟩ := percent_le_countP 95 (by norm_num) hne
  obtain ⟨hp99, hcover99⟩ := percent_le_countP 99 (by norm_num) hne
  have hcalc : (metrics.calculate completedTasks totalTime numCores).numCompleted
      = UInt32.ofNat completedTasks.length := by
    rw [calculate, if_neg (by simpa using hne)]
  have hfields : (metrics.calculate completedTasks totalTime numCores).p95ResponseTime
        = (sortedResponseTimes completedTasks).getD (95 * completedTasks.length / 100) 0 ∧
      (metrics.calculate completedTasks totalTime numCores).p99ResponseTime
        = (sortedResponseTimes completedTasks).getD (99 * completedTasks.length / 100) 0 := by
    rw [calculate, if_neg (by simpa using hne)]
    dsimp only
    rw [percentileIndex_p95, percentileIndex_p99, hcount]
    exact ⟨rfl, rfl⟩
  refine ⟨?_, ?_, ?_, ?_, ?_, ?_, ?_, ?_⟩
  · rw [calculate, if_neg (by simpa using hne)]
    dsimp only
    refine div_nonneg (List.sum_nonneg fun x hx => ?_) (Nat.cast_nonneg _)
    obtain ⟨t, ht, rfl⟩ := List.mem_map.1 hx
    exact (htimes t ht).response
  · rw [calculate, if_neg (by simpa using hne)]
    dsimp only
    rw [hcount]
    exact sum_map_le_sum_map fun t ht => (htimes t ht).wait
  · rw [calculate, if_neg (by simpa using hne)]
    dsimp only
    rw [hcount]
    exact sum_map_le_sum_map fun t ht => (htimes t ht).turnaround
  · rwa [hcalc, percentileIndex_p95, hcount]
  · rwa [hcalc, percentileIndex_p99, hcount]
  · have hlen : (sortedResponseTimes completedTasks).length = completedTasks.length :=
      length_sortedResponseTimes
    rw [hfields.1, hfields.2, List.getD_eq_getElem _ _ (by rwa [hlen]),
      List.getD_eq_getElem _ _ (by rwa [hlen])]
    exact getElem_le_getElem pairwise_sortedResponseTimes (by omega) _
  · rw [hfields.1]
    exact_mod_cast hcover95
  · rw [hfields.2]
    exact_mod_cast hcover99

/-! ## Utilization -/

theorem utilization_calculate (hne : completedTasks ≠ []) (hpos : 0 < totalTime) :
    (metrics.calculate completedTasks totalTime numCores).utilization
      = (completedTasks.map Task.executionTime).sum / (totalTime * (max 1 numCores).toNat) := by
  rw [calculate, if_neg (by simpa using hne)]
  exact if_pos hpos

/-! ## Jain's index -/

theorem fairnessTerms_eq (hsize : completedTasks.length < 2 ^ 32) :
    fairnessTerms completedTasks = completedTasks.map normalizedThroughput := by
  rw [fairnessTerms, toNat_ofNat_length hsize, List.take_length]

/-- If every task had work to do and time passed before it was completed, the index is a
quotient by a positive number, between one over the number of tasks and one. -/
theorem fair_calculate (hne : completedTasks ≠ []) (hsize : completedTasks.length < 2 ^ 32)
    (hexec : ∀ t ∈ completedTasks, 0 < t.executionTime)
    (htime : ∀ t ∈ completedTasks, 0 < t.turnaroundTime) :
    fairnessDenominator completedTasks ≠ 0 ∧
      1 / (completedTasks.length : ℚ)
        ≤ (metrics.calculate completedTasks totalTime numCores).jainsFairness ∧
      (metrics.calculate completedTasks totalTime numCores).jainsFairness ≤ 1 := by
  have hne' : fairnessTerms completedTasks ≠ [] := by
    rw [fairnessTerms_eq hsize]
    simpa using hne
  have hpos : ∀ x ∈ fairnessTerms completedTasks, 0 < x := by
    rw [fairnessTerms_eq hsize]
    intro x hx
    obtain ⟨t, ht, rfl⟩ := List.mem_map.1 hx
    exact div_pos (hexec t ht) (htime t ht)
  have hlen : (fairnessTerms completedTasks).length = completedTasks.length := by
    rw [fairnessTerms_eq hsize, List.length_map]
  have hden : fairnessDenominator completedTasks = (fairnessTerms completedTasks).length
      * ((fairnessTerms completedTasks).map fun x => x * x).sum := by
    rw [fairnessDenominator, toNat_ofNat_length hsize, hlen]
  have hindex : (metrics.calculate completedTasks totalTime numCores).jainsFairness
      = jainIndex (fairnessTerms completedTasks) := by
    rw [calculate, if_neg (by simpa using hne)]
    dsimp only
    rw [hden, jainIndex]
  have hsome : ∃ x ∈ fairnessTerms completedTasks, x ≠ 0 := by
    obtain ⟨x, hx⟩ := List.exists_mem_of_ne_nil _ hne'
    exact ⟨x, hx, (hpos x hx).ne'⟩
  rw [hindex, hden, ← hlen]
  exact ⟨(length_mul_sum_pos hsome).ne',
    one_div_length_le_jainIndex (fun x hx => (hpos x hx).le) hsome, jainIndex_le_one hsome⟩

end Calculate

end Metrics

end SchedSim
