import SchedSim.Schedulers.CFS
import Mathlib.Algebra.BigOperators.Ring.List

/-!
# How CFS divides its period

A scheduling period is to be divided by weight among the ready tasks.  `calc_time_slice` starts
its sum of the weights with the weight of the picked task and then adds the weights of the ready
queue, in which this task still is when `dispatch_next` calls `schedule`.  So it is counted twice.

* `CFSScheduler.DividesPeriod` — the slices are the shares of the period, floored.
* `CFSScheduler.slicesDividePeriod` — they never are; a slice is right only where the floor hides
  its share.
-/

namespace SchedSim

/-- Every task has a weight. -/
theorem Task.weight_new_pos (a : TaskArgs) : 0 < (Task.new a).weight.toNat := by
  have htable : ∀ i < 40, 0 < (niceToWeight.getD i 0).toNat := by decide
  refine htable _ ?_
  have hle : max 0 (min (a.nice + 20) 39) ≤ 39 := by omega
  omega

namespace CFSScheduler

/-- The scheduling period: the latency, stretched when more tasks are ready than fit into it -/
def period (s : CFSScheduler) : ℚ :=
  if (s.readyQueue.length : ℤ) ≤ ⌊s.params.schedLatency / s.params.minGranularity⌋ then
    s.params.schedLatency
  else s.readyQueue.length * s.params.minGranularity

/-- The weights of the ready tasks, each counted once -/
def readyWeight (s : CFSScheduler) (h : Heap) : ℚ :=
  (s.readyQueue.map fun p => ((h p).weight.toNat : ℚ)).sum

/-- The part of the period a ready task should get -/
def share (s : CFSScheduler) (h : Heap) (p : TaskPtr) : ℚ :=
  s.period * (h p).weight.toNat / s.readyWeight h

/-- The variable `slice` of `calc_time_slice`, before it is floored -/
def unflooredSlice (s : CFSScheduler) (h : Heap) (p : TaskPtr) : ℚ :=
  s.period * (h p).weight.toNat / ((h p).weight.toNat + s.readyWeight h)

/-- The slices divide the period by weight. -/
structure DividesPeriod (s : CFSScheduler) (h : Heap) : Prop where
  slice : ∀ p x, s.schedule h = ⟨some p, x⟩ → x = max (s.share h p) s.params.minGranularity
  equalWeights : ∀ p x, s.schedule h = ⟨some p, x⟩ →
    (∀ q ∈ s.readyQueue, (h q).weight = (h p).weight) →
    x = max (s.period / s.readyQueue.length) s.params.minGranularity
  sum : (s.readyQueue.map (s.unflooredSlice h)).sum = s.period

variable {s : CFSScheduler} {h : Heap} {p : TaskPtr} {x : ℚ}

/-- The slice `schedule` grants. -/
theorem timeSlice_of_schedule (hs : s.schedule h = ⟨some p, x⟩) :
    p ∈ s.readyQueue ∧ x = max (s.unflooredSlice h p) s.params.minGranularity := by
  have htask : minElement (cfsComparator h) s.readyQueue = some p := by
    rw [← schedule_task, hs]
  have hmem := minElement_mem htask
  refine ⟨hmem, ?_⟩
  unfold schedule at hs
  rw [htask] at hs
  rw [← (ScheduleDecision.mk.inj hs).2, calcTimeSlice]
  have hpos : 0 < s.readyQueue.length := List.length_pos_of_mem hmem
  rw [if_neg hpos.ne']
  -- for the number of ready tasks rounding towards zero is rounding down
  have hround : (truncate (s.params.schedLatency / s.params.minGranularity)
      < (s.readyQueue.length : ℤ)) ↔
      ¬ (s.readyQueue.length : ℤ) ≤ ⌊s.params.schedLatency / s.params.minGranularity⌋ := by
    rw [not_le]
    rcases le_total 0 (s.params.schedLatency / s.params.minGranularity) with hnn | hneg
    · rw [truncate_of_nonneg hnn]
    · have htrunc : (truncate (s.params.schedLatency / s.params.minGranularity)).toNat ≤ 0 :=
        truncate_toNat_le (by exact_mod_cast hneg)
      have hfloor : ⌊s.params.schedLatency / s.params.minGranularity⌋ ≤ 0 :=
        Int.floor_le_iff.2 (by push_cast; linarith)
      exact ⟨fun _ => by omega, fun _ => by omega⟩
  rw [unflooredSlice, period, readyWeight]
  by_cases hfits : (s.readyQueue.length : ℤ) ≤
      ⌊s.params.schedLatency / s.params.minGranularity⌋
  · rw [if_neg fun hlt => hround.1 hlt hfits, if_pos hfits]
  · rw [if_pos (hround.2 hfits), if_neg hfits]

theorem period_pos (hne : s.readyQueue ≠ []) (hmin : 0 < s.params.minGranularity) :
    0 < s.period := by
  have hlength : 0 < s.readyQueue.length := List.length_pos_of_ne_nil hne
  rw [period]
  split
  next hfits =>
    have hone : (1 : ℤ) ≤ ⌊s.params.schedLatency / s.params.minGranularity⌋ := by omega
    have hquot : (1 : ℚ) ≤ s.params.schedLatency / s.params.minGranularity := by
      exact_mod_cast Int.le_floor.1 hone
    rw [le_div_iff₀ hmin] at hquot
    linarith
  next =>
    have : (0 : ℚ) < s.readyQueue.length := by exact_mod_cast hlength
    positivity

section Weights

variable (hweight : ∀ q ∈ s.readyQueue, ∃ a, (h q).weight = (Task.new a).weight)

include hweight

theorem weight_pos (hp : p ∈ s.readyQueue) : (0 : ℚ) < (h p).weight.toNat := by
  obtain ⟨a, ha⟩ := hweight p hp
  rw [ha]
  exact_mod_cast Task.weight_new_pos a

theorem readyWeight_pos (hne : s.readyQueue ≠ []) : 0 < s.readyWeight h := by
  have hlt := List.sum_lt_sum_of_ne_nil hne (fun _ => (0 : ℚ))
    (fun q => ((h q).weight.toNat : ℚ)) fun q hq => weight_pos hweight hq
  simpa [readyWeight] using hlt

/-- Counting the weight of a task twice makes its slice too short. -/
theorem unflooredSlice_lt_share (hmin : 0 < s.params.minGranularity) (hp : p ∈ s.readyQueue) :
    s.unflooredSlice h p < s.share h p := by
  have hne : s.readyQueue ≠ [] := List.ne_nil_of_mem hp
  have hperiod := period_pos hne hmin
  have hw := weight_pos hweight hp
  have htotal := readyWeight_pos hweight hne
  rw [unflooredSlice, share]
  exact div_lt_div_of_pos_left (mul_pos hperiod hw) htotal (by linarith)

/-- The shares add up to the period. -/
theorem sum_share (hne : s.readyQueue ≠ []) :
    (s.readyQueue.map (s.share h)).sum = s.period := by
  have htotal := (readyWeight_pos hweight hne).ne'
  have hshare : s.share h = fun p => ((h p).weight.toNat : ℚ) * (s.period / s.readyWeight h) := by
    funext p
    rw [share]
    ring
  rw [hshare, List.sum_map_mul_right]
  change s.readyWeight h * _ = _
  field_simp

end Weights

/-- **CFS does not divide its period by weight**: the unfloored slices of the ready tasks add up
to less than the period, and a slice is the floored share exactly when the share is not above the
minimum granularity, which is what is granted then. -/
theorem slicesDividePeriod (s : CFSScheduler) (h : Heap) (hne : s.readyQueue ≠ [])
    (hmin : 0 < s.params.minGranularity)
    (hweight : ∀ q ∈ s.readyQueue, ∃ a, (h q).weight = (Task.new a).weight) :
    ¬ s.DividesPeriod h ∧ (s.readyQueue.map (s.unflooredSlice h)).sum < s.period ∧
    ∀ p x, s.schedule h = ⟨some p, x⟩ →
      (x = max (s.share h p) s.params.minGranularity ↔
        s.share h p ≤ s.params.minGranularity) := by
  have hlt : (s.readyQueue.map (s.unflooredSlice h)).sum < s.period := by
    rw [← sum_share hweight hne]
    exact List.sum_lt_sum_of_ne_nil hne _ _ fun p hp => unflooredSlice_lt_share hweight hmin hp
  refine ⟨fun hdivides => hlt.ne hdivides.sum, hlt, fun p x hs => ?_⟩
  obtain ⟨hp, rfl⟩ := timeSlice_of_schedule hs
  have hshort := unflooredSlice_lt_share hweight hmin hp
  constructor
  · intro heq
    by_contra hbig
    rw [not_le] at hbig
    rw [max_eq_left hbig.le] at heq
    have := max_lt hshort hbig
    linarith
  · intro hsmall
    rw [max_eq_right hsmall, max_eq_right (hshort.le.trans hsmall)]

/-- Three tasks of nice -5, 0 and 5, of which the first is picked: its share of the period is
above the minimum granularity, so its slice is not that. -/
theorem slicesDividePeriod_three :
    let s : CFSScheduler := ⟨{}, [0, 1, 2], 0⟩
    let h : Heap := fun p => Task.new ⟨0, 0, 100, 5 * (p - 1)⟩
    ¬ s.DividesPeriod h ∧ (s.readyQueue.map (s.unflooredSlice h)).sum < s.period ∧
      (s.schedule h).task = some 0 ∧
      (s.schedule h).timeSlice ≠ max (s.share h 0) s.params.minGranularity := by
  intro s h
  obtain ⟨hnot, hlt, hslice⟩ := slicesDividePeriod s h (by decide) (by decide)
    fun p _ => ⟨⟨0, 0, 100, 5 * (p - 1)⟩, rfl⟩
  have hbig : ¬ s.share h 0 ≤ s.params.minGranularity := by decide +kernel
  have htask : (s.schedule h).task = some 0 := by decide +kernel
  have hpick : s.schedule h = ⟨some 0, (s.schedule h).timeSlice⟩ := by rw [← htask]
  exact ⟨hnot, hlt, htask, fun heq => hbig ((hslice 0 _ hpick).1 heq)⟩

/-- **A task on its own gets half of the period**: 12 of 24 milliseconds. -/
theorem slicesDividePeriod_false :
    ¬ ∀ (s : CFSScheduler) (h : Heap), s.readyQueue ≠ [] →
      (∀ q ∈ s.readyQueue, ∃ a, (h q).weight = (Task.new a).weight) → ∀ p x,
      s.schedule h = ⟨some p, x⟩ → x = max (s.share h p) s.params.minGranularity := by
  intro hall
  have hslice := hall ⟨{}, [0], 0⟩ (fun _ => Task.new ⟨0, 0, 100, 0⟩) (by decide)
    (fun _ _ => ⟨_, rfl⟩) 0 12 (by decide +kernel)
  exact absurd hslice (by decide +kernel)

end CFSScheduler

end SchedSim
