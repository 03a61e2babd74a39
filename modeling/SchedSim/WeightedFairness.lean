import SchedSim.Fairness
import SchedSim.Schedulers.CFS
import SchedSim.Schedulers.EEVDF

/-!
# Weighted fairness of CFS and EEVDF

Both policies are virtual clocks: the virtual runtime of a task grows by its CPU
time times `1024 / weight`.  So two tasks that arrive together share a core in
proportion to their weights, up to a slice of each and up to what the clamps of
`add_task` gave them without CPU time.

* `CFSScheduler.clock`, `EEVDFScheduler.clock` — the two policies as clocks.
* `CFSScheduler.weightedFairness`, `EEVDFScheduler.requestFairness` — the bounds.
-/

namespace SchedSim

/-- The virtual runtime a task is charged for a millisecond of CPU time. -/
def virtualRate (t : Task) : ℚ := nice0Load / t.weight.toNat

theorem virtualRate_nonneg (t : Task) : 0 ≤ virtualRate t :=
  div_nonneg (by norm_num [nice0Load]) (Nat.cast_nonneg _)

theorem virtualRate_congr (t u : Task) (h : t.fixed = u.fixed) : virtualRate t = virtualRate u := by
  have hw : t.weight = u.weight := congrArg Prod.snd h
  rw [virtualRate, hw, virtualRate]

namespace CFSScheduler

/-- The comparator may err about virtual runtimes by the tolerance. -/
theorem vruntime_le_of_cfsComparator {h : Heap} {a b : TaskPtr} :
    (cfsComparator h a b = true → (h a).vruntime ≤ (h b).vruntime + tolerance) ∧
      (cfsComparator h a b = false → (h b).vruntime ≤ (h a).vruntime + tolerance) := by
  have htol : (0 : ℚ) ≤ tolerance := by norm_num [tolerance]
  rw [cfsComparator]
  split
  next hfar =>
    simp only [decide_eq_true_eq, decide_eq_false_iff_not, not_lt]
    constructor
    · intro hlt
      linarith
    · intro hle
      linarith
  next hnear =>
    obtain ⟨hlow, hhigh⟩ := abs_le.1 (not_lt.1 hnear)
    constructor
    · intro _
      linarith
    · intro _
      linarith

/-- The minimum stays where it is while a task is waiting that is not past it. -/
theorem updateMinVruntime_eq {s : CFSScheduler} {h : Heap} {q : TaskPtr} (hq : q ∈ s.readyQueue)
    (hle : (h q).vruntime ≤ s.minVruntime) :
    (s.updateMinVruntime h).minVruntime = s.minVruntime := by
  rw [updateMinVruntime]
  split
  next => rfl
  next newMin hmin =>
    have hnew : newMin ≤ (h q).vruntime :=
      (List.min?_eq_some_iff.1 hmin).2 _ (List.mem_map_of_mem hq)
    exact max_eq_left (hnew.trans hle)

/-- CFS as a virtual clock, for up to `n` tasks. -/
def clock (params : CFSParams) (n : ℕ) : VirtualClock CFSScheduler where
  vtime t := t.vruntime
  rate := virtualRate
  slack _ _ := (n - 1 : ℕ) * tolerance
  clamp s t := s.minVruntime - s.params.schedLatency * nice0Load / t.weight.toNat
  capacity := n
  Good s := s.params = params
  Settled _ := True
  vtime_policy _ := rfl
  rate_congr := virtualRate_congr
  slack_congr _ _ _ _ _ _ := rfl
  clamp_congr s t u h := by
    have hw : t.weight = u.weight := congrArg Prod.snd h
    rw [hw]
  settled_congr _ _ _ _ _ := trivial
  rate_nonneg := virtualRate_nonneg
  slack_nonneg _ _ := mul_nonneg (Nat.cast_nonneg _) (by norm_num [tolerance])
  good_addTask _ _ _ hs := hs
  good_removeTask _ _ _ hs := hs
  good_onCpuUsed s _ _ _ hs := (updateMinVruntime_params s _).trans hs
  addTask_of_ne s h p q hq := by
    change (CFSScheduler.addTask s h p).2 q = h q
    rw [CFSScheduler.addTask]
    simp only [Heap.modify_of_ne hq]
  vtime_addTask s h p _ hstart := by
    show (h.modify p _ p).vruntime = _
    rw [Heap.modify_self]
    exact if_neg (not_lt.2 hstart)
  settled_addTask _ _ _ _ _ := trivial
  onCpuUsed_of_ne s h p x q hq := by
    change (CFSScheduler.onCpuUsed s h p x).2 q = h q
    rw [CFSScheduler.onCpuUsed]
    simp only [Heap.modify_of_ne hq]
  vtime_onCpuUsed s h p x _ _ := by
    show (h.modify p _ p).vruntime = _
    rw [Heap.modify_self]
    show (h p).vruntime + x * nice0Load / _ = _
    rw [virtualRate]
    ring
  settled_onCpuUsed _ _ _ _ _ _ := trivial
  pick_le s h p x _ _ hlen hs q hq := by
    have hmin : minElement (cfsComparator h) s.readyQueue = some p := by
      rw [← schedule_task]
      exact congrArg ScheduleDecision.task hs
    have htol : (0 : ℚ) ≤ tolerance := by norm_num [tolerance]
    have hle := minElement_le_add (f := fun p => (h p).vruntime) htol
      (fun _ _ => vruntime_le_of_cfsComparator.1) (fun _ _ => vruntime_le_of_cfsComparator.2)
      hmin q hq
    have hpos : 1 ≤ s.readyQueue.length := List.length_pos_of_mem hq
    have hcast : ((s.readyQueue.length : ℚ) - 1) ≤ (n - 1 : ℕ) := by
      have hnat : s.readyQueue.length - 1 ≤ n - 1 := Nat.sub_le_sub_right hlen 1
      have := Nat.cast_le (α := ℚ).2 hnat
      rwa [Nat.cast_sub hpos, Nat.cast_one] at this
    exact hle.trans (add_le_add_right (mul_le_mul_of_nonneg_right hcast htol) _)

/-- New tasks start at the minimum. -/
def floor (params : CFSParams) (hlatency : 0 ≤ params.schedLatency) (n : ℕ) :
    (clock params n).Floor where
  floor s := s.minVruntime
  vtime_new s h p _ hstart := by
    show (h.modify p _ p).vruntime = _
    rw [Heap.modify_self]
    exact if_pos hstart
  clamp_le s t hs := by
    have hlat : 0 ≤ s.params.schedLatency := by
      rw [show s.params = params from hs]
      exact hlatency
    have := div_nonneg (mul_nonneg hlat (by norm_num [nice0Load] : 0 ≤ nice0Load))
      (Nat.cast_nonneg (α := ℚ) t.weight.toNat)
    show s.minVruntime - _ ≤ s.minVruntime
    linarith
  floor_addTask _ _ _ := rfl
  floor_removeTask _ _ _ := rfl
  floor_onCpuUsed s h p q x _ hq hne hle := by
    refine updateMinVruntime_eq hq ?_
    rw [Heap.modify_of_ne hne]
    exact hle

end CFSScheduler

namespace EEVDFScheduler

theorem virtualRate_mul_baseSlice (s : EEVDFScheduler) (t : Task) :
    s.calcRequest t = s.params.baseSlice * virtualRate t := by
  rw [calcRequest, virtualRate, mul_div_assoc]

theorem addTask_self (s : EEVDFScheduler) (h : Heap) (p : TaskPtr) :
    (s.addTask h p).2 p =
      { h p with
        eligibleTime := if (h p).startTime < 0 then s.virtualTime
          else max (h p).eligibleTime s.virtualTime
        vruntime := if (h p).startTime < 0 then s.virtualTime
          else max (h p).vruntime s.virtualTime
        deadline := (if (h p).startTime < 0 then s.virtualTime
          else max (h p).eligibleTime s.virtualTime) + s.calcRequest (h p) } := by
  rw [addTask]
  simp only [Heap.modify_self]

theorem onCpuUsed_self (s : EEVDFScheduler) (h : Heap) (p : TaskPtr) (x : ℚ) :
    (s.onCpuUsed h p x).2 p =
      { h p with
        vruntime := (h p).vruntime + x * nice0Load / (h p).weight.toNat
        eligibleTime := (h p).vruntime + x * nice0Load / (h p).weight.toNat
        deadline := (h p).vruntime + x * nice0Load / (h p).weight.toNat
          + (s.advanceVirtualTime h x).calcRequest (h p) } := by
  rw [onCpuUsed]
  simp only [Heap.modify_self]

/-- EEVDF as a virtual clock: a task may be picked before another one with an
earlier virtual runtime when its request is shorter. -/
def clock (params : EEVDFParams) (n : ℕ) : VirtualClock EEVDFScheduler where
  vtime t := t.vruntime
  rate := virtualRate
  slack t u := max 0 (params.baseSlice * virtualRate u - params.baseSlice * virtualRate t)
  clamp s _ := s.virtualTime
  capacity := n
  Good s := s.params = params
  Settled t := t.eligibleTime = t.vruntime ∧
    t.deadline = t.vruntime + params.baseSlice * virtualRate t
  vtime_policy _ := rfl
  rate_congr := virtualRate_congr
  slack_congr t t' u u' ht hu := by
    rw [virtualRate_congr t t' ht, virtualRate_congr u u' hu]
  clamp_congr _ _ _ _ := rfl
  settled_congr t u hp hf ht := by
    have hv : t.policy.vruntime = u.policy.vruntime := by rw [hp]
    have he : t.policy.eligibleTime = u.policy.eligibleTime := by rw [hp]
    have hd : t.policy.deadline = u.policy.deadline := by rw [hp]
    change t.vruntime = u.vruntime at hv
    change t.eligibleTime = u.eligibleTime at he
    change t.deadline = u.deadline at hd
    rwa [← hv, ← he, ← hd, ← virtualRate_congr t u hf]
  rate_nonneg := virtualRate_nonneg
  slack_nonneg _ _ := le_max_left _ _
  good_addTask _ _ _ hs := hs
  good_removeTask _ _ _ hs := hs
  good_onCpuUsed _ _ _ _ hs := hs
  addTask_of_ne s h p q hq := by
    change (EEVDFScheduler.addTask s h p).2 q = h q
    rw [EEVDFScheduler.addTask]
    simp only [Heap.modify_of_ne hq]
  vtime_addTask s h p _ hstart := by
    show (h.modify p _ p).vruntime = _
    rw [Heap.modify_self]
    exact if_neg (not_lt.2 hstart)
  settled_addTask s h p hs hp := by
    have hself : (SchedSim.addTask s h p).2 p = _ := addTask_self s h p
    rw [hself]
    have heq : (if (h p).startTime < 0 then s.virtualTime else max (h p).eligibleTime s.virtualTime)
        = if (h p).startTime < 0 then s.virtualTime else max (h p).vruntime s.virtualTime := by
      split
      next => rfl
      next hstart => rw [(hp.resolve_left hstart).1]
    refine ⟨heq, ?_⟩
    show _ + s.calcRequest (h p) = _ + params.baseSlice * virtualRate (h p)
    rw [virtualRate_mul_baseSlice, show s.params = params from hs]
    exact congrArg (· + _) heq
  onCpuUsed_of_ne s h p x q hq := by
    change (EEVDFScheduler.onCpuUsed s h p x).2 q = h q
    rw [EEVDFScheduler.onCpuUsed]
    simp only [Heap.modify_of_ne hq]
  vtime_onCpuUsed s h p x _ _ := by
    show (h.modify p _ p).vruntime = _
    rw [Heap.modify_self]
    show (h p).vruntime + x * nice0Load / _ = _
    rw [virtualRate]
    ring
  settled_onCpuUsed s h p x hs _ := by
    have hself : (SchedSim.onCpuUsed s h p x).2 p = _ := onCpuUsed_self s h p x
    rw [hself]
    refine ⟨rfl, ?_⟩
    show _ + (s.advanceVirtualTime h x).calcRequest (h p) = _ + params.baseSlice * virtualRate (h p)
    rw [virtualRate_mul_baseSlice]
    show _ + s.params.baseSlice * _ = _
    rw [show s.params = params from hs]
  pick_le s h p x hs hsettled _ hpick q hq := by
    have hp : s.pick h = some p := by
      rw [← schedule_task]
      exact congrArg ScheduleDecision.task hpick
    obtain ⟨hmem, hcases⟩ := pick_spec hp
    obtain ⟨hpe, hpd⟩ := hsettled p hmem
    obtain ⟨hqe, hqd⟩ := hsettled q hq
    have hslack : 0 ≤ max 0 (params.baseSlice * virtualRate (h q)
      - params.baseSlice * virtualRate (h p)) := le_max_left _ _
    show (h p).vruntime ≤ (h q).vruntime + _
    rcases hcases with ⟨helig, hearliest⟩ | ⟨-, hfirst⟩
    · cases hqelig : s.isEligible (h q) with
      | true =>
        have hdeadline := hearliest q hq hqelig
        have := le_max_right 0 (params.baseSlice * virtualRate (h q)
          - params.baseSlice * virtualRate (h p))
        linarith
      | false =>
        simp only [isEligible, decide_eq_true_eq, decide_eq_false_iff_not, not_le] at helig hqelig
        linarith
    · have := hfirst q hq
      linarith

/-- The slice a dispatch takes from `calc_time_slice`; the default when that is
not positive. -/
def sliceOf (params : EEVDFParams) (cfg : SimConfig) (t : Task) : ℚ :=
  if 0 < (new params).calcTimeSlice t then (new params).calcTimeSlice t else cfg.defaultTimeSlice

theorem sliceOf_nonneg (params : EEVDFParams) (cfg : SimConfig) (t : Task) :
    0 ≤ sliceOf params cfg t := by
  rw [sliceOf]
  split
  next h => exact h.le
  next => exact cfg.defaultTimeSlice_pos.le

theorem calcTimeSlice_congr {s s' : EEVDFScheduler} {t u : Task} (hs : s.params = s'.params)
    (h : t.fixed = u.fixed) : s.calcTimeSlice t = s'.calcTimeSlice u := by
  have hw : t.weight = u.weight := congrArg Prod.snd h
  rw [calcTimeSlice, hs, hw, calcTimeSlice]

/-- No dispatch grants more than that. -/
theorem lastGrant_le_slice {params : EEVDFParams} {cfg : SimConfig} {w : Workload}
    {m : Simulator EEVDFScheduler 1} (hvalid : w.Valid)
    (h : Lts.Reachable (Simulator.Step cfg) (Simulator.init (new params) w) m) (p : TaskPtr) :
    m.lastGrant p ≤ sliceOf params cfg (w.heap p) := by
  have hgood : (clock params 0).Good (new params) := rfl
  refine Machine.lastGrant_le_of_reachable (V := clock params 0)
    (b := fun p => sliceOf params cfg (w.heap p)) hgood rfl hvalid
    (fun p => sliceOf_nonneg params cfg _) ?_ 
    (h.simulate (f := id) fun _ _ _ => Simulator.step_machine) p
  intro m p x hm hs
  have hx : x = (m.schedulers ()).calcTimeSlice (m.heap p) := by
    change (m.schedulers ()).schedule m.heap = _ at hs
    unfold schedule at hs
    split at hs
    · cases hs
    · cases hs
      rfl
  have heq : (m.schedulers ()).calcTimeSlice (m.heap p) = (new params).calcTimeSlice (w.heap p) :=
    calcTimeSlice_congr hm.clocked.good (hm.fixed p)
  rw [hx, heq]
  exact min_le_left _ _

end EEVDFScheduler

/-! ## The bounds -/

section Bounds

variable {σ : Type} (w : Workload) (i j : TaskPtr) (a s t : Simulator σ 1) (time time' : ℚ)

/-- How far the weighted CPU times of two tasks in an interval differ. -/
def serviceGap : ℚ :=
  |virtualRate (w.heap i) * (t.cpuTime time' i - s.cpuTime time i)
    - virtualRate (w.heap j) * (t.cpuTime time' j - s.cpuTime time j)|

/-- The longest slice granted to a task in a part of the history. -/
def longestSlice (h : List (Action 1)) (p : TaskPtr) : ℚ :=
  ((h.filterMap (Machine.grantedTo p)).max?).getD 0

/-- What a task got in virtual runtime over `base` without CPU time. -/
def lifted (base : ℚ) (p : TaskPtr) : ℚ :=
  (t.heap p).vruntime - base - virtualRate (w.heap p) * (t.heap p).served

end Bounds

open Machine

/-- **Weighted fairness of CFS**: the weighted CPU times of two tasks that
arrived together differ, over any interval in which both stay unfinished, by at
most one slice of each (the longer of the last ones granted before the interval
begins and before it ends), what the clamp has lifted each of them by since they
started with the same virtual runtime, and the tolerance of the comparator. -/
theorem CFSScheduler.weightedFairness (params : CFSParams) (hlatency : 0 ≤ params.schedLatency)
    (cfg : SimConfig) (w : Workload) (hids : w.DistinctIds) (hvalid : w.Valid) (i j : TaskPtr)
    (s t : Simulator CFSScheduler 1) (time time' : ℚ)
    (h : SharedInterval (Simulator.Step cfg) (CFSScheduler.new params) w i j s t time time') :
    ∃ a, BothArrived (Simulator.Step cfg) (CFSScheduler.new params) w i j a s ∧
      (a.heap i).vruntime = (a.heap j).vruntime ∧
      serviceGap w i j s t time time'
        ≤ virtualRate (w.heap i) * max (s.lastGrant i) (t.lastGrant i)
          + virtualRate (w.heap j) * max (s.lastGrant j) (t.lastGrant j)
          + lifted w t (a.heap i).vruntime i + lifted w t (a.heap j).vruntime j
          + 2 * ((w.added.length - 1 : ℕ) * tolerance) := by
  have hgood : (clock params w.added.length).Good (CFSScheduler.new params) := rfl
  obtain ⟨a, harrived, h'⟩ := h.together (fun _ _ _ => Simulator.step_machine) hgood rfl hvalid
  have hsame : (a.heap i).vruntime = (a.heap j).vruntime :=
    h'.vtime_eq hgood rfl hids hvalid (floor params hlatency w.added.length)
  have hgap := h'.abs_cpuTime_le hgood rfl hids hvalid le_rfl le_rfl hsame.le h.start h.stop
  have hlift := h'.lift_eq hgood rfl hvalid
  refine ⟨a, harrived, hsame, hgap.trans ?_⟩
  rw [hlift.1, hlift.2, ← hsame]
  show _ ≤ _ + _ + (_ - _ - _) + (_ - _ - _) + _
  simp only [longestGrant, slackIn, clock]
  linarith

/-- The bound holds of two tasks of which one weighs twelve times as much. -/
theorem CFSScheduler.weightedFairness_niceEleven :
    let cfg : SimConfig := { stopTime := 500 }
    let w := Workload.ofList [⟨0, 0, 1000, 0⟩, ⟨1, 0, 1000, 11⟩]
    let s : Simulator CFSScheduler 1 :=
      Simulator.turns cfg 3 (Simulator.init (CFSScheduler.new {}) w)
    let t := Simulator.turns cfg 2 s
    ∃ a, BothArrived (Simulator.Step cfg) (CFSScheduler.new {}) w 0 1 a s ∧
      (a.heap 0).vruntime = (a.heap 1).vruntime ∧
      serviceGap w 0 1 s t 15 (81177 / 2135)
        ≤ virtualRate (w.heap 0) * max (s.lastGrant 0) (t.lastGrant 0)
          + virtualRate (w.heap 1) * max (s.lastGrant 1) (t.lastGrant 1)
          + lifted w t (a.heap 0).vruntime 0 + lifted w t (a.heap 1).vruntime 1
          + 2 * ((w.added.length - 1 : ℕ) * tolerance) := by
  intro cfg w s t
  refine weightedFairness {} (by norm_num) cfg w (by decide) (by decide +kernel) 0 1 s t _ _
    ⟨Simulator.reachable_turns cfg 3 _, Simulator.reachable_turns cfg 2 _, by decide, rfl, ?_, ?_,
      ⟨?_, ?_⟩, ⟨?_, ?_⟩⟩ <;> decide +kernel

/-- **The bound without the slices before the interval and without the lifts does
not hold.**  In the first run task 0 gets two slices in a row, and task 1 none; in
the second run every return of task 0 raises its virtual runtime to almost that
of task 1, so that it never makes up for what task 1 got. -/
theorem CFSScheduler.weightedFairness_false :
    let cfg : SimConfig := { stopTime := 500 }
    let w := Workload.ofList [⟨0, 0, 1000, 0⟩, ⟨1, 0, 1000, 11⟩]
    let w' := Workload.ofList [⟨0, 0, 1000, -20⟩, ⟨1, 0, 1000, 19⟩]
    (¬ ∀ (s t : Simulator CFSScheduler 1) (time time' : ℚ),
      SharedInterval (Simulator.Step cfg) (CFSScheduler.new {}) w 0 1 s t time time' →
      ∀ new, t.history = new ++ s.history → serviceGap w 0 1 s t time time'
        ≤ virtualRate (w.heap 0) * longestSlice new 0
          + virtualRate (w.heap 1) * longestSlice new 1) ∧
    ¬ ∀ (s t : Simulator CFSScheduler 1) (time time' : ℚ),
      SharedInterval (Simulator.Step cfg) (CFSScheduler.new {}) w' 0 1 s t time time' →
      serviceGap w' 0 1 s t time time'
        ≤ virtualRate (w'.heap 0) * longestSlice t.history 0
          + virtualRate (w'.heap 1) * longestSlice t.history 1 + 2 * tolerance := by
  intro cfg w w'
  constructor
  · intro h
    let s : Simulator CFSScheduler 1 :=
      Simulator.turns cfg 3 (Simulator.init (CFSScheduler.new {}) w)
    let t := Simulator.turns cfg 2 s
    have hinterval : SharedInterval (Simulator.Step cfg) (CFSScheduler.new {}) w 0 1 s t 15
        (81177 / 2135) :=
      ⟨Simulator.reachable_turns cfg 3 _, Simulator.reachable_turns cfg 2 _, by decide, rfl,
        by decide +kernel, by decide +kernel, ⟨by decide +kernel, by decide +kernel⟩,
        ⟨by decide +kernel, by decide +kernel⟩⟩
    have hnew : t.history = [.dispatched 0 0 (24576 / 2135), .charged 0 0 (24576 / 2135),
      .dispatched 0 0 (24576 / 2135), .charged 0 1 3] ++ s.history := by decide +kernel
    exact absurd (h s t _ _ hinterval _ hnew) (by decide +kernel)
  · intro h
    let s : Simulator CFSScheduler 1 :=
      Simulator.turns cfg 2 (Simulator.init (CFSScheduler.new {}) w')
    let t := Simulator.turns cfg 11 s
    have hinterval : SharedInterval (Simulator.Step cfg) (CFSScheduler.new {}) w' 0 1 s t 0
        (6923463 / 59179) :=
      ⟨Simulator.reachable_turns cfg 2 _, Simulator.reachable_turns cfg 11 _, by decide, rfl,
        by decide +kernel, by decide +kernel, ⟨by decide +kernel, by decide +kernel⟩,
        ⟨by decide +kernel, by decide +kernel⟩⟩
    exact absurd (h s t _ _ hinterval) (by decide +kernel)

/-- **Weighted fairness of EEVDF**: the weighted CPU times of two tasks that
arrived together differ, over any interval in which both stay unfinished, by at
most one slice of each, the difference of their requests, and what the clamps
have lifted each of them by over the lower one of their first virtual runtimes. -/
theorem EEVDFScheduler.requestFairness (params : EEVDFParams) (cfg : SimConfig) (w : Workload)
    (hids : w.DistinctIds) (hvalid : w.Valid) (i j : TaskPtr)
    (s t : Simulator EEVDFScheduler 1) (time time' : ℚ)
    (h : SharedInterval (Simulator.Step cfg) (EEVDFScheduler.new params) w i j s t time time') :
    ∃ a, BothArrived (Simulator.Step cfg) (EEVDFScheduler.new params) w i j a s ∧
      serviceGap w i j s t time time'
        ≤ virtualRate (w.heap i) * sliceOf params cfg (w.heap i)
          + virtualRate (w.heap j) * sliceOf params cfg (w.heap j)
          + |params.baseSlice * virtualRate (w.heap i) - params.baseSlice * virtualRate (w.heap j)|
          + lifted w t (min (a.heap i).vruntime (a.heap j).vruntime) i
          + lifted w t (min (a.heap i).vruntime (a.heap j).vruntime) j := by
  have hgood : (clock params w.added.length).Good (EEVDFScheduler.new params) := rfl
  obtain ⟨a, harrived, h'⟩ := h.together (fun _ _ _ => Simulator.step_machine) hgood rfl hvalid
  have hgap := h'.abs_cpuTime_le hgood rfl hids hvalid le_rfl (min_le_left _ _) (min_le_right _ _)
    h.start h.stop
  have hlift := h'.lift_eq hgood rfl hvalid
  obtain ⟨es, hrun⟩ := h.interval
  have hslice : ∀ p, longestGrant (clock params w.added.length) w s t p
      ≤ virtualRate (w.heap p) * sliceOf params cfg (w.heap p) := fun p =>
    mul_le_mul_of_nonneg_left (max_le (lastGrant_le_slice hvalid h.run p)
      (lastGrant_le_slice hvalid (h.run.run hrun) p)) (virtualRate_nonneg _)
  have hslack : slackIn (clock params w.added.length) w i j
      + slackIn (clock params w.added.length) w j i
      = |params.baseSlice * virtualRate (w.heap i)
        - params.baseSlice * virtualRate (w.heap j)| := by
    show max 0 (_ - _) + max 0 (_ - _) = _
    rw [abs_eq_max_neg, neg_sub]
    rcases le_total (params.baseSlice * virtualRate (w.heap i))
      (params.baseSlice * virtualRate (w.heap j)) with hle | hle
    · rw [max_eq_right (sub_nonneg.2 hle), max_eq_left (sub_nonpos.2 hle), add_zero,
        max_eq_right (by linarith)]
    · rw [max_eq_left (sub_nonpos.2 hle), max_eq_right (sub_nonneg.2 hle), zero_add,
        max_eq_left (by linarith)]
  have hlifti : (clock params w.added.length).lift (t.heap i)
      = (t.heap i).vruntime - virtualRate (w.heap i) * (t.heap i).served := hlift.1
  have hliftj : (clock params w.added.length).lift (t.heap j)
      = (t.heap j).vruntime - virtualRate (w.heap j) * (t.heap j).served := hlift.2
  rw [hslack, hlifti, hliftj] at hgap
  refine ⟨a, harrived, hgap.trans ?_⟩
  have hi := hslice i
  have hj := hslice j
  have hvtime : ∀ u, (clock params w.added.length).vtime u = u.vruntime := fun _ => rfl
  rw [hvtime, hvtime, lifted, lifted]
  linarith

/-- The bound holds of the first and the last of five tasks, the last a light one. -/
theorem EEVDFScheduler.requestFairness_five :
    let cfg : SimConfig := { stopTime := 500 }
    let w := Workload.ofList
      [⟨0, 0, 1000, 0⟩, ⟨1, 0, 1000, 0⟩, ⟨2, 0, 1000, 0⟩, ⟨3, 0, 1000, 0⟩, ⟨4, 0, 1000, 5⟩]
    let s : Simulator EEVDFScheduler 1 :=
      Simulator.turns cfg 5 (Simulator.init (EEVDFScheduler.new {}) w)
    let t := Simulator.turns cfg 9 s
    ∃ a, BothArrived (Simulator.Step cfg) (EEVDFScheduler.new {}) w 0 4 a s ∧
      serviceGap w 0 4 s t 0 27
        ≤ virtualRate (w.heap 0) * sliceOf {} cfg (w.heap 0)
          + virtualRate (w.heap 4) * sliceOf {} cfg (w.heap 4)
          + |3 * virtualRate (w.heap 0) - 3 * virtualRate (w.heap 4)|
          + lifted w t (min (a.heap 0).vruntime (a.heap 4).vruntime) 0
          + lifted w t (min (a.heap 0).vruntime (a.heap 4).vruntime) 4 := by
  intro cfg w s t
  refine requestFairness {} cfg w (by decide) (by decide +kernel) 0 4 s t _ _
    ⟨Simulator.reachable_turns cfg 5 _, Simulator.reachable_turns cfg 9 _, by decide, rfl, ?_, ?_,
      ⟨?_, ?_⟩, ⟨?_, ?_⟩⟩ <;> decide +kernel

/-- **The bound by one slice of each task alone does not hold.**  In the first run
the deadline of the light task is the last one for three rounds; in the second run
the heavy task is lifted to the virtual time whenever it returns. -/
theorem EEVDFScheduler.requestFairness_false :
    let cfg : SimConfig := { stopTime := 5000 }
    let w := Workload.ofList
      [⟨0, 0, 1000, 0⟩, ⟨1, 0, 1000, 0⟩, ⟨2, 0, 1000, 0⟩, ⟨3, 0, 1000, 0⟩, ⟨4, 0, 1000, 5⟩]
    let w' := Workload.ofList [⟨0, 0, 100000, -20⟩, ⟨1, 0, 100000, 13⟩]
    (¬ ∀ (s t : Simulator EEVDFScheduler 1) (time time' : ℚ),
      SharedInterval (Simulator.Step cfg) (EEVDFScheduler.new {}) w 0 4 s t time time' →
      serviceGap w 0 4 s t time time'
        ≤ virtualRate (w.heap 0) * (EEVDFScheduler.new {}).calcTimeSlice (w.heap 0)
          + virtualRate (w.heap 4) * (EEVDFScheduler.new {}).calcTimeSlice (w.heap 4)) ∧
    ¬ ∀ (s t : Simulator EEVDFScheduler 1) (time time' : ℚ),
      SharedInterval (Simulator.Step cfg) (EEVDFScheduler.new {}) w' 0 1 s t time time' →
      serviceGap w' 0 1 s t time time'
        ≤ virtualRate (w'.heap 0) * (EEVDFScheduler.new {}).calcTimeSlice (w'.heap 0)
          + virtualRate (w'.heap 1) * (EEVDFScheduler.new {}).calcTimeSlice (w'.heap 1)
          + |3 * virtualRate (w'.heap 0) - 3 * virtualRate (w'.heap 1)| := by
  intro cfg w w'
  constructor
  · intro h
    let s : Simulator EEVDFScheduler 1 :=
      Simulator.turns cfg 5 (Simulator.init (EEVDFScheduler.new {}) w)
    let t := Simulator.turns cfg 9 s
    have hinterval : SharedInterval (Simulator.Step cfg) (EEVDFScheduler.new {}) w 0 4 s t 0 27 :=
      ⟨Simulator.reachable_turns cfg 5 _, Simulator.reachable_turns cfg 9 _, by decide, rfl,
        by decide +kernel, by decide +kernel, ⟨by decide +kernel, by decide +kernel⟩,
        ⟨by decide +kernel, by decide +kernel⟩⟩
    exact absurd (h s t _ _ hinterval) (by decide +kernel)
  · intro h
    let s : Simulator EEVDFScheduler 1 :=
      Simulator.turns cfg 2 (Simulator.init (EEVDFScheduler.new {}) w')
    let t := Simulator.turns cfg 10 s
    have hinterval : SharedInterval (Simulator.Step cfg) (EEVDFScheduler.new {}) w' 0 1 s t 0
        (1336535 / 1024) :=
      ⟨Simulator.reachable_turns cfg 2 _, Simulator.reachable_turns cfg 10 _, by decide, rfl,
        by decide +kernel, by decide +kernel, ⟨by decide +kernel, by decide +kernel⟩,
        ⟨by decide +kernel, by decide +kernel⟩⟩
    exact absurd (h s t _ _ hinterval) (by decide +kernel)

end SchedSim
