import SchedSim.Metrics
import SchedSim.Reports
import SchedSim.Schedulers.Factory
import SchedSim.TaskRules

/-!
# Latency metrics

The response, waiting and turnaround time of a task are written at different moments of a
run.  That they are in order is an invariant of all tasks; what `Metrics::calculate` makes of
them follows.

* `Task.StartBooked` — a task that has started has waited since its arrival; one that has
  not has got nothing.
* `Machine.timesOrdered` — the times of a completed task are in order.
* `latencyMetrics` — so are the metrics, in every run of either simulator.
-/

namespace SchedSim

/-! ## One task -/

namespace Task

/-- The start time, the waiting time and the CPU time agree. -/
structure StartBooked (t : Task) : Prop where
  unstarted : t.startTime < 0 → t.served = 0
  started : 0 ≤ t.startTime → t.arrivalTime ≤ t.startTime ∧ t.startTime - t.arrivalTime ≤ t.waitTime

variable {t u : Task} {now : ℚ}

theorem StartBooked.congr (h : t.StartBooked) (hu : u.ledger = t.ledger) : u.StartBooked := by
  have hstart := congrLedger Task.startTime hu
  refine ⟨fun hneg => ?_, fun hpos => ?_⟩
  · rw [congrLedger Task.served hu]
    exact h.unstarted (hstart ▸ hneg)
  · rw [hstart, congrLedger Task.arrivalTime hu, congrLedger Task.waitTime hu]
    exact h.started (hstart ▸ hpos)

theorem startTime_markDispatched : (t.markDispatched now).startTime = t.startTime := by
  rw [markDispatched]
  split <;> rfl

theorem arrivalTime_dispatched :
    ((t.markDispatched now).start now).arrivalTime = t.arrivalTime := by
  rw [start, markDispatched]
  split <;> split <;> rfl

theorem waitTime_le_markDispatched : t.waitTime ≤ (t.markDispatched now).waitTime := by
  rw [markDispatched]
  split
  · exact le_rfl
  · exact le_add_of_nonneg_right (le_max_left _ _)

/-- The first dispatch ends the first wait, and later ones only add to it. -/
theorem StartBooked.dispatch (h : t.StartBooked) (hnow : 0 ≤ now) (hw : t.Waits now) :
    ((t.markDispatched now).start now).StartBooked ∧
    0 ≤ ((t.markDispatched now).start now).startTime := by
  have hb := hw.dispatch.booked
  have hwaited := hw.dispatch.waited
  rw [booked, served_start, served_markDispatched] at hb
  rcases lt_or_ge t.startTime 0 with hneg | hpos
  · have hstart : ((t.markDispatched now).start now).startTime = now := by
      rw [start, startTime_markDispatched, if_pos hneg]
    have hzero := h.unstarted hneg
    refine ⟨⟨fun hlt => ?_, fun _ => ?_⟩, by rwa [hstart]⟩
    · rw [hstart] at hlt
      exact absurd hlt (not_lt.2 hnow)
    · rw [hstart]
      constructor <;> linarith
  · have hstart : (t.markDispatched now).start now = t.markDispatched now := by
      rw [start, startTime_markDispatched, if_neg (not_lt.2 hpos)]
    obtain ⟨harr, hwait⟩ := h.started hpos
    have harrival : ((t.markDispatched now).start now).arrivalTime = t.arrivalTime :=
      arrivalTime_dispatched
    rw [hstart] at harrival ⊢
    refine ⟨⟨fun hlt => ?_, fun _ => ?_⟩, by rwa [startTime_markDispatched]⟩
    · rw [startTime_markDispatched] at hlt
      exact absurd hlt (not_lt.2 hpos)
    · rw [startTime_markDispatched, harrival]
      exact ⟨harr, hwait.trans waitTime_le_markDispatched⟩

/-- Only a task that has been started is charged, so the start is booked for good. -/
theorem startBooked_rule : Rule StartBooked fun t => 0 ≤ t.startTime where
  congr _ _ hu h := h.congr hu
  congrRuns _ _ hu h := (congrLedger Task.startTime hu).symm ▸ h
  markReady _ _ h := ⟨h.unstarted, h.started⟩
  execute _ _ h hrun _ _ := ⟨fun hneg => absurd hneg (not_lt.2 hrun), h.started⟩
  incrementPreemptions _ h := ⟨h.unstarted, h.started⟩
  complete _ _ h := ⟨h.unstarted, h.started⟩
  dispatch _ _ hnow hw h := h.dispatch hnow hw

/-- The turnaround time of a completed task is its waiting time and its CPU time. -/
theorem Done.turnaroundTime_eq (h : t.Done) (harr : 0 ≤ t.arrivalTime) :
    t.turnaroundTime = t.waitTime + t.served := by
  have hb := h.balanced.booked
  rw [booked] at hb
  have hnonneg : 0 ≤ t.completionTime := by linarith [h.balanced.waited, h.balanced.served]
  rw [Task.turnaroundTime, if_neg (not_lt.2 hnonneg), ← hb]
  ring

theorem Done.timesOrdered (h : t.Done) (hs : t.StartBooked) (harr : 0 ≤ t.arrivalTime) :
    t.TimesOrdered := by
  have hturn := h.turnaroundTime_eq harr
  have hserved := h.balanced.served
  have hwaited := h.balanced.waited
  rcases lt_or_ge t.startTime 0 with hneg | hpos
  · have hresp : t.responseTime = 0 := if_pos hneg
    exact ⟨hresp.ge, hresp ▸ hwaited, by linarith⟩
  · have hresp : t.responseTime = t.startTime - t.arrivalTime := if_neg (not_lt.2 hpos)
    obtain ⟨hafter, hwait⟩ := hs.started hpos
    exact ⟨by linarith, hresp ▸ hwait, by linarith⟩

end Task

/-! ## Runs -/

namespace Machine

variable {σ Q : Type} [Scheduler σ] [DecidableEq Q] [Fintype Q] [LawfulScheduler σ] {n : ℕ}
  [NeZero n] {m : Machine σ Q n} {p : TaskPtr} {cfg : SimConfig} {slot : Fin n → Q}
  {schedulers : Q → σ} {w : Workload}

omit [Scheduler σ] [DecidableEq Q] [Fintype Q] [LawfulScheduler σ] [NeZero n] in
/-- The records of the completed tasks, in the order of completion. -/
def completed (m : Machine σ Q n) : List Task := m.completedTasks.map m.heap

omit [Scheduler σ] [DecidableEq Q] [Fintype Q] [LawfulScheduler σ] [NeZero n] in
/-- `metrics.calculate(sim.completed_tasks(), sim.current_time(), config.num_cores)` -/
def metrics (m : Machine σ Q n) : Metrics :=
  ({} : Metrics).calculate m.completed m.currentTime (UInt32.ofNat n)

omit [Fintype Q] in
theorem arrivalTime_eq (h : Lts.Reachable (Step cfg slot) (init schedulers w) m) (p : TaskPtr) :
    (m.heap p).arrivalTime = (w.args p).arrivalTime :=
  congrArg (fun f => f.1.arrivalTime) (fixed_of_reachable h p)

omit [Fintype Q] in
theorem executionTime_eq (h : Lts.Reachable (Step cfg slot) (init schedulers w) m) (p : TaskPtr) :
    (m.heap p).executionTime = (w.args p).executionTime :=
  congrArg (fun f => f.1.executionTime) (fixed_of_reachable h p)

section Added

variable (hempty : ∀ q, readyTasks (schedulers q) = [])
  (h : Lts.Reachable (Step cfg slot) (init schedulers w) m)

include hempty h

/-- A task that stands somewhere has been added. -/
theorem mem_added_of_places (hp : 0 < m.places p) : p ∈ w.added :=
  List.count_pos_iff.1 (hp.trans_le (places_le_count hempty h p))

theorem mem_added_of_completed (hp : p ∈ m.completedTasks) : p ∈ w.added := by
  refine mem_added_of_places hempty h ?_
  have hpos : 0 < m.completedTasks.count p := List.count_pos_iff.2 hp
  rw [places]
  omega

theorem nodup_completedTasks : m.completedTasks.Nodup := by
  rw [List.nodup_iff_count_le_one]
  intro p
  have hplaces := places_le_count hempty h p
  have hcount := List.nodup_iff_count_le_one.1 w.nodup p
  rw [places] at hplaces
  omega

/-- No more tasks are completed than were added. -/
theorem length_completed_le : m.completed.length ≤ w.added.length := by
  rw [completed, List.length_map]
  exact ((nodup_completedTasks hempty h).subperm fun p hp =>
    mem_added_of_completed hempty h hp).length_le

/-- The times of every completed task are in order. -/
theorem timesOrdered (hvalid : w.Valid) (hp : p ∈ m.completedTasks) : (m.heap p).TimesOrdered := by
  have hinit : ∀ p, (w.heap p).StartBooked := fun p =>
    ⟨fun _ => sub_self _, fun hpos => absurd hpos (by norm_num [Workload.heap, Task.new])⟩
  have hbooked := (obeys_of_reachable Task.startBooked_rule hempty hvalid hinit h).all p
  have hdone := ((books_of_reachable hempty hvalid h).booked p).completed hp
  refine hdone.timesOrdered hbooked ?_
  rw [arrivalTime_eq h]
  exact (hvalid p (mem_added_of_completed hempty h hp)).1

/-- So are the metrics made of them. -/
theorem consistent_metrics (hvalid : w.Valid) (hsize : w.added.length < 2 ^ 32)
    (hne : m.completedTasks ≠ []) : (m.returned cfg).metrics.Consistent m.completed := by
  refine Metrics.consistent_calculate ?_ ((length_completed_le hempty h).trans_lt hsize) ?_
  · rwa [completed, ne_eq, List.map_eq_nil_iff]
  · intro t ht
    obtain ⟨p, hp, rfl⟩ := List.mem_map.1 ht
    exact timesOrdered (m := m) hempty h hvalid hp

end Added

end Machine

/-! ## The two simulators -/

open Machine

/-- **Latency metrics are consistent**, in every run of either simulator: the times of every
completed task are in order, and so are the means and the percentiles made of them.  The
number of tasks is a `uint32_t`, like the argument of `generate`. -/
theorem latencyMetrics {n : ℕ} [NeZero n] (kind : SchedulerKind) (w : Workload)
    (hvalid : w.Valid) (hsize : w.added.length < 2 ^ 32) :
    (∀ (cfg : SimConfig) (s : Simulator kind.State n),
      Lts.Reachable (Simulator.Step cfg) (Simulator.init kind.make w) s → s.completedTasks ≠ [] →
      (∀ p ∈ s.completedTasks, (s.heap p).TimesOrdered) ∧
        (s.returned cfg).metrics.Consistent s.completed) ∧
    (∀ (balancer : LoadBalancer) (cfg : MultiConfig) (s : MultiCoreSimulator kind.State n),
      Lts.Reachable (MultiCoreSimulator.Step cfg)
        (MultiCoreSimulator.init kind.make balancer w) s → s.completedTasks ≠ [] →
      (∀ p ∈ s.completedTasks, (s.heap p).TimesOrdered) ∧
        (s.returned cfg.toSimConfig).metrics.Consistent s.completed) := by
  constructor
  · intro cfg s hs hne
    have hm := hs.simulate (f := id) fun _ _ _ => Simulator.step_machine
    exact ⟨fun p hp => timesOrdered (fun _ => kind.readyTasks_make) hm hvalid hp,
      consistent_metrics (fun _ => kind.readyTasks_make) hm hvalid hsize hne⟩
  · intro balancer cfg s hs hne
    have hm := hs.simulate (f := MultiCoreSimulator.toMachine) fun _ _ _ =>
      MultiCoreSimulator.step_machine
    exact ⟨fun p hp => timesOrdered (fun _ => kind.readyTasks_make) hm hvalid hp,
      consistent_metrics (fun _ => kind.readyTasks_make) hm hvalid hsize hne⟩

/-- Both tasks of the pair are completed after a few turns. -/
theorem latencyMetrics_pair :
    let cfg : MultiConfig := { stopTime := 50 }
    let kind := SchedulerKind.cfs {}
    let single := Simulator.turns (n := 1) cfg.toSimConfig 5 (Simulator.init kind.make .pair)
    let multi := MultiCoreSimulator.turns (n := 2) cfg 4
      (MultiCoreSimulator.init kind.make .leastLoaded .pair)
    (single.returned cfg.toSimConfig).metrics.Consistent single.completed ∧
      (multi.returned cfg.toSimConfig).metrics.Consistent multi.completed :=
  ⟨((latencyMetrics (.cfs {}) .pair (by decide +kernel) (by decide)).1 _ _
      (Simulator.reachable_turns _ 5 _) (by decide +kernel)).2,
    ((latencyMetrics (.cfs {}) .pair (by decide +kernel) (by decide)).2 _ _ _
      (MultiCoreSimulator.reachable_turns _ 4 _) (by decide +kernel)).2⟩

end SchedSim
