import SchedSim.Completion
import SchedSim.Latency

/-!
# Jain's fairness index

The index divides by turnaround times and by a sum of squares.  No task is completed at the
instant it arrives: the event that ends its first slice is due later, since a slice is never
empty for a task that has got nothing yet.  So all divisors are positive.

* `Machine.SlicesLate` — every pending slice event of a task is due after its arrival.
* `Machine.turnaroundTime_pos` — no completed task has turnaround time zero.
* `jainsFairness` — the index is well defined and in range, in every run of either simulator.
-/

namespace SchedSim

/-- A task that waits and has work to do is dispatched for a slice that ends after its
arrival: either it has been served before, or it has everything left to do. -/
theorem Task.Waits.arrival_lt {t : Task} {now : ℚ} (h : t.Waits now) (hexec : 0 < t.executionTime)
    (cfg : SimConfig) (x : ℚ) : t.arrivalTime < now + Machine.grant cfg x t.remainingTime := by
  have hb := h.balanced.booked
  have hserved : t.served = t.executionTime - t.remainingTime := rfl
  have hwaited := h.balanced.waited
  have hpast := h.past
  rw [Task.booked] at hb
  rcases h.balanced.remaining.eq_or_lt with hzero | hpos
  · have hgrant := Machine.grant_nonneg cfg x h.balanced.remaining
    linarith
  · have hgrant : 0 < Machine.grant cfg x t.remainingTime := by
      refine lt_min ?_ hpos
      split
      next hx => exact hx
      next => exact cfg.defaultTimeSlice_pos
    linarith [h.balanced.served]

namespace Machine

variable {σ Q : Type} [Scheduler σ] [DecidableEq Q] [LawfulScheduler σ] {n : ℕ}
  {m m' : Machine σ Q n} {e : Event n} {c : Fin n} {p r : TaskPtr} {cfg : SimConfig}
  {slot : Fin n → Q} {schedulers : Q → σ} {w : Workload}

/-! ## Slices end after the arrival -/

omit [Scheduler σ] [DecidableEq Q] [LawfulScheduler σ] in
/-- Every pending slice event of a task is due after its arrival. -/
def SlicesLate (m : Machine σ Q n) : Prop :=
  ∀ e ∈ m.events, e.type = .timeSlice → (m.heap e.task).arrivalTime < e.time

omit [Scheduler σ] [DecidableEq Q] [LawfulScheduler σ] in
theorem SlicesLate.of_subset (h : m.SlicesLate) (hev : ∀ e ∈ m'.events, e ∈ m.events)
    (hfixed : ∀ p, (m'.heap p).fixed = (m.heap p).fixed) : m'.SlicesLate := by
  intro e he hts
  have harr := congrArg (fun f => f.1.arrivalTime) (hfixed e.task)
  exact harr.trans_lt (h e (hev e he) hts)

omit [LawfulScheduler σ] in
theorem slicesLate_dispatch {q : Q} {x : ℚ} (h : m.SlicesLate)
    (hw : (m.heap p).Waits m.currentTime) (hexec : 0 < (m.heap p).executionTime) :
    (m.dispatch cfg q c p x).SlicesLate := by
  intro e he hts
  have hfixed : ((m.dispatch cfg q c p x).heap e.task).fixed = (m.heap e.task).fixed :=
    fixed_dispatch
  have harr := congrArg (fun f => f.1.arrivalTime) hfixed
  refine harr.trans_lt ?_
  rcases List.mem_append.1 he with he | he
  · exact h e he hts
  · rw [List.mem_singleton.1 he]
    exact hw.arrival_lt hexec cfg x

theorem Next.slicesLate (hn : Next cfg slot c m m') (hc : m.runningTasks c = none)
    (hm : m.Books) (hexec : ∀ q, ∀ p ∈ m.ready q, 0 < (m.heap p).executionTime)
    (h : m.SlicesLate) : m'.SlicesLate := by
  cases hn with
  | idle => rwa [clearCore_eq_self m c hc]
  | @own p x hs =>
    have hp := mem_ready_of_schedule hs
    exact slicesLate_dispatch h ((hm.booked p).waiting _ hp) (hexec _ p hp)
  | @steal b stolen p x _ hnil _ hst hs =>
    have hstolen : stolen ∈ m.ready b := schedule_mem _ m.heap stolen hst
    have hp := mem_ready_of_schedule hs
    -- the own queue was empty, so the task that is dispatched is the stolen one
    obtain rfl : p = stolen := by
      rcases mem_ready_migrate.1 hp with ⟨-, hp⟩ | hp
      · exact hp
      · have := (mem_ready_removeReady.1 hp).1
        rw [hnil] at this
        cases this
    have hmig : (m.migrate b (slot c) p).SlicesLate :=
      h.of_subset (fun _ he => he) fun _ => fixed_migrate
    refine slicesLate_dispatch hmig ((booked_migrate (hm.booked p) hstolen).waiting _ hp) ?_
    rw [Task.congrLedger Task.executionTime ledger_migrate]
    exact hexec b p hstolen

/-- Before `dispatch_next` is called no slice event is added. -/
theorem Move.slicesLate [Fintype Q] (hmove : Move cfg slot m e m') (he : m.events.IsNext e)
    (hone : ∀ p, m.places p ≤ 1) (hslice : m.SlicePending) (hm : m.Books)
    (hexec : ∀ p, 0 < m.places p → 0 < (m.heap p).executionTime) (h : m.SlicesLate) :
    m'.SlicesLate := by
  obtain ⟨m₁, hm₁, hplaces, hfixed, hev, -, hcase⟩ := hmove.before_books he hone hm hslice
  have h₁ : m₁.SlicesLate := h.of_subset (fun _ he' => List.mem_of_mem_erase (hev ▸ he')) hfixed
  rcases hcase with rfl | ⟨c, hidle, hn⟩
  · exact h₁
  · refine hn.slicesLate hidle hm₁ (fun q p hp => ?_) h₁
    have hwait : 0 < m₁.waiting p := waiting_pos.2 ⟨q, hp⟩
    have hstands : 0 < m.places p := by
      rw [← hplaces p, places]
      omega
    have hwork : (m₁.heap p).executionTime = (m.heap p).executionTime :=
      congrArg (fun f => f.1.executionTime) (hfixed p)
    rw [hwork]
    exact hexec p hstands

/-! ## Completions -/

theorem completionTime_yieldCore {q : Q} :
    ((m.yieldCore q c p).heap r).completionTime = (m.heap r).completionTime := by
  rw [yieldCore, Task.congrLedger Task.completionTime ledger_requeue]
  have hcharge : ((m.charge q c p).heap r).completionTime = (m.heap r).completionTime := by
    rw [Task.congrLedger Task.completionTime ledger_charge]
    split <;> rfl
  split
  · exact hcharge
  · exact hcharge

/-- A step completes no task but the one whose slice ends, and writes the time of no other. -/
theorem Move.completed_cases (h : Move cfg slot m e m') (p : TaskPtr) :
    ((p ∈ m'.completedTasks → p ∈ m.completedTasks) ∧
        (m'.heap p).completionTime = (m.heap p).completionTime) ∨
      (e.type = .timeSlice ∧ p = e.task ∧ p ∈ m'.completedTasks ∧
        (m'.heap p).completionTime = e.time) := by
  have harrive : ∀ {q : Q}, (((m.pop e).enqueue q e.task).heap p).completionTime
      = (m.heap p).completionTime := by
    intro q
    rw [Task.congrLedger Task.completionTime ledger_enqueue]
    split <;> rfl
  cases h with
  | skip => exact .inl ⟨id, rfl⟩
  | queued => exact .inl ⟨id, harrive⟩
  | woken _ _ hn =>
    rw [hn.completedTasks]
    exact .inl ⟨id, hn.work.2.trans harrive⟩
  | preempted _ _ _ _ hn =>
    rw [hn.completedTasks]
    refine .inl ⟨id, hn.work.2.trans ?_⟩
    rw [countSwitch_heap, completionTime_yieldCore]
    exact harrive
  | expired hts hrun hn =>
    rw [hn.completedTasks, hn.work.2, settle_eq]
    split
    next hdone =>
      rw [finish_completedTasks, Task.congrLedger Task.completionTime ledger_finish]
      by_cases hpe : p = e.task
      · rw [if_pos hpe]
        exact .inr ⟨hts, hpe, by simp [hpe], rfl⟩
      · rw [if_neg hpe, Task.congrLedger Task.completionTime ledger_charge, if_neg hpe]
        refine .inl ⟨fun hp => ?_, rfl⟩
        rw [List.mem_append, List.mem_singleton] at hp
        exact hp.resolve_right hpe
    next hdone =>
      rw [completionTime_yieldCore]
      exact .inl ⟨id, rfl⟩

/-! ## Runs -/

section Runs

variable [Fintype Q] [NeZero n] (hempty : ∀ q, readyTasks (schedulers q) = []) (hvalid : w.Valid)
  (h : Lts.Reachable (Step cfg slot) (init schedulers w) m)

include hempty hvalid h

theorem slicesLate_of_reachable : m.SlicesLate := by
  refine h.induction (I := SlicesLate) ?_ ?_
  · intro e he hts
    obtain ⟨p, -, rfl⟩ := List.mem_map.1 he
    cases hts
  · intro s e t hs ih hstep
    have hone : ∀ p, s.places p ≤ 1 := fun p =>
      (places_le_count hempty hs p).trans (List.nodup_iff_count_le_one.1 w.nodup p)
    refine hstep.2.2.slicesLate hstep.1 hone (slicePending_of_reachable hs)
      (books_of_reachable hempty hvalid hs) (fun p hp => ?_) ih
    rw [executionTime_eq hs]
    exact (hvalid p (mem_added_of_places hempty hs hp)).2

/-- No task is completed at the instant it arrives. -/
theorem arrivalTime_lt_completionTime :
    ∀ p ∈ m.completedTasks, (w.args p).arrivalTime < (m.heap p).completionTime := by
  refine h.induction (I := fun m : Machine σ Q n => ∀ p ∈ m.completedTasks,
    (w.args p).arrivalTime < (m.heap p).completionTime) ?_ ?_
  · intro p hp
    cases hp
  · intro s e t hs ih hstep p hp
    rcases hstep.2.2.completed_cases p with ⟨hold, hsame⟩ | ⟨hts, rfl, -, hnow⟩
    · rw [hsame]
      exact ih p (hold hp)
    · rw [hnow, ← arrivalTime_eq hs]
      exact slicesLate_of_reachable hempty hvalid hs e hstep.1.1 hts

omit [Fintype Q] hempty hvalid in
/-- A task that is not completed has no completion time. -/
theorem completionTime_neg (hp : p ∉ m.completedTasks) : (m.heap p).completionTime < 0 := by
  refine h.induction (I := fun m : Machine σ Q n =>
    ∀ p, p ∉ m.completedTasks → (m.heap p).completionTime < 0) ?_ ?_ p hp
  · intro p _
    show (-1 : ℚ) < 0
    norm_num
  · intro s e t _ ih hstep p hp
    rcases hstep.2.2.completed_cases p with ⟨-, hsame⟩ | ⟨-, -, hcomp, -⟩
    · rw [hsame]
      refine ih p fun hold => hp ?_
      exact hstep.2.2.completedTasks_subset hold
    · exact absurd hcomp hp

theorem turnaroundTime_pos (hp : p ∈ m.completedTasks) : 0 < (m.heap p).turnaroundTime := by
  have hlt := arrivalTime_lt_completionTime hempty hvalid h p hp
  have harr := (hvalid p (mem_added_of_completed hempty h hp)).1
  rw [Task.turnaroundTime, if_neg (not_lt.2 (harr.trans hlt.le)), arrivalTime_eq h]
  exact sub_pos.2 hlt

/-- Jain's index of the completed tasks is well defined and in range. -/
theorem fair_metrics (hsize : w.added.length < 2 ^ 32) (hne : m.completedTasks ≠ []) :
    Metrics.fairnessDenominator m.completed ≠ 0 ∧
      1 / (m.completed.length : ℚ) ≤ (m.returned cfg).metrics.jainsFairness ∧
      (m.returned cfg).metrics.jainsFairness ≤ 1 := by
  refine Metrics.fair_calculate ?_ ((length_completed_le hempty h).trans_lt hsize) ?_ ?_
  · rwa [completed, ne_eq, List.map_eq_nil_iff]
  · intro t ht
    obtain ⟨p, hp, rfl⟩ := List.mem_map.1 ht
    rw [executionTime_eq h]
    exact (hvalid p (mem_added_of_completed hempty h hp)).2
  · intro t ht
    obtain ⟨p, hp, rfl⟩ := List.mem_map.1 ht
    exact turnaroundTime_pos hempty hvalid h hp

end Runs

end Machine

/-! ## The two simulators -/

open Machine

/-- **Jain's index is well defined and in range**, in every run of either simulator: no
completed task has turnaround time zero, nothing is divided by zero, and the index lies
between one over the number of completed tasks and one. -/
theorem jainsFairness {n : ℕ} [NeZero n] (kind : SchedulerKind) (w : Workload)
    (hvalid : w.Valid) (hsize : w.added.length < 2 ^ 32) :
    (∀ (cfg : SimConfig) (s : Simulator kind.State n),
      Lts.Reachable (Simulator.Step cfg) (Simulator.init kind.make w) s → s.completedTasks ≠ [] →
      (∀ p ∈ s.completedTasks, 0 < (s.heap p).turnaroundTime) ∧
        Metrics.fairnessDenominator s.completed ≠ 0 ∧
        1 / (s.completed.length : ℚ) ≤ (s.returned cfg).metrics.jainsFairness ∧
        (s.returned cfg).metrics.jainsFairness ≤ 1) ∧
    (∀ (balancer : LoadBalancer) (cfg : MultiConfig) (s : MultiCoreSimulator kind.State n),
      Lts.Reachable (MultiCoreSimulator.Step cfg)
        (MultiCoreSimulator.init kind.make balancer w) s → s.completedTasks ≠ [] →
      (∀ p ∈ s.completedTasks, 0 < (s.heap p).turnaroundTime) ∧
        Metrics.fairnessDenominator s.completed ≠ 0 ∧
        1 / (s.completed.length : ℚ) ≤ (s.returned cfg.toSimConfig).metrics.jainsFairness ∧
        (s.returned cfg.toSimConfig).metrics.jainsFairness ≤ 1) := by
  constructor
  · intro cfg s hs hne
    have hm := hs.simulate (f := id) fun _ _ _ => Simulator.step_machine
    exact ⟨fun p hp => turnaroundTime_pos (fun _ => kind.readyTasks_make) hvalid hm hp,
      fair_metrics (fun _ => kind.readyTasks_make) hvalid hm hsize hne⟩
  · intro balancer cfg s hs hne
    have hm := hs.simulate (f := MultiCoreSimulator.toMachine) fun _ _ _ =>
      MultiCoreSimulator.step_machine
    exact ⟨fun p hp => turnaroundTime_pos (fun _ => kind.readyTasks_make) hvalid hm hp,
      fair_metrics (fun _ => kind.readyTasks_make) hvalid hm hsize hne⟩

/-- Two tasks that share a core under stride scheduling, and two that do not share one. -/
theorem jainsFairness_pair :
    let cfg : MultiConfig := { stopTime := 50 }
    let kind := SchedulerKind.stride {}
    let single := Simulator.turns (n := 1) cfg.toSimConfig 5 (Simulator.init kind.make .pair)
    let multi := MultiCoreSimulator.turns (n := 2) cfg 4
      (MultiCoreSimulator.init kind.make .leastLoaded .pair)
    (single.returned cfg.toSimConfig).metrics.jainsFairness ≤ 1 ∧
      (multi.returned cfg.toSimConfig).metrics.jainsFairness ≤ 1 :=
  ⟨((jainsFairness (.stride {}) .pair (by decide +kernel) (by decide)).1 _ _
      (Simulator.reachable_turns _ 5 _) (by decide +kernel)).2.2.2,
    ((jainsFairness (.stride {}) .pair (by decide +kernel) (by decide)).2 _ _ _
      (MultiCoreSimulator.reachable_turns _ 4 _) (by decide +kernel)).2.2.2⟩

end SchedSim
