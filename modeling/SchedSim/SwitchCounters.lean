import SchedSim.Interruptions
import SchedSim.Conservation
import SchedSim.Schedulers.Factory
import Mathlib.Data.UInt

/-!
# The counters of the simulators

`preemptions_` and `context_switches_` are counted up in several places.  They
are 32-bit words, so the equations below are between words.

* `Machine.dispatches`, `Machine.busyCores` — how often a task was put on a core,
  and where one is now.
* `Machine.Move.counts` — `preemptions_` counts every return of a task to a queue,
  and a task leaves a core by returning or by finishing.
* `switchCounters` — in a run in which no arrival preempts a core,
  `context_switches_` counts the dispatches.
* `Simulator.switchCounters_false` — a preemption is counted twice.
-/

namespace SchedSim

namespace Machine

variable {σ Q : Type} {n : ℕ}

/-- How often a task was put on a core. -/
def dispatches (m : Machine σ Q n) : ℕ :=
  m.history.countP fun
    | .dispatched .. => true
    | .charged .. => false

/-- The cores that run a task. -/
def busyCores (m : Machine σ Q n) : Finset (Fin n) :=
  Finset.univ.filter fun c => (m.runningTasks c).isSome

/-- The preemptions of all tasks of a workload. -/
def taskPreemptions (w : Workload) (m : Machine σ Q n) : UInt32 :=
  ∑ p ∈ w.added.toFinset, (m.heap p).preemptionCount

/-- Every preemption is one of a task, and every dispatched task has been
preempted, has completed, or is on a core. -/
structure Counts (w : Workload) (m : Machine σ Q n) : Prop where
  preemptions : m.preemptions = m.taskPreemptions w
  dispatches : UInt32.ofNat m.dispatches
    = m.preemptions + UInt32.ofNat m.completedTasks.length + UInt32.ofNat m.busyCores.card

variable [Scheduler σ] [DecidableEq Q] {m m' m₁ : Machine σ Q n} {c : Fin n} {p r : TaskPtr}
  {q : Q} {x : ℚ} {e : Event n} {cfg : SimConfig} {slot : Fin n → Q} {w : Workload}

/-! ## Busy cores -/

omit [Scheduler σ] [DecidableEq Q] in
theorem card_busyCores_assign (hc : m.runningTasks c = none)
    (h : m'.runningTasks = setAt m.runningTasks c (some p)) :
    m'.busyCores.card = m.busyCores.card + 1 := by
  have hnot : c ∉ m.busyCores := by simp [busyCores, hc]
  have hinsert : m'.busyCores = insert c m.busyCores := by
    ext d
    simp only [busyCores, h, setAt_apply, Finset.mem_filter, Finset.mem_univ, true_and,
      Finset.mem_insert]
    split
    next hd => simp [hd]
    next hd => simp [hd]
  rw [hinsert, Finset.card_insert_of_notMem hnot]

omit [Scheduler σ] [DecidableEq Q] in
theorem card_busyCores_clear (hc : m.runningTasks c = some p)
    (h : m'.runningTasks = setAt m.runningTasks c none) :
    m'.busyCores.card + 1 = m.busyCores.card := by
  refine (card_busyCores_assign (c := c) (p := p) ?_ ?_).symm
  · rw [h, setAt_self]
  · funext d
    rw [h]
    by_cases hd : d = c
    · rw [hd, hc, setAt_self]
    · rw [setAt_of_ne _ _ _ hd, setAt_of_ne _ _ _ hd]

/-! ## Preemption counts -/

variable [LawfulScheduler σ]

/-- `dispatch_next` counts a dispatch, or does nothing. -/
theorem Next.counts (h : Next cfg slot c m m') (hc : m.runningTasks c = none) :
    m'.preemptions = m.preemptions ∧
    (∀ r, (m'.heap r).preemptionCount = (m.heap r).preemptionCount) ∧
    ∃ k, m'.dispatches = m.dispatches + k ∧
      m'.contextSwitches = m.contextSwitches + UInt32.ofNat k ∧
      m'.busyCores.card = m.busyCores.card + k := by
  have hdispatch : ∀ (m : Machine σ Q n) (q : Q) (p : TaskPtr) (x : ℚ) (r : TaskPtr),
      ((m.dispatch cfg q c p x).heap r).preemptionCount = (m.heap r).preemptionCount := by
    intro m q p x r
    rw [Task.congrLedger Task.preemptionCount (ledger_dispatch cfg x)]
    split
    · unfold Task.start Task.markDispatched
      split <;> split <;> rfl
    · rfl
  cases h with
  | idle => exact ⟨rfl, fun _ => rfl, 0, rfl, (add_zero _).symm, by
      rw [clearCore_eq_self m c hc, add_zero]⟩
  | own => exact ⟨rfl, hdispatch _ _ _ _, 1, List.countP_cons, rfl, card_busyCores_assign hc rfl⟩
  | @steal b stolen p x =>
    refine ⟨rfl, fun r => ?_, 1, List.countP_cons, rfl, card_busyCores_assign hc rfl⟩
    rw [hdispatch, Task.congrLedger Task.preemptionCount ledger_migrate]

theorem preemptionCount_enqueue :
    ((m.enqueue q p).heap r).preemptionCount = (m.heap r).preemptionCount := by
  rw [Task.congrLedger Task.preemptionCount ledger_enqueue]
  split <;> rfl

theorem preemptionCount_charge :
    ((m.charge q c p).heap r).preemptionCount = (m.heap r).preemptionCount := by
  rw [Task.congrLedger Task.preemptionCount ledger_charge]
  split <;> rfl

theorem preemptionCount_yieldCore : ((m.yieldCore q c p).heap r).preemptionCount
    = (m.heap r).preemptionCount + if r = p then 1 else 0 := by
  rw [yieldCore, Task.congrLedger Task.preemptionCount ledger_requeue]
  split
  · show ((m.charge q c p).heap r).preemptionCount + 1 = _
    rw [preemptionCount_charge]
  · rw [preemptionCount_charge]
    exact (add_zero _).symm

theorem taskPreemptions_yieldCore (hp : p ∈ w.added) :
    (m.yieldCore q c p).taskPreemptions w = m.taskPreemptions w + 1 := by
  simp only [taskPreemptions, preemptionCount_yieldCore, Finset.sum_add_distrib]
  rw [Finset.sum_ite_eq', if_pos (List.mem_toFinset.2 hp)]

/-! ## One step -/

/-- `dispatch_next` keeps the counts. -/
theorem Next.keepsCounts (h : Next cfg slot c m m') (hc : m.runningTasks c = none)
    (hm : Counts w m) : Counts w m' := by
  obtain ⟨hpre, htask, k, hdis, -, hbusy⟩ := h.counts hc
  refine ⟨?_, ?_⟩
  · simp only [hpre, hm.preemptions, taskPreemptions, htask]
  · rw [hdis, hbusy, hpre, h.completedTasks, UInt32.ofNat_add, UInt32.ofNat_add, hm.dispatches,
      add_assoc]

/-- A task that returns to a queue is counted as preempted. -/
theorem counts_yieldCore (hp : p ∈ w.added) (hc : m.runningTasks c = some p) (hm : Counts w m) :
    Counts w (m.yieldCore q c p) := by
  have hbusy := card_busyCores_clear hc (yieldCore_runningTasks (m := m) (q := q) (c := c) (p := p))
  refine ⟨?_, ?_⟩
  · rw [taskPreemptions_yieldCore hp, ← hm.preemptions]
    rfl
  · have hdis := hm.dispatches
    rw [← hbusy, UInt32.ofNat_add] at hdis
    show UInt32.ofNat m.dispatches = m.preemptions + 1 + _ + _
    rw [hdis, yieldCore_completedTasks]
    show _ + _ + (_ + 1) = _
    ac_rfl

/-- A task that finishes is counted as completed. -/
theorem counts_finish (hc : m.runningTasks c = some p) (hm : Counts w m) :
    Counts w ((m.charge q c p).finish c p) := by
  have hbusy := card_busyCores_clear hc (finish_runningTasks (m.charge q c p) c p)
  refine ⟨?_, ?_⟩
  · show m.preemptions = _
    rw [hm.preemptions, taskPreemptions, taskPreemptions]
    refine Finset.sum_congr rfl fun r _ => ?_
    rw [Task.congrLedger Task.preemptionCount ledger_finish]
    split <;> exact preemptionCount_charge.symm
  · have hdis := hm.dispatches
    rw [← hbusy, UInt32.ofNat_add] at hdis
    show UInt32.ofNat m.dispatches = m.preemptions
      + UInt32.ofNat (m.completedTasks ++ [p]).length + _
    rw [hdis, List.length_append, UInt32.ofNat_add]
    show _ + _ + (_ + 1) = _ + (_ + 1) + _
    ac_rfl

theorem counts_enqueue (hm : Counts w m) : Counts w (m.enqueue q p) := by
  refine ⟨?_, hm.dispatches⟩
  show m.preemptions = _
  rw [hm.preemptions, taskPreemptions, taskPreemptions]
  exact Finset.sum_congr rfl fun r _ => preemptionCount_enqueue.symm

/-- Handling an event keeps the counts. -/
theorem Move.counts (h : Move cfg slot m e m')
    (hadded : ∀ c p, m.runningTasks c = some p → p ∈ w.added) (hm : Counts w m) :
    Counts w m' := by
  have hpop : Counts w (m.pop e) := ⟨hm.preemptions, hm.dispatches⟩
  cases h with
  | skip => exact hpop
  | queued => exact counts_enqueue hpop
  | woken _ hidle hn => exact hn.keepsCounts hidle (counts_enqueue hpop)
  | @preempted c p _ _ hrun _ _ hn =>
    have hcur : ((m.pop e).enqueue (slot c) e.task).runningTasks c = some p := hrun
    have hyield := counts_yieldCore (q := slot c) (hadded c p hrun) hcur (counts_enqueue hpop)
    refine hn.keepsCounts ?_ ⟨hyield.preemptions, hyield.dispatches⟩
    rw [countSwitch_runningTasks, yieldCore_runningTasks, setAt_self]
  | expired _ hrun hn =>
    refine hn.keepsCounts (by rw [settle_runningTasks, setAt_self]) ?_
    rw [settle_eq]
    split
    · exact counts_finish hrun hpop
    · exact counts_yieldCore (hadded _ _ hrun) hrun hpop

/-- No arrival preempts a core in the step. -/
def Uninterrupted (m : Machine σ Q n) (e : Event n) (m' : Machine σ Q n) : Prop :=
  e.type = .arrival → ∀ c p x, ¬ Charges m m' c p x

/-- Handling an event counts a switch for every dispatch, if no core is preempted. -/
theorem Move.contextSwitches (h : Move cfg slot m e m') (hun : Uninterrupted m e m')
    (hm : m.contextSwitches = UInt32.ofNat m.dispatches) :
    m'.contextSwitches = UInt32.ofNat m'.dispatches := by
  have hnext : ∀ {m₁ : Machine σ Q n} {c : Fin n}, Next cfg slot c m₁ m' →
      m₁.runningTasks c = none → m₁.contextSwitches = m.contextSwitches →
      m₁.dispatches = m.dispatches → m'.contextSwitches = UInt32.ofNat m'.dispatches := by
    intro m₁ c hn hc hsame hdis
    obtain ⟨-, -, k, hdis', hsw, -⟩ := hn.counts hc
    rw [hsw, hdis', hsame, hdis, hm, UInt32.ofNat_add]
  cases h with
  | skip => exact hm
  | queued => exact hm
  | woken _ hidle hn => exact hnext hn hidle rfl rfl
  | @preempted c p _ harr _ _ _ hn =>
    obtain ⟨new, hnew⟩ := hn.history
    refine absurd ⟨new ++ [.charged c p (e.time - m.lastEventTime c)], ?_, by simp⟩
      (hun harr c p (e.time - m.lastEventTime c))
    rw [hnew, List.append_assoc]
    rfl
  | expired _ hrun hn =>
    refine hnext hn (by rw [settle_runningTasks, setAt_self]) ?_ ?_
    · rw [settle_eq]
      split <;> rfl
    · rw [dispatches, settle_history]
      rfl

/-! ## Runs -/

section Runs

variable [Fintype Q] [NeZero n] {schedulers : Q → σ}

theorem counts_of_reachable (hempty : ∀ q, readyTasks (schedulers q) = [])
    (h : Lts.Reachable (Step cfg slot) (init schedulers w) m) : Counts w m := by
  refine h.induction (I := Counts w) ⟨?_, ?_⟩ ?_
  · exact (Finset.sum_eq_zero fun p _ => rfl).symm
  · have hidle : (init schedulers w : Machine σ Q n).busyCores = ∅ := by simp [busyCores, init]
    rw [hidle]
    rfl
  · intro s e t hs hm hstep
    refine hstep.2.2.counts (fun c p hc => ?_) hm
    -- a task on a core has been added
    have hplaces := places_le_count hempty hs p
    have hcores : 0 < (s.coresOf p).card := Finset.card_pos.2 ⟨c, by simpa [coresOf] using hc⟩
    rw [places] at hplaces
    exact List.count_pos_iff.1 (by omega)

omit [Fintype Q] in
theorem contextSwitches_of_reachable
    (h : Lts.Reachable (fun m e m' => Step cfg slot m e m' ∧ Uninterrupted m e m')
      (init schedulers w) m) : m.contextSwitches = UInt32.ofNat m.dispatches := by
  refine h.induction (I := fun m : Machine σ Q n =>
    m.contextSwitches = UInt32.ofNat m.dispatches) rfl ?_
  intro s e t _ hm hstep
  exact hstep.1.2.2.contextSwitches hstep.2 hm

end Runs

end Machine

/-! ## The two simulators -/

open Machine

theorem Simulator.uninterrupted {σ : Type} [Scheduler σ] [LawfulScheduler σ] {n : ℕ}
    {cfg : SimConfig} {s s' : Simulator σ n} {e : Event n} (h : Simulator.Step cfg s e s')
    (hv : s.victim e = none) : Uninterrupted s e s' := by
  intro harr c p x hc
  rw [((Simulator.turn_of_step h).victim harr hc).1] at hv
  cases hv

theorem MultiCoreSimulator.uninterrupted {σ : Type} [Scheduler σ] [LawfulScheduler σ] {n : ℕ}
    [NeZero n] {cfg : MultiConfig} {s s' : MultiCoreSimulator σ n} {e : Event n}
    (h : MultiCoreSimulator.Step cfg s e s') (hv : s.victim e = none) :
    Uninterrupted s.toMachine e s'.toMachine := by
  intro harr c p x hc
  rw [((MultiCoreSimulator.turn_of_step h).victim harr hc).1] at hv
  cases hv

/-- **The switch counters count each switch once**, in every run of either
simulator in which no arrival preempts a core. -/
theorem switchCounters {n : ℕ} [NeZero n] (kind : SchedulerKind) (w : Workload) :
    (∀ (cfg : SimConfig) (s : Simulator kind.State n),
      Lts.Reachable (fun s e s' => Simulator.Step cfg s e s' ∧ s.victim e = none)
        (Simulator.init kind.make w) s →
      s.preemptions = s.taskPreemptions w ∧ s.contextSwitches = UInt32.ofNat s.dispatches ∧
        s.contextSwitches = s.preemptions + UInt32.ofNat s.completedTasks.length
          + UInt32.ofNat s.busyCores.card) ∧
    (∀ (balancer : LoadBalancer) (cfg : MultiConfig) (s : MultiCoreSimulator kind.State n),
      Lts.Reachable (fun s e s' => MultiCoreSimulator.Step cfg s e s' ∧ s.victim e = none)
        (MultiCoreSimulator.init kind.make balancer w) s →
      s.preemptions = s.taskPreemptions w ∧ s.contextSwitches = UInt32.ofNat s.dispatches ∧
        s.contextSwitches = s.preemptions + UInt32.ofNat s.completedTasks.length
          + UInt32.ofNat s.busyCores.card) := by
  constructor
  · intro cfg s hs
    have hcounts := counts_of_reachable (fun _ => kind.readyTasks_make)
      (hs.simulate (f := id) fun _ _ _ h => Simulator.step_machine h.1)
    have hswitch := contextSwitches_of_reachable (hs.simulate (f := id) fun _ _ _ h =>
      ⟨Simulator.step_machine h.1, Simulator.uninterrupted h.1 h.2⟩)
    exact ⟨hcounts.preemptions, hswitch, hswitch.trans hcounts.dispatches⟩
  · intro balancer cfg s hs
    have hcounts := counts_of_reachable (fun _ => kind.readyTasks_make)
      (hs.simulate (f := MultiCoreSimulator.toMachine) fun _ _ _ h =>
        MultiCoreSimulator.step_machine h.1)
    have hswitch := contextSwitches_of_reachable
      (hs.simulate (f := MultiCoreSimulator.toMachine) fun _ _ _ h =>
        ⟨MultiCoreSimulator.step_machine h.1, MultiCoreSimulator.uninterrupted h.1 h.2⟩)
    exact ⟨hcounts.preemptions, hswitch, hswitch.trans hcounts.dispatches⟩

/-- The pair under Stride, which never preempts. -/
theorem switchCounters_pair :
    let cfg : MultiConfig := { stopTime := 50 }
    let kind := SchedulerKind.stride {}
    let single := Simulator.turns (n := 1) cfg.toSimConfig 4 (Simulator.init kind.make .pair)
    let multi := MultiCoreSimulator.turns (n := 2) cfg 1
      (MultiCoreSimulator.init kind.make .leastLoaded .pair)
    single.preemptions = single.taskPreemptions .pair ∧
      multi.contextSwitches = UInt32.ofNat multi.dispatches := by
  intro cfg kind single multi
  have hstep : MultiCoreSimulator.Step cfg (MultiCoreSimulator.init kind.make .leastLoaded .pair)
      ⟨.arrival, 0, 0, 0⟩ multi := ⟨by decide +kernel, by decide +kernel, rfl⟩
  exact ⟨((switchCounters kind .pair).1 cfg.toSimConfig single
      (Simulator.reachable_turns_of _ 4 _ (by decide +kernel))).1,
    ((switchCounters kind .pair).2 .leastLoaded cfg multi
      (Lts.Reachable.refl.tail ⟨hstep, by decide +kernel⟩)).2.1⟩

/-- **A preemption is counted twice**, by `preempt_core` and by `dispatch_next`:
when task 1 of the pair has preempted task 0, a task was put on the core twice, and
three switches are counted. -/
theorem Simulator.switchCounters_false :
    let cfg : SimConfig := { stopTime := 50 }
    ¬ ∀ s : Simulator (SchedulerKind.eevdf {}).State 1,
      Lts.Reachable (Step cfg) (init (SchedulerKind.eevdf {}).make .pair) s →
      s.contextSwitches = UInt32.ofNat s.dispatches := by
  intro cfg h
  exact absurd (h _ (reachable_turns cfg 2 _)) (by decide +kernel)

end SchedSim
