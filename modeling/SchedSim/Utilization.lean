import SchedSim.Completion
import SchedSim.Latency

/-!
# Utilization

`Metrics::calculate` divides the execution times of the completed tasks by the time that all
cores had.  A core cannot serve more than the time that has passed, but a task counts as done
when up to a microsecond of it is left, and its execution time is counted in full.

* `Machine.Capacity` — the charges on a core add up to no more than its time.
* `Machine.sum_served_le` — so do the charges of the completed tasks, over all cores.
* `utilization` — the utilization exceeds one by the tolerance of the completed tasks at most.
* `Simulator.utilization_false` — and it can exceed one.
-/

namespace SchedSim

namespace Machine

variable {σ Q : Type} [Scheduler σ] [DecidableEq Q] [LawfulScheduler σ] {n : ℕ}
  {m m' : Machine σ Q n} {e : Event n} {q b : Q} {c : Fin n} {p : TaskPtr} {cfg : SimConfig}
  {slot : Fin n → Q} {schedulers : Q → σ} {w : Workload} {x : ℚ}

/-! ## The time of one core -/

/-- What an entry of the history charges on a core. -/
def chargedOn (c : Fin n) : Action n → ℚ
  | .charged c' _ x => if c' = c then x else 0
  | .dispatched .. => 0

omit [Scheduler σ] [DecidableEq Q] [LawfulScheduler σ] in
/-- The instant up to which the time of a core has been charged or was idle. -/
def chargedUpTo (m : Machine σ Q n) (c : Fin n) : ℚ :=
  if (m.runningTasks c).isSome then m.lastEventTime c else m.currentTime

omit [Scheduler σ] [DecidableEq Q] [LawfulScheduler σ] in
/-- The charges on a core add up to no more than its time. -/
def Capacity (m : Machine σ Q n) : Prop :=
  ∀ c, (m.history.map (chargedOn c)).sum ≤ m.chargedUpTo c

omit [Scheduler σ] [DecidableEq Q] [LawfulScheduler σ] in
theorem chargedUpTo_idle (h : m.runningTasks c = none) : m.chargedUpTo c = m.currentTime := by
  rw [chargedUpTo, h]
  rfl

omit [Scheduler σ] [DecidableEq Q] [LawfulScheduler σ] in
theorem chargedUpTo_busy (h : m.runningTasks c = some p) : m.chargedUpTo c = m.lastEventTime c := by
  rw [chargedUpTo, h]
  rfl

omit [Scheduler σ] [DecidableEq Q] [LawfulScheduler σ] in
theorem Capacity.pop (h : m.Capacity) (hnow : m.currentTime ≤ e.time) : (m.pop e).Capacity := by
  intro c
  refine (h c).trans ?_
  cases hc : m.runningTasks c with
  | none =>
    have hc' : (m.pop e).runningTasks c = none := hc
    rw [chargedUpTo_idle hc, chargedUpTo_idle hc']
    exact hnow
  | some p =>
    have hc' : (m.pop e).runningTasks c = some p := hc
    rw [chargedUpTo_busy hc, chargedUpTo_busy hc']
    exact le_rfl

omit [Scheduler σ] [DecidableEq Q] [LawfulScheduler σ] in
/-- When a task is taken off its core, the time since its dispatch is charged. -/
theorem Capacity.release (h : m.Capacity) (hc : m.runningTasks c = some p)
    (hhist : m'.history = .charged c p (m.elapsed c) :: m.history)
    (hrun : m'.runningTasks = setAt m.runningTasks c none)
    (hlast : m'.lastEventTime = m.lastEventTime) (hnow : m'.currentTime = m.currentTime) :
    m'.Capacity := by
  intro d
  rw [hhist, List.map_cons, List.sum_cons, chargedOn]
  by_cases hd : c = d
  · subst hd
    have hle := h c
    have hidle : m'.runningTasks c = none := by rw [hrun, setAt_self]
    rw [chargedUpTo_busy hc] at hle
    rw [if_pos rfl, chargedUpTo_idle hidle, hnow, elapsed]
    linarith
  · rw [if_neg hd, zero_add, chargedUpTo, hrun, setAt_of_ne _ _ _ (Ne.symm hd), hlast, hnow]
    exact h d

omit [LawfulScheduler σ] in
theorem Capacity.dispatch (h : m.Capacity) (hc : m.runningTasks c = none) :
    (m.dispatch cfg q c p x).Capacity := by
  intro d
  rw [dispatch_history, List.map_cons, List.sum_cons, chargedOn, zero_add]
  by_cases hd : d = c
  · subst hd
    have hle := h d
    rw [chargedUpTo_idle hc] at hle
    rw [chargedUpTo, dispatch_runningTasks, setAt_self, dispatch_lastEventTime, setAt_self]
    exact hle
  · rw [chargedUpTo, dispatch_runningTasks, setAt_of_ne _ _ _ hd, dispatch_lastEventTime,
      setAt_of_ne _ _ _ hd]
    exact h d

omit [LawfulScheduler σ] in
theorem Next.capacity (hn : Next cfg slot c m m') (hc : m.runningTasks c = none)
    (h : m.Capacity) : m'.Capacity := by
  cases hn with
  | idle => rwa [clearCore_eq_self m c hc]
  | own => exact h.dispatch hc
  | @steal b stolen p x =>
    have hmig : (m.migrate b (slot c) stolen).Capacity := h
    exact hmig.dispatch hc

omit [LawfulScheduler σ] in
/-- No step charges a core more than the time that has passed on it. -/
theorem Move.capacity (hmove : Move cfg slot m e m') (hnow : m.currentTime ≤ e.time)
    (h : m.Capacity) : m'.Capacity := by
  have hpop := h.pop hnow
  have harrived : ∀ q, ((m.pop e).enqueue q e.task).Capacity := fun _ => hpop
  cases hmove with
  | skip => exact hpop
  | queued => exact harrived _
  | woken _ hidle hn => exact hn.capacity hidle (harrived _)
  | @preempted c p _ _ hrun _ _ hn =>
    have hyield : ((((m.pop e).enqueue (slot c) e.task).yieldCore
        (slot c) c p).countSwitch).Capacity :=
      (harrived (slot c)).release hrun rfl rfl rfl rfl
    refine hn.capacity ?_ hyield
    rw [countSwitch_runningTasks, yieldCore_runningTasks, setAt_self]
  | expired _ hrun hn =>
    have hsettle : ((m.pop e).settle (slot e.coreId) e.coreId e.task).Capacity :=
      hpop.release hrun (settle_history _ _ _ _) (settle_runningTasks _ _ _ _)
        (settle_lastEventTime _ _ _ _) (settle_currentTime _ _ _ _)
    refine hn.capacity ?_ hsettle
    rw [settle_runningTasks, setAt_self]

/-! ## The time of all cores -/

omit [Scheduler σ] [DecidableEq Q] [LawfulScheduler σ] in
/-- No charge is negative. -/
def ChargesNonneg (m : Machine σ Q n) : Prop :=
  ∀ c p x, Action.charged c p x ∈ m.history → 0 ≤ x

theorem Move.chargesNonneg (hmove : Move cfg slot m e m') (he : m.events.IsNext e) (hm : m.Books)
    (h : m.ChargesNonneg) : m'.ChargesNonneg := by
  intro c p x hx
  obtain ⟨new, hnew⟩ := hmove.history
  rw [hnew, List.mem_append] at hx
  rcases hx with hx | hx
  · have hc : Charges m m' c p x := ⟨new, hnew, hx⟩
    rcases hmove.work with ⟨hnone, -⟩ | ⟨c', p', hrun, -, honly, -⟩
    · exact absurd hc (hnone c p x)
    · obtain ⟨rfl, rfl, rfl⟩ := honly c p x hc
      exact sub_nonneg.2 (((hm.booked p).running c hrun).past.trans (hm.clock e he.1))
  · exact h c p x hx

/-- What the tasks of a list have been charged is charged on the cores. -/
theorem sum_chargedTo_le {ps : List TaskPtr} (hnodup : ps.Nodup) {history : List (Action n)}
    (hnonneg : ∀ c p x, Action.charged c p x ∈ history → 0 ≤ x) :
    (ps.map fun p => (history.map (chargedTo p)).sum).sum
      ≤ ∑ c, (history.map (chargedOn c)).sum := by
  induction history with
  | nil => simp
  | cons a history ih =>
    have htail := ih fun c p x hx => hnonneg c p x (List.mem_cons_of_mem a hx)
    simp only [List.map_cons, List.sum_cons, List.sum_map_add, Finset.sum_add_distrib]
    refine add_le_add ?_ htail
    cases a with
    | dispatched => simp [chargedTo, chargedOn]
    | charged c p x =>
      have hx : 0 ≤ x := hnonneg c p x List.mem_cons_self
      rw [← List.sum_toFinset _ hnodup]
      simp only [chargedTo, chargedOn, Finset.sum_ite_eq, Finset.mem_univ, if_true]
      split
      · exact le_rfl
      · exact hx

/-! ## Runs -/

section Runs

variable [Fintype Q] [NeZero n] (hempty : ∀ q, readyTasks (schedulers q) = []) (hvalid : w.Valid)
  (h : Lts.Reachable (Step cfg slot) (init schedulers w) m)

include hempty hvalid h

theorem capacity_of_reachable : m.Capacity := by
  refine h.induction (I := Capacity) (fun c => le_rfl) ?_
  intro s e t hs ih hstep
  exact hstep.2.2.capacity ((books_of_reachable hempty hvalid hs).clock e hstep.1.1) ih

theorem chargesNonneg_of_reachable : m.ChargesNonneg := by
  refine h.induction (I := ChargesNonneg) ?_ ?_
  · rintro c p x ⟨⟩
  · intro s e t hs ih hstep
    exact hstep.2.2.chargesNonneg hstep.1 (books_of_reachable hempty hvalid hs) ih

theorem chargedUpTo_le (c : Fin n) : m.chargedUpTo c ≤ m.currentTime := by
  rw [chargedUpTo]
  split
  next hrun =>
    obtain ⟨p, hp⟩ := Option.isSome_iff_exists.1 hrun
    exact (((books_of_reachable hempty hvalid h).booked p).running c hp).past
  next => exact le_rfl

/-- The cores have served the completed tasks within the time that has passed. -/
theorem sum_served_le :
    (m.completedTasks.map fun p => (m.heap p).served).sum ≤ n * m.currentTime := by
  have htally := tally_of_reachable hempty hvalid h
  calc (m.completedTasks.map fun p => (m.heap p).served).sum
      = (m.completedTasks.map fun p => (m.history.map (chargedTo p)).sum).sum :=
        congrArg List.sum (List.map_congr_left fun p _ => htally p)
    _ ≤ ∑ c, (m.history.map (chargedOn c)).sum :=
        sum_chargedTo_le (nodup_completedTasks hempty h)
          (chargesNonneg_of_reachable hempty hvalid h)
    _ ≤ ∑ _c : Fin n, m.currentTime := Finset.sum_le_sum fun c _ =>
        (capacity_of_reachable hempty hvalid h c).trans (chargedUpTo_le hempty hvalid h c)
    _ = n * m.currentTime := by simp

/-- The execution times of the completed tasks, up to the tolerance of `is_completed`. -/
theorem sum_executionTime_le : (m.completed.map Task.executionTime).sum
    ≤ n * m.currentTime + m.completed.length / 1000 := by
  have hserved := sum_served_le hempty hvalid h
  have hterm : ∀ p ∈ m.completedTasks,
      (m.heap p).executionTime ≤ (m.heap p).served + 1 / 1000 := by
    intro p hp
    have hdone := ((books_of_reachable hempty hvalid h).booked p).completed hp
    rw [Task.served]
    linarith [hdone.finished]
  have hsum := List.sum_le_sum hterm
  rw [List.sum_map_add, List.map_const', List.sum_replicate, nsmul_eq_mul] at hsum
  rw [completed, List.map_map, List.length_map]
  refine hsum.trans ?_
  linarith

omit hempty hvalid [LawfulScheduler σ] [Fintype Q] in
/-- Tasks are completed before the stop time, so `run` does not set the clock back. -/
theorem currentTime_le_returned (hne : m.completedTasks ≠ []) :
    m.currentTime ≤ (m.returned cfg).currentTime := by
  have hstop : m.completedTasks = [] ∨ m.currentTime ≤ cfg.stopTime := by
    refine h.induction (I := fun m : Machine σ Q n =>
      m.completedTasks = [] ∨ m.currentTime ≤ cfg.stopTime) (.inl rfl) ?_
    intro s e t _ _ hstep
    rw [hstep.2.2.currentTime]
    exact .inr hstep.2.1
  rw [returned]
  dsimp only
  split
  · exact le_rfl
  · exact hstop.resolve_left hne

/-- The utilization is positive, and exceeds one by no more than the work that the
completed tasks may have left over. -/
theorem utilization_bounds (hcores : n < 2 ^ 32) (hne : m.completedTasks ≠ [])
    (hpos : 0 < (m.returned cfg).currentTime) :
    0 < (m.returned cfg).metrics.utilization ∧ (m.returned cfg).metrics.utilization
      ≤ 1 + m.completed.length / 1000 / ((m.returned cfg).currentTime * n) := by
  have hne' : m.completed ≠ [] := by rwa [completed, ne_eq, List.map_eq_nil_iff]
  have hnum : (max 1 (UInt32.ofNat n)).toNat = n := by
    have hone : 1 ≤ n := NeZero.one_le
    have hn : (UInt32.ofNat n).toNat = n := UInt32.toNat_ofNat_of_lt' hcores
    have hle : (1 : UInt32) ≤ UInt32.ofNat n := by
      rw [UInt32.le_iff_toNat_le, hn]
      exact hone
    have hmax : max 1 (UInt32.ofNat n) = UInt32.ofNat n := if_pos hle
    rw [hmax, hn]
  have hutil : (m.returned cfg).metrics.utilization
      = (m.completed.map Task.executionTime).sum / ((m.returned cfg).currentTime * n) := by
    have hcalc : (Metrics.calculate {} m.completed (m.returned cfg).currentTime
        (UInt32.ofNat n)).utilization = (m.completed.map Task.executionTime).sum /
        ((m.returned cfg).currentTime * (max 1 (UInt32.ofNat n)).toNat) :=
      Metrics.utilization_calculate hne' hpos
    rw [hnum] at hcalc
    exact hcalc
  have hn : (0 : ℚ) < n := by exact_mod_cast NeZero.pos n
  have hden : 0 < (m.returned cfg).currentTime * n := mul_pos hpos hn
  rw [hutil]
  constructor
  · refine div_pos (List.sum_pos _ (fun x hx => ?_) (by simpa using hne')) hden
    obtain ⟨t, ht, rfl⟩ := List.mem_map.1 hx
    obtain ⟨p, hp, rfl⟩ := List.mem_map.1 ht
    rw [executionTime_eq h]
    exact (hvalid p (mem_added_of_completed hempty h hp)).2
  · have hsum := sum_executionTime_le hempty hvalid h
    have hclock := mul_le_mul_of_nonneg_left (currentTime_le_returned h hne) hn.le
    rw [div_le_iff₀ hden, add_mul, one_mul, div_mul_cancel₀ _ hden.ne']
    linarith

end Runs

end Machine

/-! ## The two simulators -/

open Machine

/-- **Utilization is positive and hardly exceeds one**, in every run of either simulator:
the excess is at most one thousandth of a millisecond for each completed task, over the time
of all cores.  The number of cores is an `int`. -/
theorem utilization {n : ℕ} [NeZero n] (hcores : n < 2 ^ 31) (kind : SchedulerKind)
    (w : Workload) (hvalid : w.Valid) :
    (∀ (cfg : SimConfig) (s : Simulator kind.State n),
      Lts.Reachable (Simulator.Step cfg) (Simulator.init kind.make w) s → s.Stops cfg →
      s.completedTasks ≠ [] → 0 < (s.returned cfg).currentTime →
      0 < (s.returned cfg).metrics.utilization ∧ (s.returned cfg).metrics.utilization
        ≤ 1 + s.completed.length / 1000 / ((s.returned cfg).currentTime * n)) ∧
    (∀ (balancer : LoadBalancer) (cfg : MultiConfig) (s : MultiCoreSimulator kind.State n),
      Lts.Reachable (MultiCoreSimulator.Step cfg)
        (MultiCoreSimulator.init kind.make balancer w) s → s.Stops cfg.toSimConfig →
      s.completedTasks ≠ [] → 0 < (s.returned cfg.toSimConfig).currentTime →
      0 < (s.returned cfg.toSimConfig).metrics.utilization ∧
        (s.returned cfg.toSimConfig).metrics.utilization
          ≤ 1 + s.completed.length / 1000 / ((s.returned cfg.toSimConfig).currentTime * n)) := by
  have hcores' : n < 2 ^ 32 := hcores.trans (by norm_num)
  constructor
  · intro cfg s hs _ hne hpos
    exact utilization_bounds (fun _ => kind.readyTasks_make) hvalid
      (hs.simulate (f := id) fun _ _ _ => Simulator.step_machine) hcores' hne hpos
  · intro balancer cfg s hs _ hne hpos
    exact utilization_bounds (fun _ => kind.readyTasks_make) hvalid
      (hs.simulate (f := MultiCoreSimulator.toMachine) fun _ _ _ => MultiCoreSimulator.step_machine)
      hcores' hne hpos

/-- The pair has run to its end, on one core and on two. -/
theorem utilization_pair :
    let cfg : MultiConfig := { stopTime := 50 }
    let kind := SchedulerKind.stride {}
    let single := Simulator.turns (n := 1) cfg.toSimConfig 5 (Simulator.init kind.make .pair)
    let multi := MultiCoreSimulator.turns (n := 2) cfg 5
      (MultiCoreSimulator.init kind.make .leastLoaded .pair)
    0 < (single.returned cfg.toSimConfig).metrics.utilization ∧
      0 < (multi.returned cfg.toSimConfig).metrics.utilization := by
  intro cfg kind single multi
  exact ⟨((utilization (by norm_num) kind .pair (by decide +kernel)).1 cfg.toSimConfig single
      (Simulator.reachable_turns _ 5 _) (by decide +kernel) (by decide +kernel)
      (by decide +kernel)).1,
    ((utilization (by norm_num) kind .pair (by decide +kernel)).2 _ cfg multi
      (MultiCoreSimulator.reachable_turns _ 5 _) (by decide +kernel) (by decide +kernel)
      (by decide +kernel)).1⟩

/-- **It can exceed one.**  A task of 5.0005 ms is done after one quantum of 5 ms. -/
theorem Simulator.utilization_false :
    let cfg : SimConfig := { stopTime := 50 }
    let w := Workload.ofList [⟨0, 0, 50005 / 10000, 0⟩]
    ¬ ∀ s : Simulator (SchedulerKind.stride {}).State 1,
      Lts.Reachable (Step cfg) (init (SchedulerKind.stride {}).make w) s → s.Stops cfg →
      s.completedTasks ≠ [] → 0 < (s.returned cfg).currentTime →
      0 < (s.returned cfg).metrics.utilization ∧ (s.returned cfg).metrics.utilization ≤ 1 := by
  intro cfg w h
  have := (h _ (reachable_turns cfg 2 _) (by decide +kernel) (by decide +kernel)
    (by decide +kernel)).2
  exact absurd this (by decide +kernel)

end SchedSim
