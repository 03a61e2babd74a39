import SchedSim.WorkDone

/-!
# How long a run takes

On the shared queue a core is idle only while no task is ready, whatever the scheduler.  So as long
as a task is in the system, all cores are busy unless it runs itself.  This bounds how long the task
can stay, and how much later it is completed than in any other run with the same tasks.

* `Machine.busy_or_running` — the cores that a task in the system leaves idle.
* `Machine.credit_run` — what the cores have done while a task was in the system.
* `timeInSystem` and `makespan` — so a run on the shared queue takes at most about twice as long as
  any run of either simulator on as many cores.
-/

namespace SchedSim

namespace Machine

variable {σ Q : Type} [Scheduler σ] {n : ℕ}

omit [Scheduler σ] in
/-- The CPU time that all tasks have got, with that of one task counted as often as there are cores,
over what the cores could have given.  It grows while the task is in the system. -/
def credit (m : Machine σ Q n) (w : Workload) (p : TaskPtr) (time : ℚ) : ℚ :=
  m.delivered w time + (n - 1) * m.ran p time - n * time

section Runs

variable [DecidableEq Q] [Fintype Q] [LawfulScheduler σ] [NeZero n] {m m' : Machine σ Q n}
  {e : Event n} {p : TaskPtr} {cfg : SimConfig} {slot : Fin n → Q} {schedulers : Q → σ}
  {w : Workload} {time u v : ℚ}

section Times

variable (hempty : ∀ q, readyTasks (schedulers q) = []) (hids : w.DistinctIds) (hvalid : w.Valid)
  (h : Lts.Reachable (Step cfg slot) (init schedulers w) m)

include hempty hvalid h

/-- An event takes no time. -/
theorem ran_step (hstep : Step cfg slot m e m') (p : TaskPtr) :
    m'.ran p e.time = m.ran p e.time := by
  rw [ran_eq_dueTo (tally_of_reachable hempty hvalid (h.tail hstep)),
    ran_eq_dueTo (tally_of_reachable hempty hvalid h), hstep.2.2.dueTo]

theorem completionTime_le (hp : p ∈ m.completedTasks) :
    (m.heap p).completionTime ≤ m.currentTime := by
  refine h.induction (I := fun m : Machine σ Q n =>
    ∀ p ∈ m.completedTasks, (m.heap p).completionTime ≤ m.currentTime) ?_ ?_ p hp
  · intro p hp
    cases hp
  · intro s e t hs ih hstep p hp
    rw [hstep.2.2.currentTime]
    rcases hstep.2.2.completed_cases p with ⟨hold, hsame⟩ | ⟨-, -, -, hnow⟩
    · rw [hsame]
      exact (ih p (hold hp)).trans ((books_of_reachable hempty hvalid hs).clock e hstep.1.1)
    · exact hnow.le

include hids

theorem ran_nonneg (hp : p ∈ w.added) (hnow : m.currentTime ≤ time) : 0 ≤ m.ran p time := by
  have hone : m.places p = 1 := by
    rw [places_eq_count hempty hids h, List.count_eq_one_of_mem w.nodup hp]
  have hbooks := books_of_reachable hempty hvalid h
  have haccounted := accounted_of_reachable hempty hids hvalid h hp
  by_cases harr : p ∈ m.events.arrivals
  · exact (times_of_pending (hbooks.booked p) hone.le (announced_of_reachable h) harr time).2.2.ge
  by_cases hdone : p ∈ m.completedTasks
  · rw [(times_of_completed hone.le hdone time).2.2]
    exact ((hbooks.booked p).completed hdone).balanced.served
  rcases haccounted.live harr hdone with ⟨q, hq⟩ | ⟨c, hc⟩
  · have hwaiting := waiting_pos.2 ⟨q, hq⟩
    rw [places] at hone
    rw [ran_eq (by omega)]
    exact ((hbooks.booked p).waiting q hq).balanced.served
  · obtain ⟨d, hd, hran⟩ := ran_eq_of_running (m := m) (p := p) (by
      have : 0 < (m.coresOf p).card := Finset.card_pos.2 ⟨c, by simpa [coresOf] using hc⟩
      rw [places] at hone
      omega) time
    have hrun := (hbooks.booked p).running d hd
    have hserved := hrun.balanced.served
    have hpast := hrun.past
    rw [hran]
    linarith

theorem delivered_nonneg (hnow : m.currentTime ≤ time) : 0 ≤ m.delivered w time := by
  apply List.sum_nonneg
  intro x hx
  obtain ⟨p, hp, rfl⟩ := List.mem_map.1 hx
  exact ran_nonneg hempty hids hvalid h hp hnow

/-- A task needs its execution time, but for the tolerance, between its arrival and its
completion. -/
theorem arrivalTime_add_executionTime_le (hp : p ∈ m.completedTasks) :
    (w.args p).arrivalTime + (w.args p).executionTime ≤ (m.heap p).completionTime + 1 / 1000 := by
  have hadded := mem_added_of_completed hempty h hp
  obtain ⟨hbalance, -, hleft⟩ := (accounted_of_reachable hempty hids hvalid h hadded).completed hp
  have hwaited := (((books_of_reachable hempty hvalid h).booked p).completed hp).balanced.waited
  rw [← arrivalTime_eq h, ← executionTime_eq h]
  linarith

/-- Not more is delivered than the tasks need. -/
theorem delivered_le_work (hforce : m.InForce time) :
    m.delivered w time ≤ (w.added.map fun p => (w.args p).executionTime).sum := by
  apply List.sum_le_sum
  intro p hp
  refine (ran_le hempty hids hvalid h hforce hp le_rfl).trans ?_
  split
  · exact (hvalid p hp).2.le
  · exact le_rfl

omit hids in
/-- The cores have spent the time that the completed tasks needed. -/
theorem work_le (hall : ∀ p ∈ w.added, p ∈ m.completedTasks) :
    (w.added.map fun p => (w.args p).executionTime).sum
      ≤ n * m.currentTime + w.added.length / 1000 := by
  have hsub : m.completedTasks ⊆ w.added := fun p hp => mem_added_of_completed hempty h hp
  have hperm : m.completedTasks.Perm w.added :=
    (List.perm_ext_iff_of_nodup (nodup_completedTasks hempty h) w.nodup).2
      fun p => ⟨fun hp => hsub hp, hall p⟩
  have hsum : (m.completed.map Task.executionTime).sum
      = (w.added.map fun p => (w.args p).executionTime).sum := by
    rw [completed, List.map_map, ← (hperm.map _).sum_eq]
    exact congrArg List.sum (List.map_congr_left fun p _ => executionTime_eq h p)
  have hlength : m.completed.length = w.added.length := by
    rw [completed, List.length_map, hperm.length_eq]
  rw [← hsum, ← hlength]
  exact sum_executionTime_le hempty hvalid h

end Times

/-! ## The shared queue -/

section Shared

variable [Subsingleton Q] (hempty : ∀ q, readyTasks (schedulers q) = []) (hids : w.DistinctIds)
  (hvalid : w.Valid)

include hempty hids hvalid

/-- While a task is in the system, all cores are busy, or it runs and one is. -/
theorem busy_or_running (h : Lts.Reachable (Step cfg slot) (init schedulers w) m)
    (hp : p ∈ w.added) (harr : p ∉ m.events.arrivals) (hlive : p ∉ m.completedTasks) :
    m.numberRunning = n ∨ (m.coresOf p).card = 1 ∧ 0 < m.numberRunning := by
  have hone : m.places p = 1 := by
    rw [places_eq_count hempty hids h, List.count_eq_one_of_mem w.nodup hp]
  rcases (accounted_of_reachable hempty hids hvalid h hp).live harr hlive with ⟨q, hq⟩ | ⟨c, hc⟩
  · left
    have hbusy : ∀ c, (m.runningTasks c).isSome := by
      intro c
      by_contra hno
      have hidle := idleEmpty_of_reachable hempty h c (Option.not_isSome_iff_eq_none.1 hno)
      rw [Subsingleton.elim (slot c) q] at hidle
      simp [hidle] at hq
    simp [numberRunning, hbusy]
  · right
    have hcores : 0 < (m.coresOf p).card := Finset.card_pos.2 ⟨c, by simpa [coresOf] using hc⟩
    rw [places] at hone
    refine ⟨by omega, Finset.card_pos.2 ⟨c, ?_⟩⟩
    simp [hc]

/-- Between events the credit does not fall. -/
theorem credit_mono (h : Lts.Reachable (Step cfg slot) (init schedulers w) m)
    (hp : p ∈ w.added) (harr : p ∉ m.events.arrivals) (hlive : p ∉ m.completedTasks)
    (huv : u ≤ v) : m.credit w p u ≤ m.credit w p v := by
  have hcores : (n : ℚ) ≤ m.numberRunning + (n - 1) * (m.coresOf p).card := by
    rcases busy_or_running hempty hids hvalid h hp harr hlive with hall | ⟨hcard, hpos⟩
    · have hn : (1 : ℚ) ≤ n := by exact_mod_cast NeZero.one_le
      have := mul_nonneg (sub_nonneg.2 hn) (Nat.cast_nonneg (α := ℚ) (m.coresOf p).card)
      rw [hall]
      linarith
    · have hpos' : (1 : ℚ) ≤ m.numberRunning := by exact_mod_cast hpos
      rw [hcard]
      push_cast
      linarith
  have hgrow := mul_le_mul_of_nonneg_left hcores (sub_nonneg.2 huv)
  unfold credit
  rw [delivered_add hempty hids h u v, ran_add u v]
  linarith

omit [Subsingleton Q] in
/-- At events it stays. -/
theorem credit_step (h : Lts.Reachable (Step cfg slot) (init schedulers w) m)
    (hstep : Step cfg slot m e m') : m'.credit w p e.time = m.credit w p e.time := by
  unfold credit
  rw [ran_step hempty hvalid h hstep]
  congr 2
  exact congrArg Areas.running (totals_step hempty hids hvalid h hstep)

omit [Subsingleton Q] hids in
theorem le_time_of_run {s t : Machine σ Q n} {es : List (Event n)}
    (hs : Lts.Reachable (Step cfg slot) (init schedulers w) s)
    (hrun : Lts.Run (Step cfg slot) s es t) (hu : ∀ e ∈ s.events, u ≤ e.time) :
    ∀ e ∈ t.events, u ≤ e.time := by
  refine hrun.induction_of_reachable (I := fun t => ∀ e ∈ t.events, u ≤ e.time) hs hu ?_
  intro t e t' ht ih hstep e' he'
  have hclock := (books_of_reachable hempty hvalid (ht.tail hstep)).clock e' he'
  rw [hstep.2.2.currentTime] at hclock
  exact (ih e hstep.1.1).trans hclock

/-- While a task is in the system its credit grows. -/
theorem credit_run {s t : Machine σ Q n} {es : List (Event n)}
    (hs : Lts.Reachable (Step cfg slot) (init schedulers w) s)
    (hrun : Lts.Run (Step cfg slot) s es t) (hp : p ∈ w.added) (harr : p ∉ s.events.arrivals)
    (hlive : p ∉ t.completedTasks) (hu : s.InForce u) (hv : t.InForce v) (huv : u ≤ v) :
    s.credit w p u ≤ t.credit w p v := by
  have harrived : ∀ {t : Machine σ Q n} {es : List (Event n)}, Lts.Run (Step cfg slot) s es t →
      p ∉ t.events.arrivals := by
    intro t es hrun
    refine hrun.induction_of_reachable (I := fun t => p ∉ t.events.arrivals) hs harr ?_
    intro t e t' _ ih hstep hmem
    exact ih (hstep.2.2.arrivals_subset hmem)
  induction hrun generalizing v with
  | nil => exact credit_mono hempty hids hvalid hs hp harr hlive huv
  | @snoc t t' es e hrun hstep ih =>
    have ht := hs.run hrun
    have ht' := ht.tail hstep
    have hlive' : p ∉ t.completedTasks := fun hmem => hlive (hstep.2.2.completedTasks_subset hmem)
    have hforce : t.InForce e.time :=
      ⟨(books_of_reachable hempty hvalid ht).clock e hstep.1.1, hstep.1.2⟩
    have hue := le_time_of_run hempty hvalid hs hrun hu.2 e hstep.1.1
    have hev : e.time ≤ v := hstep.2.2.currentTime ▸ hv.1
    calc s.credit w p u ≤ t.credit w p e.time := ih hlive' hforce hue
      _ = t'.credit w p e.time := (credit_step hempty hids hvalid ht hstep).symm
      _ ≤ t'.credit w p v :=
        credit_mono hempty hids hvalid ht' hp (harrived (hrun.snoc hstep)) hlive hev

/-- Since its arrival it has grown from what the time until then amounts to. -/
theorem credit_since_arrival (h : Lts.Reachable (Step cfg slot) (init schedulers w) m)
    (hp : p ∈ w.added) (harr : p ∉ m.events.arrivals) (hlive : p ∉ m.completedTasks)
    (hforce : m.InForce time) : -(n * (w.args p).arrivalTime) ≤ m.credit w p time := by
  have hnow : -(n * (w.args p).arrivalTime) ≤ m.credit w p m.currentTime := by
    refine h.induction (I := fun m : Machine σ Q n => p ∉ m.events.arrivals →
      p ∉ m.completedTasks → -(n * (w.args p).arrivalTime) ≤ m.credit w p m.currentTime)
      ?_ ?_ harr hlive
    · intro hno
      rw [arrivals_init] at hno
      exact absurd hp hno
    · intro s e t hs ih hstep hno hlive
      have ht := hs.tail hstep
      have hclock := (books_of_reachable hempty hvalid hs).clock e hstep.1.1
      have hnow : t.currentTime = e.time := hstep.2.2.currentTime
      have hlive' : p ∉ s.completedTasks := fun hmem => hlive (hstep.2.2.completedTasks_subset hmem)
      rw [hnow]
      by_cases hpending : p ∈ s.events.arrivals
      · -- the event is the arrival of the task
        have hle := arrivalTime_le hempty hvalid ht hp hno
        have hge := le_arrivalTime hs ⟨hclock, hstep.1.2⟩ hpending
        have hdelivered := delivered_nonneg hempty hids hvalid ht hnow.le
        have hran := ran_nonneg hempty hids hvalid ht hp hnow.le
        have hn : (1 : ℚ) ≤ n := by exact_mod_cast NeZero.one_le
        have hown := mul_nonneg (sub_nonneg.2 hn) hran
        have htime : e.time = (w.args p).arrivalTime := le_antisymm hge (hnow ▸ hle)
        unfold credit
        rw [← htime]
        linarith
      · rw [credit_step hempty hids hvalid hs hstep]
        exact (ih hpending hlive').trans
          (credit_mono hempty hids hvalid hs hp hpending hlive' hclock)
  exact hnow.trans (credit_mono hempty hids hvalid h hp harr hlive hforce.1)

/-- Once it is too late for a task to be in the system, it is completed. -/
theorem completed_of_late (h : Lts.Reachable (Step cfg slot) (init schedulers w) m)
    (hforce : m.InForce time) {finish : ℚ}
    (hwork : (w.added.map fun p => (w.args p).executionTime).sum
      ≤ n * finish + w.added.length / 1000)
    (hp : p ∈ w.added)
    (hown : (w.args p).arrivalTime + (w.args p).executionTime ≤ finish + 1 / 1000)
    (hlate : (2 * n - 1) * finish + (w.args p).arrivalTime + (w.added.length + n - 1) / 1000
      < n * time) : p ∈ m.completedTasks := by
  have hn : (1 : ℚ) ≤ n := by exact_mod_cast NeZero.one_le
  have hexec := (hvalid p hp).2
  by_contra hlive
  by_cases harr : p ∈ m.events.arrivals
  · have hlater := le_arrivalTime h hforce harr
    have hnonneg : 0 ≤ (w.added.map fun p => (w.args p).executionTime).sum := by
      apply List.sum_nonneg
      intro x hx
      obtain ⟨q, hq, rfl⟩ := List.mem_map.1 hx
      exact (hvalid q hq).2.le
    have hshare : (n - 1) * (w.args p).arrivalTime ≤ (n - 1) * (finish + 1 / 1000) :=
      mul_le_mul_of_nonneg_left (by linarith) (sub_nonneg.2 hn)
    have htime := mul_le_mul_of_nonneg_left hlater (Nat.cast_nonneg (α := ℚ) n)
    linarith
  · have hcredit := credit_since_arrival hempty hids hvalid h hp harr hlive hforce
    have hdelivered := delivered_le_work hempty hids hvalid h hforce
    have hran := ran_le hempty hids hvalid h hforce hp le_rfl
    rw [if_neg harr] at hran
    have hshare : (n - 1) * m.ran p time ≤ (n - 1) * (finish + 1 / 1000 - (w.args p).arrivalTime) :=
      mul_le_mul_of_nonneg_left (by linarith) (sub_nonneg.2 hn)
    unfold credit at hcredit
    linarith

end Shared

end Runs

end Machine

/-! ## The two simulators -/

open Machine

/-- **What happens while a task is in the system** of the simulator with the shared queue: between
any two instants, the cores spend their time on tasks, all of it but for what the other cores may
waste while the task runs itself. -/
theorem timeInSystem {n : ℕ} [NeZero n] (kind : SchedulerKind) (cfg : SimConfig) {w : Workload}
    (hids : w.DistinctIds) (hvalid : w.Valid) {s t : Simulator kind.State n} {es : List (Event n)}
    (hs : Lts.Reachable (Simulator.Step cfg) (Simulator.init kind.make w) s)
    (hrun : Lts.Run (Simulator.Step cfg) s es t) {p : TaskPtr} (hp : p ∈ w.added)
    (harr : p ∉ s.events.arrivals) (hlive : p ∉ t.completedTasks) {u v : ℚ} (hu : s.InForce u)
    (hv : t.InForce v) (huv : u ≤ v) :
    n * (v - u) ≤ (t.delivered w v - s.delivered w u) + (n - 1) * (t.ran p v - s.ran p u) := by
  have hgrow := credit_run (fun _ => kind.readyTasks_make) hids hvalid
    (hs.simulate (f := id) fun _ _ _ => Simulator.step_machine)
    (hrun.simulate (f := id) fun _ _ _ => Simulator.step_machine) hp harr hlive hu hv huv
  unfold credit at hgrow
  simp only [id] at hgrow
  linarith

/-- The pair on two cores, while the first task is in the system -/
theorem timeInSystem_pair :
    let stride := SchedulerKind.stride {}
    let s := Simulator.turns (n := 2) { stopTime := 50 } 1 (Simulator.init stride.make .pair)
    let t := Simulator.turns { stopTime := 50 } 1 s
    2 * (4 - 1 / 2) ≤ (t.delivered .pair 4 - s.delivered .pair (1 / 2))
      + (2 - 1) * (t.ran 0 4 - s.ran 0 (1 / 2)) := by
  intro stride s t
  obtain ⟨es, hrun⟩ := Simulator.reachable_turns { stopTime := 50 } 1 s
  exact timeInSystem (n := 2) stride { stopTime := 50 } (w := .pair) (by decide)
    (by decide +kernel) (Simulator.reachable_turns _ 1 _) hrun (by decide) (by decide +kernel)
    (by decide +kernel) (by decide +kernel) (by decide +kernel) (by norm_num)

/-- By an instant, a run of one of the simulators on `n` cores has completed all tasks. -/
inductive FinishedBy (n : ℕ) [NeZero n] (w : Workload) (time : ℚ) : Prop
  | single (kind : SchedulerKind) (cfg : SimConfig) (s : Simulator kind.State n) :
      Lts.Reachable (Simulator.Step cfg) (Simulator.init kind.make w) s → s.currentTime ≤ time →
      (∀ p ∈ w.added, p ∈ s.completedTasks) → FinishedBy n w time
  | multi (kind : SchedulerKind) (balancer : LoadBalancer) (cfg : MultiConfig)
      (s : MultiCoreSimulator kind.State n) :
      Lts.Reachable (MultiCoreSimulator.Step cfg)
        (MultiCoreSimulator.init kind.make balancer w) s → s.currentTime ≤ time →
      (∀ p ∈ w.added, p ∈ s.completedTasks) → FinishedBy n w time

/-- Two reasons why a run cannot finish earlier: the work of all tasks, and each task on its own -/
theorem FinishedBy.bounds {n : ℕ} [NeZero n] {w : Workload} (hids : w.DistinctIds)
    (hvalid : w.Valid) {time : ℚ} (h : FinishedBy n w time) :
    (w.added.map fun p => (w.args p).executionTime).sum ≤ n * time + w.added.length / 1000 ∧
      ∀ p ∈ w.added, (w.args p).arrivalTime + (w.args p).executionTime ≤ time + 1 / 1000 := by
  have hmachine : ∀ {Q σ : Type} [DecidableEq Q] [Fintype Q] [Scheduler σ] [LawfulScheduler σ]
      {m : Machine σ Q n} {cfg : SimConfig} {slot : Fin n → Q} {schedulers : Q → σ},
      (∀ q, readyTasks (schedulers q) = []) →
      Lts.Reachable (Step cfg slot) (Machine.init schedulers w) m → m.currentTime ≤ time →
      (∀ p ∈ w.added, p ∈ m.completedTasks) →
      (w.added.map fun p => (w.args p).executionTime).sum ≤ n * time + w.added.length / 1000 ∧
        ∀ p ∈ w.added, (w.args p).arrivalTime + (w.args p).executionTime ≤ time + 1 / 1000 := by
    intro Q σ _ _ _ _ m cfg slot schedulers hempty hm htime hall
    constructor
    · have hwork := work_le hempty hvalid hm hall
      have := mul_le_mul_of_nonneg_left htime (Nat.cast_nonneg (α := ℚ) n)
      linarith
    · intro p hp
      have halone := arrivalTime_add_executionTime_le hempty hids hvalid hm (hall p hp)
      have hdone := completionTime_le hempty hvalid hm (hall p hp)
      linarith
  cases h with
  | single kind cfg s hs htime hall =>
    exact hmachine (fun _ => kind.readyTasks_make)
      (hs.simulate (f := id) fun _ _ _ => Simulator.step_machine) htime hall
  | multi kind balancer cfg s hs htime hall =>
    exact hmachine (fun _ => kind.readyTasks_make)
      (hs.simulate (f := MultiCoreSimulator.toMachine) fun _ _ _ =>
        MultiCoreSimulator.step_machine) htime hall

/-- **The shared queue is at most about twice as slow as anything else.**  If some run of either
simulator has completed all tasks by an instant, then every run on the shared queue with as many
cores completes each of them by `2 - 1 / n` times that, and the `n`-th part of its arrival time, up
to thousandths of a millisecond for the rests of the tasks. -/
theorem makespan {n : ℕ} [NeZero n] {w : Workload} (hids : w.DistinctIds) (hvalid : w.Valid)
    {finish : ℚ} (hfinish : FinishedBy n w finish) (kind : SchedulerKind) (cfg : SimConfig)
    {s : Simulator kind.State n}
    (hs : Lts.Reachable (Simulator.Step cfg) (Simulator.init kind.make w) s) {time : ℚ}
    (hforce : s.InForce time) {p : TaskPtr} (hp : p ∈ w.added)
    (hlate : (2 * n - 1) * finish + (w.args p).arrivalTime + (w.added.length + n - 1) / 1000
      < n * time) :
    p ∈ s.completedTasks := by
  obtain ⟨hwork, halone⟩ := hfinish.bounds hids hvalid
  exact completed_of_late (fun _ => kind.readyTasks_make) hids hvalid
    (hs.simulate (f := id) fun _ _ _ => Simulator.step_machine) hforce hwork hp (halone p hp) hlate

/-- Two cores complete the pair by 10, so the shared queue does by 16. -/
theorem makespan_pair :
    let stride := SchedulerKind.stride {}
    1 ∈ (Simulator.turns (n := 2) { stopTime := 50 } 5
      (Simulator.init stride.make .pair)).completedTasks := by
  intro stride
  exact makespan (w := .pair) (by decide) (by decide +kernel)
    (.multi (.mlfq {}) .leastLoaded { stopTime := 50 } _ (MultiCoreSimulator.reachable_turns _ 8 _)
      (show _ ≤ (10 : ℚ) by decide +kernel) (by decide +kernel))
    stride { stopTime := 50 } (Simulator.reachable_turns _ 5 _)
    (show Machine.InForce _ 16 by decide +kernel) (by decide) (by decide +kernel)

end SchedSim
