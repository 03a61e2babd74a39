import SchedSim.LittlesLaw
import SchedSim.SingleServer
import SchedSim.WorkConserving

/-!
# The work done on one core

On a single core the scheduler decides which task gets the CPU time, but not how much CPU time all
tasks together have got by some instant: the core is idle only if no task is left, apart from the
thousandth of a millisecond that may remain of a completed one.

* `Machine.delivered_le` — no task gets more CPU time than it needs, and none before it arrives.
* `Machine.doneBy_of_reachable` — what a simulator with one core has done by an instant.
* `workDone` — so any two runs with the same tasks are at the same point.
-/

namespace SchedSim

/-- The execution times of the tasks that arrive before an instant, added up -/
def Workload.workBefore (w : Workload) (time : ℚ) : ℚ :=
  (w.added.map fun p => if (w.args p).arrivalTime < time then (w.args p).executionTime else 0).sum

namespace Machine

variable {σ Q : Type} [Scheduler σ] {n : ℕ}

omit [Scheduler σ] in
/-- The CPU time that all tasks together have got -/
def delivered (m : Machine σ Q n) (w : Workload) (time : ℚ) : ℚ :=
  (w.added.map fun p => m.ran p time).sum

omit [Scheduler σ] in
/-- At this instant, no earlier event is left and no later one has been handled. -/
def InForce (m : Machine σ Q n) (time : ℚ) : Prop :=
  m.currentTime ≤ time ∧ ∀ e ∈ m.events, time ≤ e.time

instance (m : Machine σ Q n) (time : ℚ) : Decidable (m.InForce time) :=
  inferInstanceAs (Decidable (_ ∧ _))

section Runs

variable [DecidableEq Q] [Fintype Q] [LawfulScheduler σ] [NeZero n] {m m' : Machine σ Q n}
  {e : Event n} {p : TaskPtr} {cfg : SimConfig} {slot : Fin n → Q} {schedulers : Q → σ}
  {w : Workload} {time u : ℚ}

section Arrivals

variable (hempty : ∀ q, readyTasks (schedulers q) = []) (hvalid : w.Valid)
  (h : Lts.Reachable (Step cfg slot) (init schedulers w) m)

include hempty hvalid h

/-- A task whose arrival has been handled has arrived. -/
theorem arrivalTime_le (hp : p ∈ w.added) (harr : p ∉ m.events.arrivals) :
    (w.args p).arrivalTime ≤ m.currentTime := by
  refine h.induction (I := fun m : Machine σ Q n =>
    p ∉ m.events.arrivals → (w.args p).arrivalTime ≤ m.currentTime) ?_ ?_ harr
  · intro hno
    rw [arrivals_init] at hno
    exact absurd hp hno
  · intro s e t hs ih hstep hno
    rw [hstep.2.2.arrivals] at hno
    rw [hstep.2.2.currentTime]
    have hclock := (books_of_reachable hempty hvalid hs).clock e hstep.1.1
    by_cases hpending : p ∈ s.events.arrivals
    · have hcount := EventQueue.count_arrivals_erase s.events hstep.1.1 p
      have hpos : 0 < s.events.arrivals.count p := List.count_pos_iff.2 hpending
      rw [List.count_eq_zero.2 hno] at hcount
      have hevent : e.type = .arrival ∧ e.task = p := by
        by_contra hother
        rw [if_neg hother] at hcount
        omega
      rw [announced_of_reachable hs e hstep.1.1 hevent.1, hevent.2, arrivalTime_eq hs]
    · exact (ih hpending).trans hclock

end Arrivals

omit [Fintype Q] in
/-- A task whose arrival is still to be handled arrives later. -/
theorem le_arrivalTime (h : Lts.Reachable (Step cfg slot) (init schedulers w) m)
    (hforce : m.InForce time) (harr : p ∈ m.events.arrivals) : time ≤ (w.args p).arrivalTime := by
  obtain ⟨e, he, ht, rfl⟩ := EventQueue.mem_arrivals.1 harr
  rw [← arrivalTime_eq h, ← announced_of_reachable h e he ht]
  exact hforce.2 e he

variable (hempty : ∀ q, readyTasks (schedulers q) = []) (hids : w.DistinctIds) (hvalid : w.Valid)
  (h : Lts.Reachable (Step cfg slot) (init schedulers w) m) (hforce : m.InForce time)

include hempty hids hvalid h hforce

/-- No task has run for longer than its execution time. -/
theorem ran_le (hp : p ∈ w.added) (hu : u ≤ time) :
    m.ran p u ≤ if p ∈ m.events.arrivals then 0 else (w.args p).executionTime := by
  have hone : m.places p = 1 := by
    rw [places_eq_count hempty hids h, List.count_eq_one_of_mem w.nodup hp]
  have hbooks := books_of_reachable hempty hvalid h
  have haccounted := accounted_of_reachable hempty hids hvalid h hp
  split
  next harr =>
    exact (times_of_pending (hbooks.booked p) hone.le (announced_of_reachable h) harr u).2.2.le
  next harr =>
    rw [← executionTime_eq h]
    have hserved : (m.heap p).served = (m.heap p).executionTime - (m.heap p).remainingTime := rfl
    by_cases hdone : p ∈ m.completedTasks
    · have := (haccounted.completed hdone).2.1
      rw [(times_of_completed hone.le hdone u).2.2]
      linarith
    rcases haccounted.live harr hdone with ⟨q, hq⟩ | ⟨c, hc⟩
    · have hremaining := ((hbooks.booked p).waiting q hq).balanced.remaining
      have hwaiting := waiting_pos.2 ⟨q, hq⟩
      rw [places] at hone
      rw [ran_eq (by omega)]
      linarith
    · obtain ⟨d, hd, hran⟩ := ran_eq_of_running (m := m) (p := p) (by
        have : 0 < (m.coresOf p).card := Finset.card_pos.2 ⟨c, by simpa [coresOf] using hc⟩
        rw [places] at hone
        omega) u
      have hrun := (hbooks.booked p).running d hd
      have hslice : time ≤ m.lastEventTime d + m.granted d :=
        hforce.2 _ (slicePending_of_reachable h d p hd)
      have hgranted := hrun.granted
      rw [hran]
      linarith

omit hids in
/-- Between events the work that has come is that of the tasks that have been handled. -/
theorem workBefore_eq (hnow : m.currentTime < u) (hu : u ≤ time) : w.workBefore u
    = (w.added.map fun p => if p ∈ m.events.arrivals then 0 else (w.args p).executionTime).sum := by
  refine congrArg List.sum (List.map_congr_left fun p hp => ?_)
  by_cases harr : p ∈ m.events.arrivals
  · have := le_arrivalTime h hforce harr
    rw [if_pos harr, if_neg (by linarith)]
  · have := arrivalTime_le hempty hvalid h hp harr
    rw [if_neg harr, if_pos (by linarith)]

omit hids hempty [Fintype Q] in
theorem workBefore_le : w.workBefore time
    ≤ (w.added.map fun p => if p ∈ m.events.arrivals then 0 else (w.args p).executionTime).sum := by
  refine List.sum_le_sum fun p hp => ?_
  have hexec := (hvalid p hp).2.le
  by_cases harr : p ∈ m.events.arrivals
  · have := le_arrivalTime h hforce harr
    rw [if_pos harr, if_neg (by linarith)]
  · rw [if_neg harr]
    split
    · exact le_rfl
    · exact hexec

theorem delivered_le (hnow : m.currentTime < u) (hu : u ≤ time) :
    m.delivered w u ≤ w.workBefore u := by
  rw [workBefore_eq hempty hvalid h hforce hnow hu]
  exact List.sum_le_sum fun p hp => ran_le hempty hids hvalid h hforce hp hu

omit hforce hvalid in
/-- Time passes on the busy cores. -/
theorem delivered_add (s t : ℚ) :
    m.delivered w t = m.delivered w s + (t - s) * m.numberRunning := by
  have hone : ∀ p ∈ w.added, m.places p = 1 := fun p hp => by
    rw [places_eq_count hempty hids h, List.count_eq_one_of_mem w.nodup hp]
  have hother : ∀ p, p ∉ w.added → m.places p = 0 := fun p hp => by
    rw [places_eq_count hempty hids h, List.count_eq_zero_of_not_mem hp]
  exact congrArg Areas.running (upTo_totals w.nodup hone hother s t)

/-- When no core is busy and no task is ready, everything is done but for the rest of the completed
tasks. -/
theorem workBefore_le_delivered (hidle : ∀ c, m.runningTasks c = none)
    (hready : ∀ q, m.ready q = []) :
    w.workBefore time ≤ m.delivered w time + m.completedTasks.length / 1000 := by
  have hterm : ∀ p ∈ w.added, (if p ∈ m.events.arrivals then 0 else (w.args p).executionTime)
      ≤ m.ran p time + if p ∈ m.completedTasks then 1 / 1000 else 0 := by
    intro p hp
    have haccounted := accounted_of_reachable hempty hids hvalid h hp
    have hone : m.places p = 1 := by
      rw [places_eq_count hempty hids h, List.count_eq_one_of_mem w.nodup hp]
    by_cases harr : p ∈ m.events.arrivals
    · have hran := (times_of_pending ((books_of_reachable hempty hvalid h).booked p) hone.le
        (announced_of_reachable h) harr time).2.2
      rw [if_pos harr, hran]
      split <;> norm_num
    · have hdone : p ∈ m.completedTasks := by
        by_contra hno
        rcases haccounted.live harr hno with ⟨q, hq⟩ | ⟨c, hc⟩
        · simp [hready q] at hq
        · simp [hidle c] at hc
      have hleft := (haccounted.completed hdone).2.2
      rw [if_neg harr, if_pos hdone, (times_of_completed hone.le hdone time).2.2, Task.served,
        ← executionTime_eq h]
      linarith
  have hcount : (w.added.map fun p => if p ∈ m.completedTasks then (1 / 1000 : ℚ) else 0).sum
      = m.completedTasks.length / 1000 := by
    have hadded : m.completedTasks ⊆ w.added := fun p hp => mem_added_of_completed hempty h hp
    have hunfinished : ∀ p ∈ m.unfinished w,
        (if p ∈ m.completedTasks then (1 / 1000 : ℚ) else 0) = 0 := fun p hp => by
      simp only [unfinished, List.mem_filter, decide_eq_true_eq] at hp
      exact if_neg hp.2.2
    rw [sum_added_eq (nodup_completedTasks hempty h) hadded fun p _ hno => if_neg hno,
      List.map_congr_left fun p hp => if_pos hp, List.map_congr_left hunfinished]
    simp [div_eq_mul_inv]
  calc w.workBefore time
      ≤ (w.added.map fun p =>
          if p ∈ m.events.arrivals then 0 else (w.args p).executionTime).sum :=
        workBefore_le hvalid h hforce
    _ ≤ (w.added.map fun p => m.ran p time + if p ∈ m.completedTasks then 1 / 1000 else 0).sum :=
        List.sum_le_sum hterm
    _ = m.delivered w time + m.completedTasks.length / 1000 := by
        rw [List.sum_map_add, hcount]
        rfl

end Runs

/-! ## One core -/

section OneCore

variable [DecidableEq Q] [Fintype Q] [Subsingleton Q] [LawfulScheduler σ] {m m' : Machine σ Q 1}
  {e : Event 1} {cfg : SimConfig} {slot : Fin 1 → Q} {schedulers : Q → σ} {w : Workload}
  {time : ℚ} (hempty : ∀ q, readyTasks (schedulers q) = []) (hids : w.DistinctIds)
  (hvalid : w.Valid) (h : Lts.Reachable (Step cfg slot) (init schedulers w) m)

include hempty hids hvalid h

/-- The core is busy until the next event, or all work is done. -/
theorem doneBy_inForce {δ : ℚ} (hδ : m.completedTasks.length / 1000 ≤ δ)
    (hdone : SingleServer.DoneBy w.workBefore δ m.currentTime (m.delivered w m.currentTime))
    (hforce : m.InForce time) : SingleServer.DoneBy w.workBefore δ time (m.delivered w time) := by
  have hadd := delivered_add hempty hids h m.currentTime
  have hcount : m.numberRunning = if (m.runningTasks 0).isSome then 1 else 0 := by
    rw [numberRunning, Finset.card_filter, Fin.sum_univ_one]
  have hwork : ∀ u, m.currentTime < u → u ≤ time → m.delivered w u ≤ w.workBefore u :=
    fun u hnow hu => delivered_le hempty hids hvalid h hforce hnow hu
  cases hcore : m.runningTasks 0 with
  | some p =>
    rw [hcore] at hcount
    simp only [hcount, Option.isSome_some, if_true, Nat.cast_one, mul_one] at hadd
    rw [hadd]
    exact hdone.busy hforce.1 fun u hnow hu => hadd u ▸ hwork u hnow hu
  | none =>
    have hidle : ∀ c, m.runningTasks c = none := Fin.forall_fin_one.2 hcore
    have hready : ∀ q, m.ready q = [] := fun q =>
      Subsingleton.elim (slot 0) q ▸ idleEmpty_of_reachable hempty h 0 hcore
    have hleft := workBefore_le_delivered hempty hids hvalid h hforce hidle hready
    rw [hcore] at hcount
    simp only [hcount, Option.isSome_none, Bool.false_eq_true, if_false, Nat.cast_zero, mul_zero,
      add_zero] at hadd
    rw [hadd] at hleft ⊢
    exact hdone.idle hforce.1 (by linarith) fun u hnow hu => hadd u ▸ hwork u hnow hu

/-- **What has been done by an instant**, up to the rest of the completed tasks -/
theorem doneBy_of_reachable (hforce : m.InForce time) :
    SingleServer.DoneBy w.workBefore (m.completedTasks.length / 1000) time
      (m.delivered w time) := by
  have hnow : SingleServer.DoneBy w.workBefore (m.completedTasks.length / 1000) m.currentTime
      (m.delivered w m.currentTime) := by
    refine h.induction (I := fun m : Machine σ Q 1 => SingleServer.DoneBy w.workBefore
      (m.completedTasks.length / 1000) m.currentTime (m.delivered w m.currentTime)) ?_ ?_
    · have hnonneg : ∀ u, 0 ≤ w.workBefore u := fun u => List.sum_nonneg fun x hx => by
        obtain ⟨p, hp, rfl⟩ := List.mem_map.1 hx
        have := (hvalid p hp).2.le
        split
        · exact this
        · exact le_rfl
      have hzero : w.workBefore 0 = 0 := List.sum_eq_zero fun x hx => by
        obtain ⟨p, hp, rfl⟩ := List.mem_map.1 hx
        exact if_neg (not_lt.2 (hvalid p hp).1)
      have hinit : (init schedulers w : Machine σ Q 1).delivered w 0 = 0 :=
        congrArg Areas.running (totals_init hempty)
      have hnone : ((init schedulers w : Machine σ Q 1).completedTasks.length : ℚ) / 1000 = 0 := by
        simp [init]
      have hclock : (init schedulers w : Machine σ Q 1).currentTime = 0 := rfl
      rw [hnone, hclock, hinit]
      exact SingleServer.DoneBy.start hnonneg hzero
    · intro s e t hs ih hstep
      have ht := hs.tail hstep
      have hclock := (books_of_reachable hempty hvalid hs).clock
      have hforce : s.InForce e.time := ⟨hclock e hstep.1.1, hstep.1.2⟩
      have hbefore := doneBy_inForce hempty hids hvalid hs le_rfl ih hforce
      have hsame : t.delivered w e.time = s.delivered w e.time :=
        congrArg Areas.running (totals_step hempty hids hvalid hs hstep)
      have hle : s.completedTasks.length ≤ t.completedTasks.length :=
        ((nodup_completedTasks hempty hs).subperm hstep.2.2.completedTasks_subset).length_le
      rw [hstep.2.2.currentTime, hsame]
      exact hbefore.mono (by gcongr)
  exact doneBy_inForce hempty hids hvalid h le_rfl hnow hforce

end OneCore

end Machine

/-! ## The two simulators -/

open Machine

/-- By an instant, a run of one of the simulators on one core has given its tasks this much CPU
time, and completed this many of them. -/
inductive DeliveredBy (w : Workload) (time : ℚ) : ℚ → ℕ → Prop
  | single (kind : SchedulerKind) (cfg : SimConfig) (s : Simulator kind.State 1) :
      Lts.Reachable (Simulator.Step cfg) (Simulator.init kind.make w) s → s.InForce time →
      DeliveredBy w time (s.delivered w time) s.completedTasks.length
  | multi (kind : SchedulerKind) (balancer : LoadBalancer) (cfg : MultiConfig)
      (s : MultiCoreSimulator kind.State 1) :
      Lts.Reachable (MultiCoreSimulator.Step cfg)
        (MultiCoreSimulator.init kind.make balancer w) s → s.InForce time →
      DeliveredBy w time (s.delivered w time) s.completedTasks.length

theorem DeliveredBy.doneBy {w : Workload} (hids : w.DistinctIds) (hvalid : w.Valid) {time x : ℚ}
    {k : ℕ} (h : DeliveredBy w time x k) :
    SingleServer.DoneBy w.workBefore (k / 1000) time x := by
  cases h with
  | single kind cfg s hs hforce =>
    exact doneBy_of_reachable (fun _ => kind.readyTasks_make) hids hvalid
      (hs.simulate (f := id) fun _ _ _ => Simulator.step_machine) hforce
  | multi kind balancer cfg s hs hforce =>
    exact doneBy_of_reachable (fun _ => kind.readyTasks_make) hids hvalid
      (hs.simulate (f := MultiCoreSimulator.toMachine) fun _ _ _ =>
        MultiCoreSimulator.step_machine) hforce

/-- **The scheduler does not change how much work is done** on one core: whatever the schedulers,
the simulators and the stop times of two runs with the same tasks, at every instant that both have
reached their tasks have together got the same CPU time, up to a thousandth of a millisecond for
each task that one of them has completed. -/
theorem workDone {w : Workload} (hids : w.DistinctIds) (hvalid : w.Valid) {time x x' : ℚ} {k k' : ℕ}
    (h : DeliveredBy w time x k) (h' : DeliveredBy w time x' k') :
    |x - x'| ≤ (max k k' : ℕ) / 1000 := by
  have hle := (h.doneBy hids hvalid).le_add (h'.doneBy hids hvalid)
  have hge := (h'.doneBy hids hvalid).le_add (h.doneBy hids hvalid)
  have hk : (k : ℚ) / 1000 ≤ (max k k' : ℕ) / 1000 := by
    gcongr
    exact le_max_left k k'
  have hk' : (k' : ℚ) / 1000 ≤ (max k k' : ℕ) / 1000 := by
    gcongr
    exact le_max_right k k'
  rw [abs_le]
  constructor <;> linarith

/-- The pair at 11, under stride in one simulator and under MLFQ in the other -/
theorem workDone_pair :
    let stride := SchedulerKind.stride {}
    let mlfq := SchedulerKind.mlfq {}
    let s := Simulator.turns (n := 1) { stopTime := 50 } 4 (Simulator.init stride.make .pair)
    let s' := MultiCoreSimulator.turns (n := 1) { stopTime := 50 } 6
      (MultiCoreSimulator.init mlfq.make .leastLoaded .pair)
    |s.delivered .pair 11 - s'.delivered .pair 11|
      ≤ (max s.completedTasks.length s'.completedTasks.length : ℕ) / 1000 := by
  intro stride mlfq s s'
  exact workDone (w := .pair) (by decide) (by decide +kernel)
    (.single stride { stopTime := 50 } s (Simulator.reachable_turns _ 4 _) (by decide +kernel))
    (.multi mlfq .leastLoaded { stopTime := 50 } s' (MultiCoreSimulator.reachable_turns _ 6 _)
      (by decide +kernel))

end SchedSim
