import SchedSim.Accounting
import SchedSim.Schedulers.Factory

/-!
# The rows of `tasks.csv`

`write_task_rows` in `apps/main.cpp` writes a row for every task when `run` has
returned.  The loop of `run` ends when no event is left or the next one is past
the stop time, and only events book CPU time and waiting.

* `Machine.returned` — the state `run` returns in.
* `taskRow` — the columns that are about the task itself.
* `reportedTimes` — up to when the times of a row are booked.
* `Simulator.reportedTimes_false` — this is not the end of the run.
-/

namespace SchedSim

/-- The columns of `write_task_rows` from the id of the task on. -/
structure TaskRow where
  taskID : UInt32
  nice : Int
  weight : UInt32
  arrival : ℚ
  execution : ℚ
  allocatedCPU : ℚ
  remaining : ℚ
  started : Bool
  completed : Bool
  startTime : ℚ
  completionTime : ℚ
  responseTime : ℚ
  turnaroundTime : ℚ
  waitTime : ℚ
  preemptionCount : UInt32
  deriving DecidableEq

def taskRow (t : Task) : TaskRow where
  taskID := t.id
  nice := t.nice
  weight := t.weight
  arrival := t.arrivalTime
  execution := t.executionTime
  allocatedCPU := t.executionTime - t.remainingTime
  remaining := t.remainingTime
  started := 0 ≤ t.startTime
  completed := 0 ≤ t.completionTime
  startTime := t.startTime
  completionTime := t.completionTime
  responseTime := t.responseTime
  turnaroundTime := t.turnaroundTime
  waitTime := t.waitTime
  preemptionCount := t.preemptionCount

namespace Machine

variable {σ Q : Type} {n : ℕ} {cfg : SimConfig} {m : Machine σ Q n} {p : TaskPtr}

/-- The loop of `run` ends here: no event is left, or the next one is past the
stop time. -/
def Stops (cfg : SimConfig) (m : Machine σ Q n) : Prop := ∀ e ∈ m.events, cfg.stopTime < e.time

instance (cfg : SimConfig) (m : Machine σ Q n) : Decidable (m.Stops cfg) :=
  inferInstanceAs (Decidable (∀ e ∈ m.events, _))

/-- What `run` does when its loop ends: if an event is left, the clock goes to the
stop time. -/
def returned (cfg : SimConfig) (m : Machine σ Q n) : Machine σ Q n :=
  { m with currentTime := if m.events = [] then m.currentTime else cfg.stopTime }

/-- The times in the row of a task add up to the instant of the last event that
booked some: its completion, its last dispatch, or its last return to a queue. -/
structure BookedUpTo [Scheduler σ] (m : Machine σ Q n) (p : TaskPtr) : Prop where
  completed : p ∈ m.completedTasks →
    (taskRow (m.heap p)).waitTime + (taskRow (m.heap p)).allocatedCPU
      = (taskRow (m.heap p)).completionTime - (taskRow (m.heap p)).arrival
  running : ∀ c, m.runningTasks c = some p →
    (taskRow (m.heap p)).waitTime + (taskRow (m.heap p)).allocatedCPU
      = m.lastEventTime c - (taskRow (m.heap p)).arrival
  waiting : ∀ q, p ∈ m.ready q →
    (taskRow (m.heap p)).waitTime + (taskRow (m.heap p)).allocatedCPU
      = (m.heap p).readyEnterTime - (taskRow (m.heap p)).arrival

variable [Scheduler σ]

/-- A task that has arrived stands in one of the three places. -/
def Arrived (m : Machine σ Q n) (p : TaskPtr) : Prop :=
  p ∈ m.completedTasks ∨ (∃ c, m.runningTasks c = some p) ∨ ∃ q, p ∈ m.ready q

theorem Accounted.bookedUpTo (h : m.Accounted p) : (m.returned cfg).BookedUpTo p := by
  refine ⟨fun hc => ?_, fun c hc => ?_, fun q hq => ?_⟩
  · have := (h.completed hc).1
    show (m.heap p).waitTime + ((m.heap p).executionTime - (m.heap p).remainingTime)
      = (m.heap p).completionTime - (m.heap p).arrivalTime
    linarith
  · have := h.running c hc
    show (m.heap p).waitTime + ((m.heap p).executionTime - (m.heap p).remainingTime)
      = m.lastEventTime c - (m.heap p).arrivalTime
    linarith
  · have := h.waiting q hq
    show (m.heap p).waitTime + ((m.heap p).executionTime - (m.heap p).remainingTime)
      = (m.heap p).readyEnterTime - (m.heap p).arrivalTime
    linarith

variable [DecidableEq Q] [LawfulScheduler σ] {m' : Machine σ Q n} {slot : Fin n → Q} {c : Fin n}
  {e : Event n} {w : Workload}

omit [LawfulScheduler σ] in
/-- No step makes up an arrival. -/
theorem Move.announced (h : Move cfg slot m e m') {e' : Event n} (he' : e' ∈ m'.events)
    (harr : e'.type = .arrival) : e' ∈ m.events := by
  obtain ⟨m₁, hbefore, rfl | ⟨c, hc, hn⟩⟩ := h.before
  · rw [hbefore.events] at he'
    exact List.mem_of_mem_erase he'
  · rcases hn.core_cases hc with ⟨-, -, hev, -⟩ | ⟨_, _, -, -, hev, -⟩
    · rw [hev, hbefore.events] at he'
      exact List.mem_of_mem_erase he'
    · rw [hev, hbefore.events] at he'
      rcases List.mem_append.1 he' with he' | he'
      · exact List.mem_of_mem_erase he'
      · rw [List.mem_singleton.1 he'] at harr
        cases harr

section Runs

variable [Fintype Q] [NeZero n] {schedulers : Q → σ}

/-- When the loop has ended, a task that arrives by then has been handled. -/
theorem arrived_of_stops (hempty : ∀ q, readyTasks (schedulers q) = []) (hids : w.DistinctIds)
    (hvalid : w.Valid) (h : Lts.Reachable (Step cfg slot) (init schedulers w) m)
    (hstops : m.Stops cfg) (hp : p ∈ w.added)
    (harrival : (w.args p).arrivalTime ≤ (m.returned cfg).currentTime) :
    (m.returned cfg).Arrived p := by
  have hacc := accounted_of_reachable hempty hids hvalid h hp
  have hannounced : ∀ e ∈ m.events, e.type = .arrival → e.time = (w.args e.task).arrivalTime := by
    refine h.induction (I := fun m : Machine σ Q n =>
      ∀ e ∈ m.events, e.type = .arrival → e.time = (w.args e.task).arrivalTime) ?_ ?_
    · intro e he _
      obtain ⟨p, -, rfl⟩ := List.mem_map.1 he
      rfl
    · intro s e t _ hm hstep e' he' harr
      exact hm e' (hstep.2.2.announced he' harr) harr
  have hhandled : p ∉ m.events.arrivals := by
    intro hmem
    obtain ⟨e, he, ht, rfl⟩ := EventQueue.mem_arrivals.1 hmem
    have hlt := hstops e he
    rw [hannounced e he ht] at hlt
    have hne : m.events ≠ [] := List.ne_nil_of_mem he
    rw [returned] at harrival
    simp only [if_neg hne] at harrival
    exact absurd hlt (not_lt.2 harrival)
  by_cases hcomp : p ∈ m.completedTasks
  · exact .inl hcomp
  · rcases hacc.live hhandled hcomp with hq | hc
    · exact .inr (.inr hq)
    · exact .inr (.inl hc)

end Runs

end Machine

/-! ## The two simulators -/

open Machine

/-- **Reported CPU and wait times add up to the last booking**: when `run` has
returned, the row of a task that has arrived accounts for the time from its arrival
until its completion; if it is on a core, until it was dispatched; and if it waits,
until it last entered a queue. -/
theorem reportedTimes {n : ℕ} [NeZero n] (kind : SchedulerKind) (w : Workload)
    (hids : w.DistinctIds) (hvalid : w.Valid) :
    (∀ (cfg : SimConfig) (s : Simulator kind.State n),
      Lts.Reachable (Simulator.Step cfg) (Simulator.init kind.make w) s → s.Stops cfg →
      ∀ p ∈ w.added, (w.args p).arrivalTime ≤ (s.returned cfg).currentTime →
        (s.returned cfg).Arrived p ∧ (s.returned cfg).BookedUpTo p) ∧
    (∀ (balancer : LoadBalancer) (cfg : MultiConfig) (s : MultiCoreSimulator kind.State n),
      Lts.Reachable (MultiCoreSimulator.Step cfg)
        (MultiCoreSimulator.init kind.make balancer w) s → s.Stops cfg.toSimConfig →
      ∀ p ∈ w.added, (w.args p).arrivalTime ≤ (s.returned cfg.toSimConfig).currentTime →
        (s.returned cfg.toSimConfig).Arrived p ∧ (s.returned cfg.toSimConfig).BookedUpTo p) := by
  constructor
  · intro cfg s hs hstops p hp harrival
    have hm := hs.simulate (f := id) fun _ _ _ => Simulator.step_machine
    exact ⟨arrived_of_stops (fun _ => kind.readyTasks_make) hids hvalid hm hstops hp harrival,
      (accounted_of_reachable (fun _ => kind.readyTasks_make) hids hvalid hm hp).bookedUpTo⟩
  · intro balancer cfg s hs hstops p hp harrival
    have hm := hs.simulate (f := MultiCoreSimulator.toMachine) fun _ _ _ =>
      MultiCoreSimulator.step_machine
    exact ⟨arrived_of_stops (fun _ => kind.readyTasks_make) hids hvalid hm hstops hp harrival,
      (accounted_of_reachable (fun _ => kind.readyTasks_make) hids hvalid hm hp).bookedUpTo⟩

/-- The pair when the run stops at 3, while the first task is on the core of one
simulator and both are on the cores of the other. -/
theorem reportedTimes_pair :
    let cfg : MultiConfig := { stopTime := 3 }
    let kind := SchedulerKind.stride {}
    let single := Simulator.turns (n := 1) cfg.toSimConfig 2 (Simulator.init kind.make .pair)
    let multi := MultiCoreSimulator.turns (n := 2) cfg 2
      (MultiCoreSimulator.init kind.make .leastLoaded .pair)
    (single.returned cfg.toSimConfig).BookedUpTo 0 ∧
    (multi.returned cfg.toSimConfig).BookedUpTo 1 := by
  intro cfg kind single multi
  exact ⟨((reportedTimes kind .pair (by decide) (by decide +kernel)).1 cfg.toSimConfig single
      (Simulator.reachable_turns _ 2 _) (by decide +kernel) 0 (by decide) (by decide +kernel)).2,
    ((reportedTimes kind .pair (by decide) (by decide +kernel)).2 _ cfg multi
      (MultiCoreSimulator.reachable_turns _ 2 _) (by decide +kernel) 1 (by decide)
      (by decide +kernel)).2⟩

/-- **They do not add up to the end of the run.**  A task that runs from 0 on has
no CPU time in its row when the run stops at 3. -/
theorem Simulator.reportedTimes_false :
    let cfg : SimConfig := { stopTime := 3 }
    let w := Workload.ofList [⟨0, 0, 10, 0⟩]
    ¬ ∀ s : Simulator (SchedulerKind.stride {}).State 1,
      Lts.Reachable (Step cfg) (init (SchedulerKind.stride {}).make w) s → s.Stops cfg →
      ∀ p ∈ w.added, (w.args p).arrivalTime ≤ (s.returned cfg).currentTime →
        (taskRow (s.heap p)).waitTime + (taskRow (s.heap p)).allocatedCPU
          = (if p ∈ s.completedTasks then (taskRow (s.heap p)).completionTime
              else (s.returned cfg).currentTime) - (taskRow (s.heap p)).arrival := by
  intro cfg w h
  have := h _ (reachable_turns cfg 1 _) (by decide +kernel) 0 (by decide) (by decide +kernel)
  exact absurd this (by decide +kernel)

end SchedSim
