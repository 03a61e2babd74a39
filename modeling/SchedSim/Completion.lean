import SchedSim.Interruptions
import SchedSim.Conservation
import SchedSim.Schedulers.Factory

/-!
# Finished tasks are completed at once

`handle_time_slice` looks whether the task it has charged is done;
`preempt_core` charges a task too and does not look.

* `Machine.Move.work` — only a charge takes work away from a task.
* `Machine.FinishedAtOnce` — no task that is done waits, and all of them are among
  the completed ones.
* `finishedAtOnce` — holds in every run in which no arrival preempts a task
  that is done.
* `Simulator.finishedAtOnce_false` — a run in which one does.
-/

namespace SchedSim

namespace Machine

variable {σ Q : Type} [Scheduler σ] [DecidableEq Q] [LawfulScheduler σ] {n : ℕ}
  {m m' : Machine σ Q n} {c : Fin n} {p r : TaskPtr} {x : ℚ} {e : Event n} {cfg : SimConfig}
  {slot : Fin n → Q} {w : Workload}

/-! ## The work that is left -/

/-- `dispatch_next` takes no work away and completes nobody. -/
theorem Next.work (h : Next cfg slot c m m') :
    (m'.heap r).remainingTime = (m.heap r).remainingTime ∧
      (m'.heap r).completionTime = (m.heap r).completionTime := by
  have hstart : ∀ (t : Task) (time : ℚ), ((t.markDispatched time).start time).remainingTime
      = t.remainingTime ∧ ((t.markDispatched time).start time).completionTime
      = t.completionTime := by
    intro t time
    unfold Task.start Task.markDispatched
    split <;> split <;> exact ⟨rfl, rfl⟩
  have hdispatch : ∀ (m : Machine σ Q n) (q : Q) (p : TaskPtr) (x : ℚ),
      ((m.dispatch cfg q c p x).heap r).remainingTime = (m.heap r).remainingTime ∧
      ((m.dispatch cfg q c p x).heap r).completionTime = (m.heap r).completionTime := by
    intro m q p x
    rw [Task.congrLedger Task.remainingTime (ledger_dispatch cfg x),
      Task.congrLedger Task.completionTime (ledger_dispatch cfg x)]
    split
    · exact hstart _ _
    · exact ⟨rfl, rfl⟩
  cases h with
  | idle => exact ⟨rfl, rfl⟩
  | own => exact hdispatch _ _ _ _
  | steal =>
    rw [(hdispatch _ _ _ _).1, (hdispatch _ _ _ _).2,
      Task.congrLedger Task.remainingTime ledger_migrate,
      Task.congrLedger Task.completionTime ledger_migrate]
    exact ⟨rfl, rfl⟩

theorem remainingTime_enqueue {q : Q} :
    ((m.enqueue q p).heap r).remainingTime = (m.heap r).remainingTime := by
  rw [Task.congrLedger Task.remainingTime ledger_enqueue]
  split <;> rfl

theorem remainingTime_charge {q : Q} : ((m.charge q c p).heap r).remainingTime
    = if r = p then ((m.heap r).execute (m.elapsed c)).remainingTime
      else (m.heap r).remainingTime := by
  rw [Task.congrLedger Task.remainingTime ledger_charge]
  split <;> rfl

theorem remainingTime_yieldCore {q : Q} : ((m.yieldCore q c p).heap r).remainingTime
    = ((m.charge q c p).heap r).remainingTime := by
  rw [yieldCore, Task.congrLedger Task.remainingTime ledger_requeue]
  split <;> rfl

theorem remainingTime_settle {q : Q} : ((m.settle q c p).heap r).remainingTime
    = ((m.charge q c p).heap r).remainingTime := by
  rw [settle_eq]
  split
  · rw [Task.congrLedger Task.remainingTime ledger_finish]
    split <;> rfl
  · exact remainingTime_yieldCore

/-- Only a charge takes work away from a task, and a step charges one task at
most, for the time since its dispatch. -/
theorem Move.work (h : Move cfg slot m e m') :
    ((∀ c p x, ¬ Charges m m' c p x) ∧
      ∀ r, (m'.heap r).remainingTime = (m.heap r).remainingTime) ∨
    ∃ c p, m.runningTasks c = some p ∧ Charges m m' c p (e.time - m.lastEventTime c) ∧
      (∀ d q x, Charges m m' d q x → d = c ∧ q = p ∧ x = e.time - m.lastEventTime c) ∧
      ∀ r, (m'.heap r).remainingTime
        = if r = p then ((m.heap r).execute (e.time - m.lastEventTime c)).remainingTime
          else (m.heap r).remainingTime := by
  have hone : ∀ {m₁ : Machine σ Q n} {d : Fin n} {c : Fin n} {p : TaskPtr} {x : ℚ},
      Next cfg slot d m₁ m' → m₁.history = .charged c p x :: m.history →
      Charges m m' c p x ∧ ∀ d q y, Charges m m' d q y → d = c ∧ q = p ∧ y = x := by
    intro m₁ d c p x hn hhist
    obtain ⟨new, hnew⟩ := hn.history
    refine ⟨⟨new ++ [.charged c p x], by rw [hnew, hhist, List.append_assoc]; rfl, by simp⟩, ?_⟩
    intro d q y hc
    have hmem := hn.charges [.charged c p x] hc hhist
    rwa [List.mem_singleton, Action.charged.injEq] at hmem
  cases h with
  | skip => exact .inl ⟨fun _ _ _ => not_charges_of_history rfl, fun _ => rfl⟩
  | queued => exact .inl ⟨fun _ _ _ => not_charges_of_history rfl, fun _ => remainingTime_enqueue⟩
  | woken _ _ hn =>
    refine .inl ⟨fun c p x hc => ?_, fun r => hn.work.1.trans remainingTime_enqueue⟩
    cases hn.charges [] hc rfl
  | @preempted c p _ _ hrun _ _ hn =>
    obtain ⟨hc, honly⟩ := hone (x := e.time - m.lastEventTime c) hn rfl
    refine .inr ⟨c, p, hrun, hc, honly, fun r => ?_⟩
    rw [hn.work.1, countSwitch_heap, remainingTime_yieldCore, remainingTime_charge, Task.execute,
      remainingTime_enqueue, Task.execute]
    rfl
  | expired _ hrun hn =>
    obtain ⟨hc, honly⟩ := hone (x := e.time - m.lastEventTime e.coreId) hn (settle_history _ _ _ _)
    refine .inr ⟨e.coreId, e.task, hrun, hc, honly, fun r => ?_⟩
    rw [hn.work.1, remainingTime_settle, remainingTime_charge]
    rfl

/-! ## Finished tasks -/

/-- No step lets an arrival preempt a task that is done. -/
def LeavesWork (m : Machine σ Q n) (e : Event n) (m' : Machine σ Q n) : Prop :=
  e.type = .arrival → ∀ c p x, Charges m m' c p x → ((m.heap p).execute x).isCompleted = false

/-- A task that a step charges down to nothing is completed in that step. -/
theorem Move.completes (h : Move cfg slot m e m') (hwork : LeavesWork m e m')
    (hc : Charges m m' c p x) (hdone : (m'.heap p).isCompleted = true) :
    p ∈ m'.completedTasks ∧ (m'.heap p).completionTime = m'.currentTime := by
  have hcharged : ((m.heap p).execute x).isCompleted = true := by
    rcases h.work with ⟨hnone, -⟩ | ⟨c', p', -, -, honly, hrem⟩
    · exact absurd hc (hnone c p x)
    · obtain ⟨rfl, rfl, rfl⟩ := honly c p x hc
      rw [← Task.isCompleted_congr ((hrem p).trans (if_pos rfl))]
      exact hdone
  have htype : e.type = .timeSlice := by
    cases h with
    | skip => exact absurd hc (not_charges_of_history rfl)
    | queued => exact absurd hc (not_charges_of_history rfl)
    | woken _ _ hn => cases hn.charges [] hc rfl
    | preempted harr =>
      rw [hwork harr c p x hc] at hcharged
      cases hcharged
    | expired hts => exact hts
  obtain ⟨rfl, rfl, hrun, rfl, hn⟩ := h.charges_of_timeSlice htype hc
  have hdone' : (((m.pop e).charge (slot e.coreId) e.coreId e.task).heap e.task).isCompleted
      = true := by
    rw [Task.isCompleted_congr (remainingTime_charge.trans (if_pos rfl))]
    exact hcharged
  rw [hn.completedTasks, hn.work.2, hn.currentTime, settle_eq, if_pos hdone']
  refine ⟨List.mem_append_right _ (List.mem_singleton_self _), ?_⟩
  rw [Task.congrLedger Task.completionTime ledger_finish, if_pos rfl]
  rfl

/-- No task that is done waits, and every task that is done has been completed. -/
structure FinishedAtOnce (w : Workload) (m : Machine σ Q n) : Prop where
  ready : ∀ q, ∀ p ∈ m.ready q, (m.heap p).isCompleted = false
  recorded : ∀ p ∈ w.added, (m.heap p).isCompleted = true → p ∈ m.completedTasks

theorem Move.recorded (h : Move cfg slot m e m') (hwork : LeavesWork m e m')
    (hm : ∀ p ∈ w.added, (m.heap p).isCompleted = true → p ∈ m.completedTasks) :
    ∀ p ∈ w.added, (m'.heap p).isCompleted = true → p ∈ m'.completedTasks := by
  intro p hp hdone
  have hold : (m'.heap p).remainingTime = (m.heap p).remainingTime → p ∈ m'.completedTasks := by
    intro hsame
    rw [Task.isCompleted_congr hsame] at hdone
    exact h.completedTasks_subset (hm p hp hdone)
  rcases h.work with ⟨-, hrem⟩ | ⟨c, q, -, hc, -, hrem⟩
  · exact hold (hrem p)
  · by_cases hpq : p = q
    · subst hpq
      exact (h.completes hwork hc hdone).1
    · exact hold ((hrem p).trans (if_neg hpq))

section Runs

variable [Fintype Q] [NeZero n] {schedulers : Q → σ}

theorem finishedAtOnce_of_reachable (hempty : ∀ q, readyTasks (schedulers q) = [])
    (hexec : ∀ p ∈ w.added, 1 / 1000 < (w.args p).executionTime)
    (h : Lts.Reachable (fun m e m' => Step cfg slot m e m' ∧ LeavesWork m e m')
      (init schedulers w) m) : FinishedAtOnce w m := by
  have hrecorded : ∀ p ∈ w.added, (m.heap p).isCompleted = true → p ∈ m.completedTasks := by
    refine h.induction (I := fun m : Machine σ Q n =>
      ∀ p ∈ w.added, (m.heap p).isCompleted = true → p ∈ m.completedTasks) ?_ ?_
    · intro p hp hdone
      have hle : (w.args p).executionTime ≤ 1 / 1000 := by
        simpa [init, Workload.heap, Task.new, Task.isCompleted] using hdone
      exact absurd hle (not_le.2 (hexec p hp))
    · intro s e t _ hm hstep
      exact hstep.1.2.2.recorded hstep.2 hm
  refine ⟨fun q p hp => ?_, hrecorded⟩
  -- a ready task has been added and is in no other place
  have hplaces := places_le_count hempty
    (h.simulate (r := Step cfg slot) (f := id) fun _ _ _ hstep => hstep.1) p
  have hwait : 0 < m.waiting p := waiting_pos.2 ⟨q, hp⟩
  have hcount := List.nodup_iff_count_le_one.1 w.nodup p
  simp only [id, places] at hplaces
  have hadded : p ∈ w.added := List.count_pos_iff.1 (by omega)
  by_contra hdone
  have hcomp := List.count_pos_iff.2 (hrecorded p hadded (by simpa using hdone))
  omega

end Runs

end Machine

/-! ## The two simulators -/

open Machine

/-- If the arrival preempts a task, then the task is not done at that moment. -/
def Simulator.SparesFinished {σ : Type} [Scheduler σ] {n : ℕ} (s : Simulator σ n) (e : Event n) :
    Prop :=
  ∀ c p, s.victim e = some c → s.runningTasks c = some p →
    ((s.heap p).execute (e.time - s.lastEventTime c)).isCompleted = false

instance {σ : Type} [Scheduler σ] {n : ℕ} (s : Simulator σ n) (e : Event n) :
    Decidable (s.SparesFinished e) :=
  decidable_of_iff (∀ c, s.victim e = some c → ∀ p ∈ s.runningTasks c,
      ((s.heap p).execute (e.time - s.lastEventTime c)).isCompleted = false)
    ⟨fun h c p hc hp => h c hc p hp, fun h c hc p hp => h c p hc hp⟩

/-- If the arrival preempts a task, then the task is not done at that moment. -/
def MultiCoreSimulator.SparesFinished {σ : Type} [Scheduler σ] {n : ℕ} [NeZero n]
    (s : MultiCoreSimulator σ n) (e : Event n) : Prop :=
  ∀ c p, s.victim e = some c → s.runningTasks c = some p →
    ((s.heap p).execute (e.time - s.lastEventTime c)).isCompleted = false

section SparesFinished

variable {σ : Type} [Scheduler σ] [LawfulScheduler σ] {n : ℕ} {e : Event n}

theorem Simulator.leavesWork {cfg : SimConfig} {s s' : Simulator σ n}
    (h : Simulator.Step cfg s e s') (hspares : s.SparesFinished e) : LeavesWork s e s' := by
  intro harr c p x hc
  obtain ⟨hvictim, hrun, rfl⟩ := (Simulator.turn_of_step h).victim harr hc
  exact hspares c p hvictim hrun

theorem MultiCoreSimulator.leavesWork [NeZero n] {cfg : MultiConfig} {s s' : MultiCoreSimulator σ n}
    (h : MultiCoreSimulator.Step cfg s e s') (hspares : s.SparesFinished e) :
    LeavesWork s.toMachine e s'.toMachine := by
  intro harr c p x hc
  obtain ⟨hvictim, hrun, rfl⟩ := (MultiCoreSimulator.turn_of_step h).victim harr hc
  exact hspares c p hvictim hrun

end SparesFinished

/-- **A finished task is completed at once and never queued again**, in every run
of either simulator in which no arrival preempts a task that is done: no task
that is done waits or is left without a completion time, and the step that
charges a task down to nothing completes it. -/
theorem finishedAtOnce {n : ℕ} [NeZero n] (kind : SchedulerKind) (w : Workload)
    (hexec : ∀ p ∈ w.added, 1 / 1000 < (w.args p).executionTime) :
    (∀ (cfg : SimConfig) (s : Simulator kind.State n),
      Lts.Reachable (fun s e s' => Simulator.Step cfg s e s' ∧ s.SparesFinished e)
        (Simulator.init kind.make w) s →
      FinishedAtOnce w s ∧
      ∀ e s' c p x, Simulator.Step cfg s e s' → s.SparesFinished e → Charges s s' c p x →
        (s'.heap p).isCompleted = true →
        p ∈ s'.completedTasks ∧ (s'.heap p).completionTime = s'.currentTime) ∧
    (∀ (balancer : LoadBalancer) (cfg : MultiConfig) (s : MultiCoreSimulator kind.State n),
      Lts.Reachable (fun s e s' => MultiCoreSimulator.Step cfg s e s' ∧ s.SparesFinished e)
        (MultiCoreSimulator.init kind.make balancer w) s →
      FinishedAtOnce w s.toMachine ∧
      ∀ e s' c p x, MultiCoreSimulator.Step cfg s e s' → s.SparesFinished e →
        Charges s.toMachine s'.toMachine c p x → (s'.heap p).isCompleted = true →
        p ∈ s'.completedTasks ∧ (s'.heap p).completionTime = s'.currentTime) := by
  constructor
  · intro cfg s hs
    have hmachine : Lts.Reachable (fun m e m' => Machine.Step cfg Simulator.slot m e m' ∧
        LeavesWork m e m') (Simulator.init kind.make w) s :=
      hs.simulate (f := id) fun s e s' h =>
        ⟨Simulator.step_machine h.1, Simulator.leavesWork h.1 h.2⟩
    refine ⟨finishedAtOnce_of_reachable (fun _ => kind.readyTasks_make) hexec hmachine,
      fun e s' c p x hstep hspares hc hdone => ?_⟩
    exact (Simulator.step_machine hstep).2.2.completes (Simulator.leavesWork hstep hspares) hc hdone
  · intro balancer cfg s hs
    have hmachine : Lts.Reachable (fun m e m' =>
        Machine.Step cfg.toSimConfig MultiCoreSimulator.slot m e m' ∧ LeavesWork m e m')
        (MultiCoreSimulator.init kind.make balancer w).toMachine s.toMachine :=
      hs.simulate (f := MultiCoreSimulator.toMachine) fun s e s' h =>
        ⟨MultiCoreSimulator.step_machine h.1, MultiCoreSimulator.leavesWork h.1 h.2⟩
    refine ⟨finishedAtOnce_of_reachable (fun _ => kind.readyTasks_make) hexec hmachine,
      fun e s' c p x hstep hspares hc hdone => ?_⟩
    exact (MultiCoreSimulator.step_machine hstep).2.2.completes
      (MultiCoreSimulator.leavesWork hstep hspares) hc hdone

/-- Task 1 preempts task 0 of the pair on one core, and comes to an idle one of two. -/
theorem finishedAtOnce_pair :
    let cfg : MultiConfig := { stopTime := 50 }
    let kind := SchedulerKind.eevdf {}
    let single := Simulator.turns (n := 1) cfg.toSimConfig 4 (Simulator.init kind.make .pair)
    let multi := MultiCoreSimulator.turns (n := 2) cfg 1
      (MultiCoreSimulator.init kind.make .leastLoaded .pair)
    FinishedAtOnce .pair single ∧ FinishedAtOnce .pair multi.toMachine := by
  intro cfg kind single multi
  have hexec : ∀ p ∈ Workload.pair.added, 1 / 1000 < (Workload.pair.args p).executionTime := by
    decide +kernel
  have hstep : MultiCoreSimulator.Step cfg (MultiCoreSimulator.init kind.make .leastLoaded .pair)
      ⟨.arrival, 0, 0, 0⟩ multi := ⟨by decide +kernel, by decide +kernel, rfl⟩
  refine ⟨((finishedAtOnce kind .pair hexec).1 cfg.toSimConfig single
      (Simulator.reachable_turns_of _ 4 _ (by decide +kernel))).1,
    ((finishedAtOnce kind .pair hexec).2 .leastLoaded cfg multi
      (Lts.Reachable.refl.tail ⟨hstep, ?_⟩)).1⟩
  intro c p _ hrun
  cases hrun

/-- **Otherwise a finished task may wait.**  Under MLFQ task 0 has two milliseconds
left when it is dispatched at 8; task 1 arrives half a microsecond before they are
over. -/
theorem Simulator.finishedAtOnce_false :
    let cfg : SimConfig := { stopTime := 50 }
    let w := Workload.ofList [⟨0, 0, 10, 0⟩, ⟨1, 99995 / 10000, 5, 0⟩]
    ¬ ∀ s : Simulator (SchedulerKind.mlfq {}).State 1,
      Lts.Reachable (Step cfg) (init (SchedulerKind.mlfq {}).make w) s → FinishedAtOnce w s := by
  intro cfg w h
  have := (h _ (reachable_turns cfg 5 _)).ready () 0 (by decide +kernel)
  exact absurd this (by decide +kernel)

end SchedSim
