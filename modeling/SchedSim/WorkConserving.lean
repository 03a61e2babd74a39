import SchedSim.Moves
import SchedSim.Schedulers.Factory

/-!
# An idle core has nothing to run

`Machine.IdleEmpty`: the scheduler that serves an idle core has no ready task.
No step breaks it, because a core only becomes idle when `dispatch_next` finds
its scheduler empty, and a task that becomes ready while a core is idle is
dispatched at once.

* `Simulator.workConserving` — in the single-queue simulator, where one
  scheduler serves all cores: when a task is ready, every core is busy.
-/

namespace SchedSim

namespace Machine

variable {σ Q : Type} [Scheduler σ] [DecidableEq Q] {n : ℕ}

/-- The scheduler that serves an idle core has no ready task. -/
def IdleEmpty (slot : Fin n → Q) (m : Machine σ Q n) : Prop :=
  ∀ c, m.runningTasks c = none → m.ready (slot c) = []

variable [LawfulScheduler σ] {m m' : Machine σ Q n} {e : Event n} {c : Fin n} {t : TaskPtr}
  {cfg : SimConfig} {slot : Fin n → Q}

/-- `dispatch_next` leaves no ready task to an idle core, if before it at most
the task `t` was ready for one. -/
theorem Next.idleEmpty (h : Next cfg slot c m m') (hc : m.runningTasks c = none)
    (honly : ∀ c', c' ≠ c → m.runningTasks c' = none →
      ∀ r ∈ m.ready (slot c'), slot c' = slot c ∧ r = t) :
    IdleEmpty slot m' := by
  intro c' hc'
  rw [List.eq_nil_iff_forall_not_mem]
  intro r hr
  cases h with
  | idle hempty =>
    rw [clearCore_eq_self m c hc] at hc' hr
    have hslot : slot c' = slot c := by
      by_cases hcc : c' = c
      · rw [hcc]
      · exact (honly c' hcc hc' r hr).1
    rw [hslot, hempty] at hr
    cases hr
  | @own p x hs =>
    have hcc : c' ≠ c := by
      rintro rfl
      simp at hc'
    have hidle : m.runningTasks c' = none := by simpa [hcc] using hc'
    have hp : p ∈ m.ready (slot c) := schedule_mem _ m.heap p (by rw [hs])
    rw [ready_dispatch, mem_ready_removeReady] at hr
    obtain ⟨hslot, rfl⟩ := honly c' hcc hidle r hr.1
    -- only `r` is ready, so it is the task that was dispatched
    obtain ⟨-, rfl⟩ := honly c' hcc hidle p (hslot ▸ hp)
    exact hr.2 hslot rfl
  | @steal b stolen p x hb hempty _ hst hs =>
    have hcc : c' ≠ c := by
      rintro rfl
      simp at hc'
    have hidle : m.runningTasks c' = none := by simpa [hcc] using hc'
    have honlyStolen : ∀ r ∈ (m.migrate b (slot c) stolen).ready (slot c), r = stolen := by
      intro r hr
      rcases mem_ready_migrate.1 hr with ⟨-, rfl⟩ | hr
      · rfl
      · rw [mem_ready_removeReady, hempty] at hr
        cases hr.1
    have hp : p ∈ (m.migrate b (slot c) stolen).ready (slot c) := schedule_mem _ _ p (by rw [hs])
    rw [ready_dispatch, mem_ready_removeReady] at hr
    by_cases hslot : slot c' = slot c
    · have hrp : r = p := (honlyStolen r (hslot ▸ hr.1)).trans (honlyStolen p hp).symm
      exact hr.2 hslot (by rw [hrp])
    · rcases mem_ready_migrate.1 hr.1 with ⟨h, -⟩ | hr
      · exact hslot h
      · exact hslot (honly c' hcc hidle r (mem_ready_removeReady.1 hr).1).1

/-- No step leaves a ready task to an idle core. -/
theorem Move.idleEmpty (h : Move cfg slot m e m') (hm : IdleEmpty slot m) :
    IdleEmpty slot m' := by
  cases h with
  | skip => exact hm
  | @queued q harr hbusy =>
    intro c hc
    have hslot : slot c ≠ q := fun hq => hbusy c hq hc
    rw [List.eq_nil_iff_forall_not_mem]
    intro r hr
    rcases mem_ready_enqueue.1 hr with ⟨hq, -⟩ | hr
    · exact hslot hq
    · rw [ready_pop, hm c hc] at hr
      cases hr
  | @woken c _ harr hidle hn =>
    refine hn.idleEmpty (t := e.task) hidle fun c' _ hc' r hr => ?_
    rcases mem_ready_enqueue.1 hr with h | hr
    · exact h
    · rw [ready_pop, hm c' hc'] at hr
      cases hr
  | @preempted c p _ harr hc hbusy _ hn =>
    refine hn.idleEmpty (t := e.task) ?_ fun c' hcc hc' r hr => ?_
    · rw [countSwitch_runningTasks, yieldCore_runningTasks, setAt_self]
    · have hidle : m.runningTasks c' = none := by simpa [hcc] using hc'
      have hslot : slot c' ≠ slot c := fun h => hbusy c' h hidle
      rw [ready_countSwitch, mem_ready_yieldCore, mem_ready_enqueue, ready_pop, hm c' hidle] at hr
      simp [hslot] at hr
  | expired hts hc hn =>
    refine hn.idleEmpty (t := e.task) ?_ fun c' hcc hc' r hr => ?_
    · rw [settle_runningTasks, setAt_self]
    · have hidle : m.runningTasks c' = none := by simpa [hcc] using hc'
      rcases mem_ready_settle hr with h | hr
      · exact h
      · rw [ready_pop, hm c' hidle] at hr
        cases hr

/-- In every reachable state an idle core has nothing to run. -/
theorem idleEmpty_of_reachable [NeZero n] {schedulers : Q → σ} {w : Workload}
    (hempty : ∀ q, readyTasks (schedulers q) = [])
    (h : Lts.Reachable (Step cfg slot) (init schedulers w) m) : IdleEmpty slot m := by
  refine h.induction (I := IdleEmpty slot) ?_ ?_
  · intro c _
    exact hempty (slot c)
  · intro s e t _ hm hstep
    exact hstep.2.2.idleEmpty hm

end Machine

/-! ## The single-queue simulator -/

/-- When the scheduler has a ready task, every core is running one. -/
theorem Simulator.workConserving {n : ℕ} [NeZero n] (kind : SchedulerKind) (cfg : SimConfig)
    (w : Workload) (s : Simulator kind.State n)
    (hs : Lts.Reachable (Step cfg) (init kind.make w) s)
    (hready : 0 < readyCount (s.schedulers ())) :
    ∀ c, ∃ p, s.runningTasks c = some p := by
  intro c
  rw [← Option.ne_none_iff_exists']
  intro hc
  have hempty := Machine.idleEmpty_of_reachable (fun _ => kind.readyTasks_make)
    (hs.simulate (f := id) fun _ _ _ => step_machine) c hc
  exact hready.ne' (readyCount_eq_zero.2 hempty)

/-- On one core the second task waits while the first one runs. -/
theorem Simulator.workConserving_pair :
    let s := turns (n := 1) ⟨50, 5, by decide⟩ 2 (init (SchedulerKind.stride {}).make .pair)
    ∀ c, ∃ p, s.runningTasks c = some p :=
  workConserving (.stride {}) _ .pair _ (reachable_turns _ 2 _) (by decide +kernel)

end SchedSim
