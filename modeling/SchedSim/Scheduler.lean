import SchedSim.Task

/-!
# The scheduler interface

`scheduler/scheduler.hpp`: what the simulators may ask of a scheduling policy.
A policy is a state type `σ` with the virtual methods of the base class; a
method that writes to tasks returns the new heap next to the new state.  The
parameters `current_time` and `core_id` are left out, since no policy reads
them.

`LawfulScheduler` says what the simulators rely on: a policy keeps a pool of
ready tasks, answers `schedule` from that pool, and never touches the identity,
the priority or the timing of a task.  `GrantsAtLeast` bounds its time slices.
-/

namespace SchedSim

/-- Which task to run, if any, and how long before the next check. -/
structure ScheduleDecision where
  task : Option TaskPtr
  timeSlice : ℚ
  deriving DecidableEq

/-- The virtual methods of a scheduling policy with state `σ`. -/
class Scheduler (σ : Type) where
  /-- The tasks in the ready queue(s); only an observation, not a method. -/
  readyTasks : σ → List TaskPtr
  addTask : σ → Heap → TaskPtr → σ × Heap
  /-- Drop every ready task with the given id. -/
  removeTask : σ → Heap → UInt32 → σ
  schedule : σ → Heap → ScheduleDecision
  onCpuUsed : σ → Heap → TaskPtr → ℚ → σ × Heap
  /-- Should the newly arrived task take the core from the current one? -/
  shouldPreempt : σ → Heap → TaskPtr → Option TaskPtr → Bool
  readyCount : σ → ℕ

export Scheduler (readyTasks addTask removeTask schedule onCpuUsed shouldPreempt readyCount)

/-- The contract between a policy and the simulators. -/
class LawfulScheduler (σ : Type) [Scheduler σ] : Prop where
  readyCount_eq : ∀ s : σ, readyCount s = (readyTasks s).length
  addTask_perm : ∀ (s : σ) (h : Heap) (p : TaskPtr),
    (readyTasks (addTask s h p).1).Perm (p :: readyTasks s)
  removeTask_eq : ∀ (s : σ) (h : Heap) (i : UInt32),
    readyTasks (removeTask s h i) = (readyTasks s).filter fun p => (h p).id ≠ i
  onCpuUsed_perm : ∀ (s : σ) (h : Heap) (p : TaskPtr) (x : ℚ),
    (readyTasks (onCpuUsed s h p x).1).Perm (readyTasks s)
  schedule_mem : ∀ (s : σ) (h : Heap) (p : TaskPtr),
    (schedule s h).task = some p → p ∈ readyTasks s
  schedule_none : ∀ (s : σ) (h : Heap), (schedule s h).task = none → readyTasks s = []
  addTask_ledger : ∀ (s : σ) (h : Heap) (p : TaskPtr), h.SameLedger (addTask s h p).2
  onCpuUsed_ledger : ∀ (s : σ) (h : Heap) (p : TaskPtr) (x : ℚ),
    h.SameLedger (onCpuUsed s h p x).2

export LawfulScheduler (readyCount_eq addTask_perm removeTask_eq onCpuUsed_perm schedule_mem
  schedule_none addTask_ledger onCpuUsed_ledger)

/-- Under a property of the policy that its methods keep, every decision grants
a time slice of at least `δ`. -/
structure GrantsAtLeast {σ : Type} [Scheduler σ] (δ : ℚ) (P : σ → Prop) : Prop where
  addTask : ∀ (s : σ) (h : Heap) (p : TaskPtr), P s → P (addTask s h p).1
  removeTask : ∀ (s : σ) (h : Heap) (i : UInt32), P s → P (removeTask s h i)
  onCpuUsed : ∀ (s : σ) (h : Heap) (p : TaskPtr) (x : ℚ), P s → P (onCpuUsed s h p x).1
  schedule : ∀ (s : σ) (h : Heap) (p : TaskPtr) (x : ℚ), P s → schedule s h = ⟨some p, x⟩ → δ ≤ x

theorem GrantsAtLeast.mono {σ : Type} [Scheduler σ] {δ δ' : ℚ} {P : σ → Prop}
    (h : GrantsAtLeast δ P) (hδ : δ' ≤ δ) : GrantsAtLeast δ' P :=
  { h with schedule := fun s heap p x hs hd => hδ.trans (h.schedule s heap p x hs hd) }

section Lawful

variable {σ : Type} [Scheduler σ] [LawfulScheduler σ] {s : σ} {h : Heap} {p q : TaskPtr}

theorem mem_addTask : q ∈ readyTasks (addTask s h p).1 ↔ q = p ∨ q ∈ readyTasks s := by
  rw [(addTask_perm s h p).mem_iff, List.mem_cons]

theorem count_addTask :
    (readyTasks (addTask s h p).1).count q
      = (readyTasks s).count q + if q = p then 1 else 0 := by
  rw [(addTask_perm s h p).count_eq, List.count_cons]
  by_cases hq : q = p
  · simp [hq]
  · simp [hq, Ne.symm hq]

theorem count_onCpuUsed {x : ℚ} :
    (readyTasks (onCpuUsed s h p x).1).count q = (readyTasks s).count q :=
  (onCpuUsed_perm s h p x).count_eq q

theorem mem_removeTask {i : UInt32} :
    q ∈ readyTasks (removeTask s h i) ↔ q ∈ readyTasks s ∧ (h q).id ≠ i := by
  rw [removeTask_eq, List.mem_filter, decide_eq_true_iff]

theorem count_removeTask {i : UInt32} (hq : (h q).id ≠ i) :
    (readyTasks (removeTask s h i)).count q = (readyTasks s).count q := by
  rw [removeTask_eq, List.count_filter]
  simpa using hq

theorem count_removeTask_self : (readyTasks (removeTask s h (h q).id)).count q = 0 := by
  rw [List.count_eq_zero, mem_removeTask]
  simp

theorem readyCount_eq_zero : readyCount s = 0 ↔ readyTasks s = [] := by
  rw [readyCount_eq, List.length_eq_zero_iff]

end Lawful

end SchedSim
