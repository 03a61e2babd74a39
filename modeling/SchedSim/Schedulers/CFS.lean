import SchedSim.MinElement
import SchedSim.Scheduler

/-!
# The Completely Fair Scheduler

`schedulers/cfs_scheduler.hpp` over the single-queue base class: the ready task
with the least virtual runtime runs, for a weighted part of the scheduling
period, and is charged virtual runtime in inverse proportion to its weight.
-/

namespace SchedSim

/-- The tunables, with the values the constructor gives them. -/
structure CFSParams where
  schedLatency : ℚ := 24
  minGranularity : ℚ := 3
  wakeupGranularity : ℚ := 4
  deriving DecidableEq

structure CFSScheduler where
  params : CFSParams
  readyQueue : List TaskPtr
  minVruntime : ℚ
  deriving DecidableEq

namespace CFSScheduler

/-- Virtual runtimes closer than this are taken for equal. -/
def tolerance : ℚ := 1 / 10 ^ 9

def new (params : CFSParams) : CFSScheduler := ⟨params, [], 0⟩

/-- Less virtual runtime first; ids decide when it is equal up to the tolerance. -/
def cfsComparator (h : Heap) (a b : TaskPtr) : Bool :=
  if tolerance < |(h a).vruntime - (h b).vruntime| then (h a).vruntime < (h b).vruntime
  else (h a).id < (h b).id

/-- The vruntime of a new task is the current minimum; a returning task keeps
its own, but no more credit than one scheduling period. -/
def addTask (s : CFSScheduler) (h : Heap) (p : TaskPtr) : CFSScheduler × Heap :=
  let maxCredit := s.params.schedLatency * nice0Load / (h p).weight.toNat
  let v := if (h p).startTime < 0 then s.minVruntime
    else max (h p).vruntime (s.minVruntime - maxCredit)
  ({ s with readyQueue := s.readyQueue ++ [p] }, h.modify p fun t => { t with vruntime := v })

def removeTask (s : CFSScheduler) (h : Heap) (i : UInt32) : CFSScheduler :=
  { s with readyQueue := s.readyQueue.filter fun p => (h p).id ≠ i }

/-- The scheduling period is stretched when many tasks are ready; the weight of
the picked task is counted once on its own and once more in the queue. -/
def calcTimeSlice (s : CFSScheduler) (h : Heap) (p : TaskPtr) (nrRunning : ℕ) : ℚ :=
  let nr := if nrRunning = 0 then 1 else nrRunning
  let period := if truncate (s.params.schedLatency / s.params.minGranularity) < (nr : ℤ)
    then nr * s.params.minGranularity else s.params.schedLatency
  let totalWeight : ℚ := (h p).weight.toNat + (s.readyQueue.map fun q =>
    ((h q).weight.toNat : ℚ)).sum
  max (period * (h p).weight.toNat / totalWeight) s.params.minGranularity

def schedule (s : CFSScheduler) (h : Heap) : ScheduleDecision :=
  match minElement (cfsComparator h) s.readyQueue with
  | none => ⟨none, 0⟩
  | some best => ⟨some best, s.calcTimeSlice h best s.readyQueue.length⟩

/-- The minimum follows the ready queue and never goes back; an empty queue
leaves it alone. -/
def updateMinVruntime (s : CFSScheduler) (h : Heap) : CFSScheduler :=
  match (s.readyQueue.map fun p => (h p).vruntime).min? with
  | none => s
  | some newMin => { s with minVruntime := max s.minVruntime newMin }

def onCpuUsed (s : CFSScheduler) (h : Heap) (p : TaskPtr) (cpuTime : ℚ) : CFSScheduler × Heap :=
  let h' := h.modify p fun t =>
    { t with vruntime := t.vruntime + cpuTime * nice0Load / t.weight.toNat }
  (s.updateMinVruntime h', h')

def shouldPreempt (s : CFSScheduler) (h : Heap) (newTask : TaskPtr) :
    Option TaskPtr → Bool
  | none => true
  | some cur =>
    let gran := s.params.wakeupGranularity * nice0Load / (h cur).weight.toNat
    (h newTask).vruntime + gran < (h cur).vruntime

def reset (s : CFSScheduler) : CFSScheduler := { s with readyQueue := [], minVruntime := 0 }

instance : Scheduler CFSScheduler where
  readyTasks s := s.readyQueue
  addTask := addTask
  removeTask := removeTask
  schedule := schedule
  onCpuUsed := onCpuUsed
  shouldPreempt := shouldPreempt
  readyCount s := s.readyQueue.length

@[simp] theorem updateMinVruntime_params (s : CFSScheduler) (h : Heap) :
    (s.updateMinVruntime h).params = s.params := by
  rw [updateMinVruntime]
  split <;> rfl

@[simp] theorem updateMinVruntime_readyQueue (s : CFSScheduler) (h : Heap) :
    (s.updateMinVruntime h).readyQueue = s.readyQueue := by
  rw [updateMinVruntime]
  split <;> rfl

theorem schedule_task (s : CFSScheduler) (h : Heap) :
    (s.schedule h).task = minElement (cfsComparator h) s.readyQueue := by
  unfold schedule
  cases minElement (cfsComparator h) s.readyQueue <;> rfl

instance : LawfulScheduler CFSScheduler where
  readyCount_eq _ := rfl
  addTask_perm _ _ _ := List.perm_append_singleton ..
  removeTask_eq _ _ _ := rfl
  onCpuUsed_perm s h p x := by
    change (updateMinVruntime s _).readyQueue.Perm s.readyQueue
    rw [updateMinVruntime_readyQueue]
  schedule_mem s h _ hp := minElement_mem ((schedule_task s h).symm.trans hp)
  schedule_none s h hn := minElement_eq_none.1 ((schedule_task s h).symm.trans hn)
  addTask_ledger _ h p := h.sameLedger_modify p fun _ => rfl
  onCpuUsed_ledger _ h p _ := h.sameLedger_modify p fun _ => rfl

/-- No slice is shorter than the minimum granularity. -/
theorem grantsAtLeast (params : CFSParams) :
    GrantsAtLeast params.minGranularity fun s : CFSScheduler => s.params = params where
  addTask _ _ _ hs := hs
  removeTask _ _ _ hs := hs
  onCpuUsed s h p x hs := (updateMinVruntime_params s _).trans hs
  schedule s h p x hs hd := by
    change s.schedule h = _ at hd
    unfold schedule at hd
    split at hd
    · cases hd
    · cases hd
      rw [← hs]
      exact le_max_right _ _

end CFSScheduler

end SchedSim
