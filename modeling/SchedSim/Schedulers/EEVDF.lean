import SchedSim.Scheduler

/-!
# Earliest Eligible Virtual Deadline First

`schedulers/eevdf_scheduler.hpp` over the single-queue base class: among the
ready tasks whose eligible time has come, the one with the earliest virtual
deadline runs; if none is eligible yet, the one that becomes eligible first.
The starting value `numeric_limits<double>::max()` of a scan is the state in
which it has seen no candidate.
-/

namespace SchedSim

/-- The tunables, with the values the constructor gives them. -/
structure EEVDFParams where
  baseSlice : ℚ := 3
  minSlice : ℚ := 1
  deriving DecidableEq

structure EEVDFScheduler where
  params : EEVDFParams
  readyQueue : List TaskPtr
  virtualTime : ℚ
  deriving DecidableEq

namespace EEVDFScheduler

/-- Slack of the eligibility test. -/
def tolerance : ℚ := 1 / 10 ^ 9

def new (params : EEVDFParams) : EEVDFScheduler := ⟨params, [], 0⟩

/-- The virtual length of the next request of a task. -/
def calcRequest (s : EEVDFScheduler) (t : Task) : ℚ :=
  s.params.baseSlice * nice0Load / t.weight.toNat

def calcTimeSlice (s : EEVDFScheduler) (t : Task) : ℚ :=
  max (s.params.baseSlice * t.weight.toNat / nice0Load) s.params.minSlice

/-- A new task starts at the virtual time; a returning task is not left behind it. -/
def addTask (s : EEVDFScheduler) (h : Heap) (p : TaskPtr) : EEVDFScheduler × Heap :=
  let eligible := if (h p).startTime < 0 then s.virtualTime
    else max (h p).eligibleTime s.virtualTime
  let v := if (h p).startTime < 0 then s.virtualTime else max (h p).vruntime s.virtualTime
  ({ s with readyQueue := s.readyQueue ++ [p] },
    h.modify p fun t =>
      { t with
        eligibleTime := eligible
        vruntime := v
        deadline := eligible + s.calcRequest t })

def removeTask (s : EEVDFScheduler) (h : Heap) (i : UInt32) : EEVDFScheduler :=
  { s with readyQueue := s.readyQueue.filter fun p => (h p).id ≠ i }

def isEligible (s : EEVDFScheduler) (t : Task) : Bool := t.eligibleTime ≤ s.virtualTime + tolerance

/-- The ready task that becomes eligible first. -/
def findEarliestEligible (s : EEVDFScheduler) (h : Heap) : Option TaskPtr :=
  s.readyQueue.argmin fun p => (h p).eligibleTime

/-- The eligible task with the earliest deadline, or else the first to become eligible. -/
def pick (s : EEVDFScheduler) (h : Heap) : Option TaskPtr :=
  match (s.readyQueue.filter fun p => s.isEligible (h p)).argmin fun p => (h p).deadline with
  | some best => some best
  | none => s.findEarliestEligible h

def schedule (s : EEVDFScheduler) (h : Heap) : ScheduleDecision :=
  match s.pick h with
  | none => ⟨none, 0⟩
  | some best => ⟨some best, s.calcTimeSlice (h best)⟩

/-- Virtual time advances by the CPU time used over the weight that is waiting. -/
def advanceVirtualTime (s : EEVDFScheduler) (h : Heap) (cpuTime : ℚ) : EEVDFScheduler :=
  let waiting : ℚ := (s.readyQueue.map fun p => ((h p).weight.toNat : ℚ)).sum
  let totalWeight := if waiting < 1 then nice0Load else waiting
  { s with virtualTime := s.virtualTime + cpuTime * nice0Load / totalWeight }

def onCpuUsed (s : EEVDFScheduler) (h : Heap) (p : TaskPtr) (cpuTime : ℚ) :
    EEVDFScheduler × Heap :=
  let s' := s.advanceVirtualTime h cpuTime
  (s', h.modify p fun t =>
    let v := t.vruntime + cpuTime * nice0Load / t.weight.toNat
    { t with vruntime := v, eligibleTime := v, deadline := v + s'.calcRequest t })

def shouldPreempt (s : EEVDFScheduler) (h : Heap) (newTask : TaskPtr) :
    Option TaskPtr → Bool
  | none => true
  | some cur => s.isEligible (h newTask) && ((h newTask).deadline < (h cur).deadline : Bool)

def reset (s : EEVDFScheduler) : EEVDFScheduler := { s with readyQueue := [], virtualTime := 0 }

instance : Scheduler EEVDFScheduler where
  readyTasks s := s.readyQueue
  addTask := addTask
  removeTask := removeTask
  schedule := schedule
  onCpuUsed := onCpuUsed
  shouldPreempt := shouldPreempt
  readyCount s := s.readyQueue.length

theorem schedule_task (s : EEVDFScheduler) (h : Heap) : (s.schedule h).task = s.pick h := by
  unfold schedule
  cases s.pick h <;> rfl

/-- What a pick says about the picked task: it is ready, and it is either the
eligible task with the earliest deadline, or nothing is eligible and it is the
first to become so. -/
theorem pick_spec {s : EEVDFScheduler} {h : Heap} {p : TaskPtr} (hp : s.pick h = some p) :
    p ∈ s.readyQueue ∧
      ((s.isEligible (h p) = true ∧
          ∀ q ∈ s.readyQueue, s.isEligible (h q) = true → (h p).deadline ≤ (h q).deadline) ∨
        ((∀ q ∈ s.readyQueue, s.isEligible (h q) = false) ∧
          ∀ q ∈ s.readyQueue, (h p).eligibleTime ≤ (h q).eligibleTime)) := by
  rw [pick] at hp
  split at hp
  next best hbest =>
    rw [Option.some.injEq] at hp
    subst hp
    have hmem := List.mem_filter.1 (List.argmin_mem hbest)
    refine ⟨hmem.1, Or.inl ⟨hmem.2, fun q hq he => ?_⟩⟩
    exact List.le_of_mem_argmin (f := fun p => (h p).deadline) (List.mem_filter.2 ⟨hq, he⟩) hbest
  next hnone =>
    have hempty := List.filter_eq_nil_iff.1 (List.argmin_eq_none.1 hnone)
    refine ⟨List.argmin_mem hp, Or.inr ⟨fun q hq => by simpa using hempty q hq, fun q hq => ?_⟩⟩
    exact List.le_of_mem_argmin (f := fun p => (h p).eligibleTime) hq hp

theorem pick_eq_none {s : EEVDFScheduler} {h : Heap} (hp : s.pick h = none) :
    s.readyQueue = [] := by
  rw [pick] at hp
  split at hp
  · cases hp
  · exact List.argmin_eq_none.1 hp

instance : LawfulScheduler EEVDFScheduler where
  readyCount_eq _ := rfl
  addTask_perm _ _ _ := List.perm_append_singleton ..
  removeTask_eq _ _ _ := rfl
  onCpuUsed_perm _ _ _ _ := List.Perm.refl _
  schedule_mem s h _ hp := (pick_spec ((schedule_task s h).symm.trans hp)).1
  schedule_none s h hn := pick_eq_none ((schedule_task s h).symm.trans hn)
  addTask_ledger _ h p := h.sameLedger_modify p fun _ => rfl
  onCpuUsed_ledger _ h p _ := h.sameLedger_modify p fun _ => rfl

/-- No slice is shorter than the minimum slice. -/
theorem grantsAtLeast (params : EEVDFParams) :
    GrantsAtLeast params.minSlice fun s : EEVDFScheduler => s.params = params where
  addTask _ _ _ hs := hs
  removeTask _ _ _ hs := hs
  onCpuUsed _ _ _ _ hs := hs
  schedule s h p x hs hd := by
    change s.schedule h = _ at hd
    unfold schedule at hd
    split at hd
    · cases hd
    · cases hd
      rw [← hs]
      exact le_max_right _ _

end EEVDFScheduler

end SchedSim
