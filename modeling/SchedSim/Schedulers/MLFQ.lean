import SchedSim.Scheduler
import Mathlib.Data.List.GetD
import Mathlib.Data.Nat.SuccPred

/-!
# The Multi-Level Feedback Queue

`scheduler/multi_queue_scheduler.hpp` and `schedulers/mlfq_scheduler.hpp`: one
FIFO queue for each priority level.  New tasks start at the top, a task that
has used up its allotment at a level is demoted, and from time to time every
queued task is boosted back to the top.

The class carries the facts its loops rely on: there is a level, and there is
one queue for each level.
-/

namespace SchedSim

/-- Time slice and allotment of one level (an allotment of 0 means the quantum). -/
structure QueueConfig where
  timeQuantum : ℚ
  allotment : ℚ
  deriving DecidableEq

/-- The tunables, with the values the constructor gives them. -/
structure MLFQParams where
  queueConfigs : List QueueConfig := [⟨2, 4⟩, ⟨4, 8⟩, ⟨8, 0⟩]
  boostInterval : ℚ := 100
  enableBoost : Bool := true
  configs_ne : queueConfigs ≠ [] := by decide
  deriving DecidableEq

structure MLFQScheduler where
  params : MLFQParams
  queues : List (List TaskPtr)
  timeSinceLastBoost : ℚ
  queues_length : queues.length = params.queueConfigs.length
  deriving DecidableEq

namespace MLFQScheduler

def new (params : MLFQParams) : MLFQScheduler where
  params := params
  queues := params.queueConfigs.map fun _ => []
  timeSinceLastBoost := 0
  queues_length := by simp

def numLevels (s : MLFQScheduler) : ℤ := s.params.queueConfigs.length

/-- The configuration of a level; levels that do not exist get the last one. -/
def configAt (s : MLFQScheduler) (level : ℤ) : QueueConfig :=
  if level < 0 ∨ s.numLevels ≤ level then s.params.queueConfigs.getLast s.params.configs_ne
  else s.params.queueConfigs.getD level.toNat ⟨0, 0⟩

def quantumForLevel (s : MLFQScheduler) (level : ℤ) : ℚ := (s.configAt level).timeQuantum

/-- At a level that exists, an allotment of 0 stands for the quantum. -/
def allotmentForLevel (s : MLFQScheduler) (level : ℤ) : ℚ :=
  if level < 0 ∨ s.numLevels ≤ level then (s.configAt level).allotment
  else
    let allot := (s.configAt level).allotment
    if 0 < allot then allot else (s.configAt level).timeQuantum

/-- The level clamped into the range of the queues. -/
def clampLevel (s : MLFQScheduler) (level : ℤ) : ℤ := max 0 (min level (s.numLevels - 1))

/-- Append to the queue of the task's level, clamped into range. -/
def enqueue (s : MLFQScheduler) (h : Heap) (p : TaskPtr) : MLFQScheduler × Heap :=
  let level := s.clampLevel (h p).currentQueue
  ({ s with
      queues := s.queues.modify level.toNat (· ++ [p])
      queues_length := by simp [s.queues_length] },
    h.modify p fun t => { t with currentQueue := level })

/-- New tasks start at the highest priority; returning ones keep their level. -/
def addTask (s : MLFQScheduler) (h : Heap) (p : TaskPtr) : MLFQScheduler × Heap :=
  let h' := if (h p).startTime < 0
    then h.modify p fun t =>
      { t with currentQueue := 0, allotmentRemaining := s.allotmentForLevel 0 }
    else h
  s.enqueue h' p

def removeTask (s : MLFQScheduler) (h : Heap) (i : UInt32) : MLFQScheduler :=
  { s with
    queues := s.queues.map fun queue => queue.filter fun p => (h p).id ≠ i
    queues_length := by simp [s.queues_length] }

/-- The front of the highest-priority queue that is not empty. -/
def findBest (s : MLFQScheduler) : Option TaskPtr := s.queues.findSome? List.head?

def schedule (s : MLFQScheduler) (h : Heap) : ScheduleDecision :=
  match s.findBest with
  | none => ⟨none, 0⟩
  | some best => ⟨some best, s.quantumForLevel (h best).currentQueue⟩

/-- Move every task below the top level to the end of the top queue. -/
def boostAll (s : MLFQScheduler) (h : Heap) : MLFQScheduler × Heap :=
  let lower := s.queues.tail.flatten
  ({ s with
      queues := (s.queues.map fun _ => []).modify 0 fun _ => s.queues.headD [] ++ lower
      queues_length := by simp [s.queues_length] },
    h.modifyAll lower fun t => { t with currentQueue := 0 })

/-- Boost, and give every queued task a fresh allotment. -/
def performBoost (s : MLFQScheduler) (h : Heap) : MLFQScheduler × Heap :=
  let (s', h') := s.boostAll h
  (s', h'.modifyAll s'.queues.flatten fun t =>
    { t with allotmentRemaining := s'.allotmentForLevel 0 })

/-- Charge the allotment; when it is used up, demote and start a fresh one. -/
def chargeAllotment (s : MLFQScheduler) (cpuTime : ℚ) (t : Task) : Task :=
  let left := t.allotmentRemaining - cpuTime
  if left ≤ 0 then
    let level := if t.currentQueue < s.numLevels - 1 then t.currentQueue + 1 else t.currentQueue
    { t with currentQueue := level, allotmentRemaining := s.allotmentForLevel level }
  else { t with allotmentRemaining := left }

def onCpuUsed (s : MLFQScheduler) (h : Heap) (p : TaskPtr) (cpuTime : ℚ) :
    MLFQScheduler × Heap :=
  let h' := h.modify p (s.chargeAllotment cpuTime)
  if s.params.enableBoost then
    let since := s.timeSinceLastBoost + cpuTime
    if s.params.boostInterval ≤ since then
      let (s'', h'') := s.performBoost h'
      ({ s'' with timeSinceLastBoost := 0 }, h'')
    else ({ s with timeSinceLastBoost := since }, h')
  else (s, h')

/-- Preempt if the new task is in a higher-priority queue. -/
def shouldPreempt (_ : MLFQScheduler) (h : Heap) (newTask : TaskPtr) : Option TaskPtr → Bool
  | none => true
  | some cur => (h newTask).currentQueue < (h cur).currentQueue

def readyCount (s : MLFQScheduler) : ℕ := (s.queues.map List.length).sum

/-- Every queue is cleared, and the next boost is a whole interval away. -/
def reset (s : MLFQScheduler) : MLFQScheduler :=
  { s with
    queues := s.queues.map fun _ => []
    timeSinceLastBoost := 0
    queues_length := by simp [s.queues_length] }

instance : Scheduler MLFQScheduler where
  readyTasks s := s.queues.flatten
  addTask := addTask
  removeTask := removeTask
  schedule := schedule
  onCpuUsed := onCpuUsed
  shouldPreempt := shouldPreempt
  readyCount := readyCount

/-! ## The queues as one pool -/

theorem numLevels_pos (s : MLFQScheduler) : 0 < s.numLevels := by
  have := List.length_pos_of_ne_nil s.params.configs_ne
  simp only [numLevels]
  omega

theorem clampLevel_lt (s : MLFQScheduler) (level : ℤ) :
    (s.clampLevel level).toNat < s.queues.length := by
  have hpos := s.numLevels_pos
  have hlen := s.queues_length
  simp only [clampLevel, numLevels] at *
  omega

theorem flatten_modify_append_perm {α : Type*} (a : α) :
    ∀ (ls : List (List α)) (k : ℕ), k < ls.length →
      (ls.modify k (· ++ [a])).flatten.Perm (a :: ls.flatten)
  | [], k, hk => absurd hk (by simp)
  | l :: ls, 0, _ => by simp
  | l :: ls, k + 1, hk => by
    have ih := flatten_modify_append_perm a ls k (by simpa using hk)
    simpa using (ih.append_left l).trans List.perm_middle

theorem flatten_map_filter {α : Type*} (f : α → Bool) (ls : List (List α)) :
    (ls.map (List.filter f)).flatten = ls.flatten.filter f := by
  rw [List.filter_flatten]

theorem findSome?_head? {α : Type*} (ls : List (List α)) :
    ls.findSome? List.head? = ls.flatten.head? := by
  rw [List.head?_flatten]

theorem schedule_task (s : MLFQScheduler) (h : Heap) :
    (s.schedule h).task = s.queues.flatten.head? := by
  rw [← findSome?_head?, ← findBest]
  unfold schedule
  cases s.findBest <;> rfl

theorem boostAll_perm (s : MLFQScheduler) (h : Heap) :
    (s.boostAll h).1.queues.flatten.Perm s.queues.flatten := by
  simp only [boostAll]
  cases hq : s.queues with
  | nil => simp
  | cons q qs => simp

theorem performBoost_perm (s : MLFQScheduler) (h : Heap) :
    (s.performBoost h).1.queues.flatten.Perm s.queues.flatten := boostAll_perm s h

theorem boostAll_ledger (s : MLFQScheduler) (h : Heap) : h.SameLedger (s.boostAll h).2 :=
  h.sameLedger_modifyAll _ fun _ => rfl

theorem performBoost_ledger (s : MLFQScheduler) (h : Heap) : h.SameLedger (s.performBoost h).2 :=
  (boostAll_ledger s h).trans (Heap.sameLedger_modifyAll _ _ fun _ => rfl)

theorem chargeAllotment_ledger (s : MLFQScheduler) (x : ℚ) (t : Task) :
    (s.chargeAllotment x t).ledger = t.ledger := by
  simp only [chargeAllotment]
  split <;> rfl

theorem enqueue_ledger (s : MLFQScheduler) (h : Heap) (p : TaskPtr) :
    h.SameLedger (s.enqueue h p).2 := h.sameLedger_modify p fun _ => rfl

theorem addTask_ledger (s : MLFQScheduler) (h : Heap) (p : TaskPtr) :
    h.SameLedger (s.addTask h p).2 := by
  simp only [addTask]
  split
  · refine Heap.SameLedger.trans ?_ (enqueue_ledger s _ p)
    exact h.sameLedger_modify p fun _ => rfl
  · exact enqueue_ledger s h p

theorem onCpuUsed_spec (s : MLFQScheduler) (h : Heap) (p : TaskPtr) (x : ℚ) :
    (s.onCpuUsed h p x).1.queues.flatten.Perm s.queues.flatten ∧
      h.SameLedger (s.onCpuUsed h p x).2 := by
  have hcharge := h.sameLedger_modify p (s.chargeAllotment_ledger x)
  simp only [onCpuUsed]
  split
  · split
    · exact ⟨performBoost_perm s (h.modify p (s.chargeAllotment x)),
        hcharge.trans (performBoost_ledger s _)⟩
    · exact ⟨List.Perm.refl _, hcharge⟩
  · exact ⟨List.Perm.refl _, hcharge⟩

instance : LawfulScheduler MLFQScheduler where
  readyCount_eq s := by simp [SchedSim.readyCount, readyCount, readyTasks]
  addTask_perm s _ p := flatten_modify_append_perm p s.queues _ (s.clampLevel_lt _)
  removeTask_eq s h i := flatten_map_filter _ s.queues
  onCpuUsed_perm s h p x := (onCpuUsed_spec s h p x).1
  schedule_mem s h _ hp := List.mem_of_mem_head? ((schedule_task s h).symm.trans hp)
  schedule_none s h hn := List.head?_eq_none_iff.1 ((schedule_task s h).symm.trans hn)
  addTask_ledger := addTask_ledger
  onCpuUsed_ledger s h p x := (onCpuUsed_spec s h p x).2

theorem configAt_mem (s : MLFQScheduler) (level : ℤ) :
    s.configAt level ∈ s.params.queueConfigs := by
  rw [configAt]
  split
  next => exact List.getLast_mem _
  next hlevel =>
    have hlt : level.toNat < s.params.queueConfigs.length := by
      simp only [numLevels] at hlevel
      omega
    rw [List.getD_eq_getElem _ _ hlt]
    exact List.getElem_mem hlt

theorem onCpuUsed_params (s : MLFQScheduler) (h : Heap) (p : TaskPtr) (x : ℚ) :
    (s.onCpuUsed h p x).1.params = s.params := by
  simp only [onCpuUsed]
  split
  · split <;> rfl
  · rfl

/-- No slice is shorter than the least quantum of a level. -/
theorem grantsAtLeast (params : MLFQParams) {δ : ℚ}
    (hδ : ∀ config ∈ params.queueConfigs, δ ≤ config.timeQuantum) :
    GrantsAtLeast δ fun s : MLFQScheduler => s.params = params where
  addTask s h p hs := hs
  removeTask _ _ _ hs := hs
  onCpuUsed s h p x hs := (onCpuUsed_params s h p x).trans hs
  schedule s h p x hs hd := by
    change s.schedule h = _ at hd
    unfold schedule at hd
    split at hd
    · cases hd
    · cases hd
      exact hδ _ (hs ▸ s.configAt_mem _)

end MLFQScheduler

end SchedSim
