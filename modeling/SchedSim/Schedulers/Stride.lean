import SchedSim.MinElement
import SchedSim.Scheduler

/-!
# Stride scheduling

`schedulers/stride_scheduler.hpp` over the single-queue base class: every task
has a stride, inversely proportional to its weight; the ready task with the
least pass value runs for one quantum and its pass advances by its stride.
Strides and passes are 32-bit words, the global pass is a 64-bit word.
-/

namespace SchedSim

/-- The tunables, with the values the constructor gives them. -/
structure StrideParams where
  quantum : ℚ := 5
  strideConstant : UInt32 := 10000
  deriving DecidableEq

structure StrideScheduler where
  params : StrideParams
  readyQueue : List TaskPtr
  globalPass : UInt64
  deriving DecidableEq

namespace StrideScheduler

def new (params : StrideParams) : StrideScheduler := ⟨params, [], 0⟩

/-- Less pass first, then less stride, then the lower id. -/
def strideComparator (h : Heap) (a b : TaskPtr) : Bool :=
  if (h a).passValue ≠ (h b).passValue then (h a).passValue < (h b).passValue
  else if (h a).stride ≠ (h b).stride then (h a).stride < (h b).stride
  else (h a).id < (h b).id

/-- The stride of a task of the given weight. -/
def strideOf (s : StrideScheduler) (weight : UInt32) : UInt32 :=
  max 1 (s.params.strideConstant / (if weight = 0 then 1 else weight))

/-- A new task starts at the global pass; a returning task is lifted to it. -/
def addTask (s : StrideScheduler) (h : Heap) (p : TaskPtr) : StrideScheduler × Heap :=
  ({ s with readyQueue := s.readyQueue ++ [p] },
    h.modify p fun t =>
      { t with
        stride := s.strideOf t.weight
        passValue := if t.startTime < 0 then s.globalPass.toUInt32
          else max t.passValue s.globalPass.toUInt32 })

def removeTask (s : StrideScheduler) (h : Heap) (i : UInt32) : StrideScheduler :=
  { s with readyQueue := s.readyQueue.filter fun p => (h p).id ≠ i }

def schedule (s : StrideScheduler) (h : Heap) : ScheduleDecision :=
  match minElement (strideComparator h) s.readyQueue with
  | none => ⟨none, 0⟩
  | some best => ⟨some best, s.params.quantum⟩

/-- The global pass follows the least pass that is waiting and never goes back. -/
def updateGlobalPass (s : StrideScheduler) (h : Heap) : StrideScheduler :=
  match (s.readyQueue.map fun p => (h p).passValue.toUInt64).min? with
  | none => s
  | some minPass => { s with globalPass := max s.globalPass minPass }

/-- The pass advances by the used part of the stride, and by one at least. -/
def onCpuUsed (s : StrideScheduler) (h : Heap) (p : TaskPtr) (cpuTime : ℚ) :
    StrideScheduler × Heap :=
  let fraction := cpuTime / s.params.quantum
  let h' := h.modify p fun t =>
    let passAdvance := UInt32.ofNat (truncate (t.stride.toNat * fraction)).toNat
    { t with passValue := t.passValue + max passAdvance 1 }
  (s.updateGlobalPass h', h')

/-- Stride does not preempt on arrival. -/
def shouldPreempt (_ : StrideScheduler) (_ : Heap) (_ : TaskPtr) : Option TaskPtr → Bool
  | none => true
  | some _ => false

def reset (s : StrideScheduler) : StrideScheduler := { s with readyQueue := [], globalPass := 0 }

instance : Scheduler StrideScheduler where
  readyTasks s := s.readyQueue
  addTask := addTask
  removeTask := removeTask
  schedule := schedule
  onCpuUsed := onCpuUsed
  shouldPreempt := shouldPreempt
  readyCount s := s.readyQueue.length

@[simp] theorem updateGlobalPass_params (s : StrideScheduler) (h : Heap) :
    (s.updateGlobalPass h).params = s.params := by
  rw [updateGlobalPass]
  split <;> rfl

@[simp] theorem updateGlobalPass_readyQueue (s : StrideScheduler) (h : Heap) :
    (s.updateGlobalPass h).readyQueue = s.readyQueue := by
  rw [updateGlobalPass]
  split <;> rfl

theorem schedule_task (s : StrideScheduler) (h : Heap) :
    (s.schedule h).task = minElement (strideComparator h) s.readyQueue := by
  unfold schedule
  cases minElement (strideComparator h) s.readyQueue <;> rfl

/-! ## Strides and passes -/

theorem toNat_max (a b : UInt32) : (max a b).toNat = max a.toNat b.toNat := by
  show (if a ≤ b then b else a).toNat = _
  rw [max_def]
  simp only [UInt32.le_iff_toNat_le]
  split <;> rfl

theorem toNat_add {a b : UInt32} (h : a.toNat + b.toNat < 2 ^ 32) :
    (a + b).toNat = a.toNat + b.toNat := by
  rw [UInt32.toNat_add]
  exact Nat.mod_eq_of_lt h

theorem one_le_strideOf (s : StrideScheduler) (weight : UInt32) :
    1 ≤ (s.strideOf weight).toNat := by
  rw [strideOf, toNat_max]
  exact le_max_left _ _

theorem strideOf_congr {s s' : StrideScheduler} (h : s.params = s'.params) (weight : UInt32) :
    s.strideOf weight = s'.strideOf weight := by
  rw [strideOf, h, strideOf]

/-- The comparator never prefers a greater pass. -/
theorem passValue_le_of_strideComparator {h : Heap} {a b : TaskPtr} :
    (strideComparator h a b = true → ((h a).passValue.toNat : ℚ) ≤ (h b).passValue.toNat) ∧
      (strideComparator h a b = false → ((h b).passValue.toNat : ℚ) ≤ (h a).passValue.toNat) := by
  rw [strideComparator]
  simp only [Nat.cast_le]
  split
  next hne =>
    simp only [decide_eq_true_eq, decide_eq_false_iff_not, UInt32.lt_iff_toNat_lt, not_lt]
    exact ⟨le_of_lt, id⟩
  next heq =>
    rw [ne_eq, not_not] at heq
    rw [heq]
    exact ⟨fun _ => le_rfl, fun _ => le_rfl⟩

/-- The global pass stays where it is while a task is waiting that is not past it. -/
theorem updateGlobalPass_eq {s : StrideScheduler} {h : Heap} {q : TaskPtr} (hq : q ∈ s.readyQueue)
    (hle : (h q).passValue.toNat ≤ s.globalPass.toNat) :
    (s.updateGlobalPass h).globalPass = s.globalPass := by
  rw [updateGlobalPass]
  split
  next => rfl
  next minPass hmin =>
    have hnew : minPass ≤ (h q).passValue.toUInt64 :=
      (List.min?_eq_some_iff.1 hmin).2 _ (List.mem_map_of_mem hq)
    have hpass : (h q).passValue.toUInt64 ≤ s.globalPass := by
      rw [UInt64.le_iff_toNat_le]
      exact hle
    show (if s.globalPass ≤ minPass then minPass else s.globalPass) = s.globalPass
    split
    next hle => exact UInt64.le_antisymm (UInt64.le_trans hnew hpass) hle
    next => rfl

theorem addTask_self (s : StrideScheduler) (h : Heap) (p : TaskPtr) :
    (s.addTask h p).2 p =
      { h p with
        stride := s.strideOf (h p).weight
        passValue := if (h p).startTime < 0 then s.globalPass.toUInt32
          else max (h p).passValue s.globalPass.toUInt32 } := by
  rw [addTask]
  simp only [Heap.modify_self]

theorem onCpuUsed_self (s : StrideScheduler) (h : Heap) (p : TaskPtr) (x : ℚ) :
    (s.onCpuUsed h p x).2 p =
      { h p with
        passValue := (h p).passValue + max
          (UInt32.ofNat (truncate ((h p).stride.toNat * (x / s.params.quantum))).toNat) 1 } := by
  rw [onCpuUsed]
  simp only [Heap.modify_self]

theorem updateGlobalPass_congr {s : StrideScheduler} {h h' : Heap}
    (hh : ∀ q ∈ s.readyQueue, h' q = h q) : s.updateGlobalPass h' = s.updateGlobalPass h := by
  have hmap : (s.readyQueue.map fun p => (h' p).passValue.toUInt64)
      = s.readyQueue.map fun p => (h p).passValue.toUInt64 :=
    List.map_congr_left fun q hq => by rw [hh q hq]
  rw [updateGlobalPass, hmap, updateGlobalPass]

theorem schedule_quantum {s : StrideScheduler} {h : Heap} {p : TaskPtr} {x : ℚ}
    (hs : s.schedule h = ⟨some p, x⟩) : x = s.params.quantum := by
  unfold schedule at hs
  split at hs
  · cases hs
  · cases hs
    rfl

instance : LawfulScheduler StrideScheduler where
  readyCount_eq _ := rfl
  addTask_perm _ _ _ := List.perm_append_singleton ..
  removeTask_eq _ _ _ := rfl
  onCpuUsed_perm s h p x := by
    change (updateGlobalPass s _).readyQueue.Perm s.readyQueue
    rw [updateGlobalPass_readyQueue]
  schedule_mem s h _ hp := minElement_mem ((schedule_task s h).symm.trans hp)
  schedule_none s h hn := minElement_eq_none.1 ((schedule_task s h).symm.trans hn)
  addTask_ledger _ h p := h.sameLedger_modify p fun _ => rfl
  onCpuUsed_ledger _ h p _ := h.sameLedger_modify p fun _ => rfl

/-- Every slice is one quantum. -/
theorem grantsAtLeast (params : StrideParams) :
    GrantsAtLeast params.quantum fun s : StrideScheduler => s.params = params where
  addTask _ _ _ hs := hs
  removeTask _ _ _ hs := hs
  onCpuUsed s h p x hs := (updateGlobalPass_params s _).trans hs
  schedule s h p x hs hd := by
    change s.schedule h = _ at hd
    unfold schedule at hd
    split at hd
    · cases hd
    · cases hd
      exact (congrArg StrideParams.quantum hs).ge

end StrideScheduler

end SchedSim
