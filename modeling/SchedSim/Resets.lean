import SchedSim.Levels
import SchedSim.Locality
import SchedSim.OwnRecord

/-!
# What a reset leaves alone

`Task::reset` leaves the eligible time and the allotment of a task as they are.  CFS and Stride
never look at either of them, EEVDF not at the allotment, MLFQ not at the eligible time; and what
a policy does look at it writes when it is given a new task, before it looks.

* `Task.blank` — a task with the eligible time or the allotment blanked.
* `Task.blank_reset` — after a reset these two are all that is left of an earlier run.
* `Overlooks` — the methods of a policy do the same whatever is in the blanked fields, and in
  a new task whatever is in either of the two.
* `SchedulerKind.overlooks` — what each of the four policies overlooks.
-/

namespace SchedSim

/-! ## The two fields -/

namespace Task

/-- The task with its eligible time blanked, or its allotment, or both. -/
def blank (eligible allotment : Bool) (t : Task) : Task :=
  { t with
    eligibleTime := if eligible then 0 else t.eligibleTime
    allotmentRemaining := if allotment then 0 else t.allotmentRemaining }

variable {t u : Task} {e a : Bool} {now : ℚ}

/-- Whatever can be read off the other fields is the same for two tasks with the same other
fields. -/
theorem congrBlank {α : Type*} (f : Task → α) (h : t.blank e a = u.blank e a)
    (hf : ∀ t : Task, f (t.blank e a) = f t := by intro _; rfl) : f t = f u := by
  rw [← hf t, h, hf u]

/-- Blanking more than the other fields leaves less. -/
theorem blank_of_blank (h : t.blank e a = u.blank e a) : t.blank true true = u.blank true true :=
  congrBlank (blank true true) h

/-- After a reset these two fields are all that is left of an earlier run. -/
theorem blank_reset {args : TaskArgs} (h : t.fixed = (new args).fixed) :
    t.reset.blank true true = (new args).blank true true := by
  obtain ⟨hargs, hweight⟩ := Prod.mk.inj h
  obtain ⟨hid, harrival, hexecution, hnice⟩ := TaskArgs.mk.inj hargs
  simp only [blank, reset, hid, harrival, hexecution, hnice, hweight]
  rfl

theorem blank_start (t : Task) (time : ℚ) :
    (t.start time).blank e a = (t.blank e a).start time := by
  have hstart : (t.blank e a).startTime = t.startTime := rfl
  rw [start, start, hstart]
  by_cases hneg : t.startTime < 0
  · rw [if_pos hneg, if_pos hneg]
    rfl
  · rw [if_neg hneg, if_neg hneg]

theorem blank_markDispatched (t : Task) (time : ℚ) :
    (t.markDispatched time).blank e a = (t.blank e a).markDispatched time := by
  have hready : (t.blank e a).inReadyQueue = t.inReadyQueue := rfl
  rw [markDispatched, markDispatched, hready]
  cases t.inReadyQueue <;> rfl

end Task

/-- Every task with these fields blanked. -/
def Heap.blank (e a : Bool) (h : Heap) : Heap := fun p => (h p).blank e a

namespace Heap

variable {e a : Bool} {h : Heap} {p : TaskPtr} {f : Task → Task}

theorem blank_modify (h : Heap) (p : TaskPtr)
    (hf : ∀ t, (f t).blank e a = f (t.blank e a) := by intro _; rfl) :
    (h.blank e a).modify p f = (h.modify p f).blank e a := by
  funext r
  simp only [blank, Heap.modify_apply]
  split
  next => exact (hf _).symm
  next => rfl

theorem blank_modifyAll (h : Heap) (ps : List TaskPtr)
    (hf : ∀ t, (f t).blank e a = f (t.blank e a) := by intro _; rfl) :
    (h.blank e a).modifyAll ps f = (h.modifyAll ps f).blank e a := by
  induction ps generalizing h with
  | nil => rfl
  | cons p ps ih =>
    show ((h.blank e a).modify p f).modifyAll ps f = ((h.modify p f).modifyAll ps f).blank e a
    rw [blank_modify h p hf, ih]

end Heap

/-! ## Policies -/

/-- The methods of a policy do the same whatever is in the blanked fields; and when a task was
never started, `add_task` does the same whatever is in either of the two. -/
structure Overlooks (σ : Type) [Scheduler σ] (e a : Bool) : Prop where
  addTask_blank : ∀ (s : σ) (h : Heap) (p : TaskPtr),
    addTask s (h.blank e a) p = ((addTask s h p).1, (addTask s h p).2.blank e a)
  removeTask_blank : ∀ (s : σ) (h : Heap) (i : UInt32),
    removeTask s (h.blank e a) i = removeTask s h i
  schedule_blank : ∀ (s : σ) (h : Heap), schedule s (h.blank e a) = schedule s h
  onCpuUsed_blank : ∀ (s : σ) (h : Heap) (p : TaskPtr) (x : ℚ),
    onCpuUsed s (h.blank e a) p x = ((onCpuUsed s h p x).1, (onCpuUsed s h p x).2.blank e a)
  shouldPreempt_blank : ∀ (s : σ) (h : Heap) (p : TaskPtr) (cur : Option TaskPtr),
    shouldPreempt s (h.blank e a) p cur = shouldPreempt s h p cur
  addTask_new : ∀ (s : σ) (h h' : Heap) (p : TaskPtr), (h p).startTime < 0 →
    (h p).blank true true = (h' p).blank true true →
    (addTask s h p).1 = (addTask s h' p).1 ∧
      ((addTask s h p).2 p).blank e a = ((addTask s h' p).2 p).blank e a
  addTask_of_ne : ∀ (s : σ) (h : Heap) (p r : TaskPtr), r ≠ p → (addTask s h p).2 r = h r

/-! ## Heaps that are alike -/

/-- Two heaps hold the same record of a task, the blanked fields apart. -/
def Heap.Alike (e a : Bool) (h h' : Heap) (p : TaskPtr) : Prop :=
  (h p).blank e a = (h' p).blank e a

section Alike

variable {e a : Bool} {h h' : Heap} {p r : TaskPtr} {f : Task → Task}

/-- Heaps that are alike apart from one of the fields are alike apart from both. -/
theorem Heap.Alike.both (hr : Heap.Alike e a h h' r) : Heap.Alike true true h h' r :=
  Task.blank_of_blank hr

/-- What a method does to a task it does whatever is in the blanked fields. -/
theorem Heap.Alike.modify (hr : Heap.Alike e a h h' r)
    (hf : ∀ t, (f t).blank e a = f (t.blank e a) := by intro _; rfl) :
    Heap.Alike e a (h.modify p f) (h'.modify p f) r := by
  rw [Heap.Alike, Heap.modify_apply, Heap.modify_apply]
  split
  next => rw [hf, hf, hr]
  next => exact hr

variable {σ : Type} [Scheduler σ] [LocalScheduler σ] {s : σ} {x : ℚ} {i : UInt32}

namespace Overlooks

variable (ho : Overlooks σ e a)

include ho

theorem schedule_alike (hready : ∀ r ∈ readyTasks s, Heap.Alike e a h h' r) :
    schedule s h = schedule s h' := by
  rw [← ho.schedule_blank s h, ← ho.schedule_blank s h']
  exact schedule_agree (· ∈ readyTasks s) s _ _ (fun _ hr => hr) hready

theorem removeTask_alike (hready : ∀ r ∈ readyTasks s, Heap.Alike e a h h' r) :
    removeTask s h i = removeTask s h' i := by
  rw [← ho.removeTask_blank s h, ← ho.removeTask_blank s h']
  exact removeTask_agree (· ∈ readyTasks s) s _ _ i (fun _ hr => hr) hready

theorem shouldPreempt_alike {cur : TaskPtr} (hp : Heap.Alike e a h h' p)
    (hcur : Heap.Alike e a h h' cur) :
    shouldPreempt s h p (some cur) = shouldPreempt s h' p (some cur) := by
  rw [← ho.shouldPreempt_blank s h, ← ho.shouldPreempt_blank s h']
  exact shouldPreempt_agree s _ _ p cur hp hcur

/-- A task that is added is alike afterwards if it was before, or if it is new. -/
theorem addTask_alike (hready : ∀ r ∈ readyTasks s, Heap.Alike e a h h' r)
    (hboth : Heap.Alike true true h h' p) (hp : (h p).startTime < 0 ∨ Heap.Alike e a h h' p) :
    (addTask s h p).1 = (addTask s h' p).1 ∧
      Heap.Alike e a (addTask s h p).2 (addTask s h' p).2 p := by
  rcases hp with hnew | hp
  · exact ho.addTask_new s h h' p hnew hboth
  · have hagree := addTask_agree (fun r => r ∈ readyTasks s ∨ r = p) s (h.blank e a) (h'.blank e a)
      p (fun _ hr => .inl hr) (.inr rfl) (by
        rintro r (hr | rfl)
        · exact hready r hr
        · exact hp)
    rw [ho.addTask_blank, ho.addTask_blank] at hagree
    exact ⟨hagree.1, hagree.2 p (.inr rfl)⟩

/-- A charge keeps alike what was alike before. -/
theorem onCpuUsed_alike (hready : ∀ r ∈ readyTasks s, Heap.Alike e a h h' r)
    (hp : Heap.Alike e a h h' p) : (onCpuUsed s h p x).1 = (onCpuUsed s h' p x).1 ∧
      ∀ r, Heap.Alike e a (onCpuUsed s h p x).2 (onCpuUsed s h' p x).2 r ∨
        ((onCpuUsed s h p x).2 r = h r ∧ (onCpuUsed s h' p x).2 r = h' r) := by
  have hagree := onCpuUsed_agree (fun r => r ∈ readyTasks s ∨ r = p) s (h.blank e a) (h'.blank e a)
    p x (fun _ hr => .inl hr) (.inr rfl) (by
      rintro r (hr | rfl)
      · exact hready r hr
      · exact hp)
  rw [ho.onCpuUsed_blank, ho.onCpuUsed_blank] at hagree
  refine ⟨hagree.1, fun r => ?_⟩
  by_cases hr : r ∈ readyTasks s ∨ r = p
  · exact .inl (hagree.2 r hr)
  · rw [not_or] at hr
    exact .inr ⟨onCpuUsed_other s h p r x hr.2 hr.1, onCpuUsed_other s h' p r x hr.2 hr.1⟩

end Overlooks

end Alike

/-! ## The four policies -/

/-- CFS looks at neither of the two fields. -/
theorem CFSScheduler.overlooks : Overlooks CFSScheduler true true where
  addTask_blank s h p := by
    change CFSScheduler.addTask s (h.blank true true) p = _
    rw [CFSScheduler.addTask, h.blank_modify p]
    rfl
  removeTask_blank _ _ _ := rfl
  schedule_blank _ _ := rfl
  onCpuUsed_blank s h p x := by
    change CFSScheduler.onCpuUsed s (h.blank true true) p x = _
    rw [CFSScheduler.onCpuUsed, h.blank_modify p]
    rfl
  shouldPreempt_blank _ _ _ cur := by cases cur <;> rfl
  addTask_new s h h' p hnew hp := by
    have hnew' : (h' p).startTime < 0 := Task.congrBlank Task.startTime hp ▸ hnew
    change (CFSScheduler.addTask s h p).1 = (CFSScheduler.addTask s h' p).1 ∧
      ((CFSScheduler.addTask s h p).2 p).blank true true = _
    change _ ∧ _ = ((CFSScheduler.addTask s h' p).2 p).blank true true
    simp only [CFSScheduler.addTask, Heap.modify_self, if_pos hnew, if_pos hnew', true_and]
    exact congrArg (fun t : Task => { t with vruntime := s.minVruntime }) hp
  addTask_of_ne s h p r hr := SingleRecord.addTask_of_ne s h p r hr

/-- EEVDF does not look at the allotment, and it sets the eligible time of a new task. -/
theorem EEVDFScheduler.overlooks : Overlooks EEVDFScheduler false true where
  addTask_blank s h p := by
    change EEVDFScheduler.addTask s (h.blank false true) p = _
    rw [EEVDFScheduler.addTask, h.blank_modify p]
    rfl
  removeTask_blank _ _ _ := rfl
  schedule_blank _ _ := rfl
  onCpuUsed_blank s h p x := by
    change EEVDFScheduler.onCpuUsed s (h.blank false true) p x = _
    rw [EEVDFScheduler.onCpuUsed, h.blank_modify p]
    rfl
  shouldPreempt_blank _ _ _ cur := by cases cur <;> rfl
  addTask_new s h h' p hnew hp := by
    have hnew' : (h' p).startTime < 0 := Task.congrBlank Task.startTime hp ▸ hnew
    change (EEVDFScheduler.addTask s h p).1 = (EEVDFScheduler.addTask s h' p).1 ∧
      ((EEVDFScheduler.addTask s h p).2 p).blank false true = _
    change _ ∧ _ = ((EEVDFScheduler.addTask s h' p).2 p).blank false true
    simp only [EEVDFScheduler.addTask, Heap.modify_self, if_pos hnew, if_pos hnew', true_and]
    exact congrArg (fun t : Task => { t with
      eligibleTime := s.virtualTime, vruntime := s.virtualTime
      deadline := s.virtualTime + s.calcRequest t }) hp
  addTask_of_ne s h p r hr := by
    change (EEVDFScheduler.addTask s h p).2 r = h r
    rw [EEVDFScheduler.addTask]
    dsimp only
    exact Heap.modify_of_ne hr ..

/-- Stride looks at neither of the two fields. -/
theorem StrideScheduler.overlooks : Overlooks StrideScheduler true true where
  addTask_blank s h p := by
    change StrideScheduler.addTask s (h.blank true true) p = _
    rw [StrideScheduler.addTask, h.blank_modify p]
    rfl
  removeTask_blank _ _ _ := rfl
  schedule_blank _ _ := rfl
  onCpuUsed_blank s h p x := by
    change StrideScheduler.onCpuUsed s (h.blank true true) p x = _
    rw [StrideScheduler.onCpuUsed, h.blank_modify p]
    rfl
  shouldPreempt_blank _ _ _ cur := by cases cur <;> rfl
  addTask_new s h h' p hnew hp := by
    change (StrideScheduler.addTask s h p).1 = (StrideScheduler.addTask s h' p).1 ∧
      ((StrideScheduler.addTask s h p).2 p).blank true true = _
    change _ ∧ _ = ((StrideScheduler.addTask s h' p).2 p).blank true true
    simp only [StrideScheduler.addTask, Heap.modify_self, true_and]
    exact congrArg (fun t : Task => { t with
      stride := s.strideOf t.weight
      passValue := if t.startTime < 0 then s.globalPass.toUInt32
        else max t.passValue s.globalPass.toUInt32 }) hp
  addTask_of_ne s h p r hr := SingleRecord.addTask_of_ne s h p r hr

namespace MLFQScheduler

theorem blank_enqueue (s : MLFQScheduler) (h : Heap) (p : TaskPtr) :
    s.enqueue (h.blank true false) p = ((s.enqueue h p).1, (s.enqueue h p).2.blank true false) := by
  rw [enqueue, h.blank_modify p]
  rfl

theorem blank_chargeAllotment (s : MLFQScheduler) (x : ℚ) (t : Task) :
    (s.chargeAllotment x t).blank true false = s.chargeAllotment x (t.blank true false) := by
  have hleft : (t.blank true false).allotmentRemaining = t.allotmentRemaining := rfl
  rw [chargeAllotment, chargeAllotment, hleft]
  dsimp only
  by_cases hout : t.allotmentRemaining - x ≤ 0
  · rw [if_pos hout, if_pos hout]
    rfl
  · rw [if_neg hout, if_neg hout]
    rfl

theorem blank_performBoost (s : MLFQScheduler) (h : Heap) : s.performBoost (h.blank true false)
    = ((s.performBoost h).1, (s.performBoost h).2.blank true false) := by
  rw [performBoost, boostAll]
  refine Prod.ext rfl ?_
  dsimp only
  rw [h.blank_modifyAll, Heap.blank_modifyAll]
  rfl

/-- MLFQ does not look at the eligible time, and it sets the allotment of a new task. -/
theorem overlooks : Overlooks MLFQScheduler true false where
  addTask_blank s h p := by
    change MLFQScheduler.addTask s (h.blank true false) p
      = ((MLFQScheduler.addTask s h p).1, (MLFQScheduler.addTask s h p).2.blank true false)
    have hstart : (h.blank true false p).startTime = (h p).startTime := rfl
    rw [MLFQScheduler.addTask, MLFQScheduler.addTask, hstart]
    by_cases hnew : (h p).startTime < 0
    · rw [if_pos hnew, if_pos hnew, ← blank_enqueue, ← h.blank_modify p]
    · rw [if_neg hnew, if_neg hnew, blank_enqueue]
  removeTask_blank _ _ _ := rfl
  schedule_blank _ _ := rfl
  onCpuUsed_blank s h p x := by
    change MLFQScheduler.onCpuUsed s (h.blank true false) p x
      = ((MLFQScheduler.onCpuUsed s h p x).1, (MLFQScheduler.onCpuUsed s h p x).2.blank true false)
    rw [MLFQScheduler.onCpuUsed, MLFQScheduler.onCpuUsed,
      h.blank_modify p fun t => s.blank_chargeAllotment x t, blank_performBoost]
    dsimp only
    split
    · split <;> rfl
    · rfl
  shouldPreempt_blank _ _ _ cur := by cases cur <;> rfl
  addTask_new s h h' p hnew hp := by
    have hnew' : (h' p).startTime < 0 := Task.congrBlank Task.startTime hp ▸ hnew
    change (MLFQScheduler.addTask s h p).1 = (MLFQScheduler.addTask s h' p).1 ∧
      ((MLFQScheduler.addTask s h p).2 p).blank true false = _
    change _ ∧ _ = ((MLFQScheduler.addTask s h' p).2 p).blank true false
    simp only [MLFQScheduler.addTask, if_pos hnew, if_pos hnew', enqueue, Heap.modify_self,
      true_and]
    exact congrArg (fun t : Task => { t with
      currentQueue := s.clampLevel 0, allotmentRemaining := s.allotmentForLevel 0 }) hp
  addTask_of_ne _ _ _ _ hr := MLFQScheduler.addTask_of_ne hr

end MLFQScheduler

/-- Every policy overlooks at least one of the two fields. -/
theorem SchedulerKind.overlooks (kind : SchedulerKind) : ∃ e a, Overlooks kind.State e a := by
  cases kind with
  | cfs => exact ⟨true, true, CFSScheduler.overlooks⟩
  | eevdf => exact ⟨false, true, EEVDFScheduler.overlooks⟩
  | mlfq => exact ⟨true, false, MLFQScheduler.overlooks⟩
  | stride => exact ⟨true, true, StrideScheduler.overlooks⟩

end SchedSim
