import SchedSim.Schedulers.Factory

/-!
# What a scheduler looks at and what it touches

A scheduler reads and writes the records of its own ready tasks and of the task it
is called for, and no others.  So several schedulers can share one heap without
noticing each other, as long as they hold different tasks.

* `Heap.AgreeOn` — two heaps are the same as far as some tasks are concerned.
* `LocalScheduler` — a policy that minds its own tasks.
* Each of the four policies is local.
-/

namespace SchedSim

/-! ## Heaps that agree on some tasks -/

/-- The two heaps hold the same records of the tasks in `A`. -/
def Heap.AgreeOn (A : TaskPtr → Prop) (h h' : Heap) : Prop := ∀ q, A q → h q = h' q

section AgreeOn

variable {A : TaskPtr → Prop} {h h' : Heap} {p : TaskPtr} {ps : List TaskPtr} {f g : Task → Task}

theorem Heap.AgreeOn.modify (hh : h.AgreeOn A h') (hf : A p → f (h p) = g (h' p)) :
    (h.modify p f).AgreeOn A (h'.modify p g) := by
  intro q hq
  by_cases hp : q = p
  · subst hp
    rw [Heap.modify_self, Heap.modify_self, hf hq]
  · rw [Heap.modify_of_ne hp, Heap.modify_of_ne hp, hh q hq]

theorem Heap.AgreeOn.modifyAll (hh : h.AgreeOn A h') :
    (h.modifyAll ps f).AgreeOn A (h'.modifyAll ps f) := by
  induction ps generalizing h h' with
  | nil => exact hh
  | cons p ps ih => exact ih (hh.modify fun hp => by rw [hh p hp])

end AgreeOn

/-! ## Local policies -/

/-- A policy that minds its own tasks: on heaps that agree on the ready tasks and
on the argument its methods do the same, and they touch no other record. -/
class LocalScheduler (σ : Type) [Scheduler σ] : Prop where
  addTask_agree : ∀ (A : TaskPtr → Prop) (s : σ) (h h' : Heap) (p : TaskPtr),
    (∀ q ∈ readyTasks s, A q) → A p → h.AgreeOn A h' →
    (addTask s h p).1 = (addTask s h' p).1 ∧ (addTask s h p).2.AgreeOn A (addTask s h' p).2
  addTask_other : ∀ (s : σ) (h : Heap) (p q : TaskPtr), q ≠ p → q ∉ readyTasks s →
    (addTask s h p).2 q = h q
  removeTask_agree : ∀ (A : TaskPtr → Prop) (s : σ) (h h' : Heap) (i : UInt32),
    (∀ q ∈ readyTasks s, A q) → h.AgreeOn A h' → removeTask s h i = removeTask s h' i
  schedule_agree : ∀ (A : TaskPtr → Prop) (s : σ) (h h' : Heap),
    (∀ q ∈ readyTasks s, A q) → h.AgreeOn A h' → schedule s h = schedule s h'
  onCpuUsed_agree : ∀ (A : TaskPtr → Prop) (s : σ) (h h' : Heap) (p : TaskPtr) (x : ℚ),
    (∀ q ∈ readyTasks s, A q) → A p → h.AgreeOn A h' →
    (onCpuUsed s h p x).1 = (onCpuUsed s h' p x).1 ∧
      (onCpuUsed s h p x).2.AgreeOn A (onCpuUsed s h' p x).2
  onCpuUsed_other : ∀ (s : σ) (h : Heap) (p q : TaskPtr) (x : ℚ), q ≠ p → q ∉ readyTasks s →
    (onCpuUsed s h p x).2 q = h q
  shouldPreempt_agree : ∀ (s : σ) (h h' : Heap) (p cur : TaskPtr), h p = h' p → h cur = h' cur →
    shouldPreempt s h p (some cur) = shouldPreempt s h' p (some cur)

export LocalScheduler (addTask_agree addTask_other removeTask_agree schedule_agree
  onCpuUsed_agree onCpuUsed_other shouldPreempt_agree)

section Filter

variable {A : TaskPtr → Prop} {h h' : Heap} {l : List TaskPtr}

theorem filter_id_agree (i : UInt32) (hl : ∀ q ∈ l, A q) (hh : h.AgreeOn A h') :
    (l.filter fun p => (h p).id ≠ i) = l.filter fun p => (h' p).id ≠ i := by
  refine List.filter_congr fun q hq => ?_
  rw [hh q (hl q hq)]

theorem map_agree {β : Type} (f : Task → β) (hl : ∀ q ∈ l, A q) (hh : h.AgreeOn A h') :
    (l.map fun p => f (h p)) = l.map fun p => f (h' p) :=
  List.map_congr_left fun q hq => congrArg f (hh q (hl q hq))

end Filter

/-! ## The four policies -/

variable {A : TaskPtr → Prop} {h h' : Heap} {p : TaskPtr}

namespace CFSScheduler

variable {s : CFSScheduler}

theorem schedule_agree (hs : ∀ q ∈ s.readyQueue, A q) (hh : h.AgreeOn A h') :
    s.schedule h = s.schedule h' := by
  have hmin : minElement (cfsComparator h) s.readyQueue
      = minElement (cfsComparator h') s.readyQueue := by
    refine minElement_congr fun a ha b hb => ?_
    rw [cfsComparator, cfsComparator, hh a (hs a ha), hh b (hs b hb)]
  rw [schedule, schedule, hmin]
  cases hbest : minElement (cfsComparator h') s.readyQueue with
  | none => rfl
  | some best =>
    have hslice : s.calcTimeSlice h best s.readyQueue.length
        = s.calcTimeSlice h' best s.readyQueue.length := by
      rw [calcTimeSlice, calcTimeSlice, hh best (hs best (minElement_mem hbest)),
        map_agree (fun t => (t.weight.toNat : ℚ)) hs hh]
    simp only [hslice]

theorem onCpuUsed_agree (x : ℚ) (hs : ∀ q ∈ s.readyQueue, A q) (hp : A p) (hh : h.AgreeOn A h') :
    (s.onCpuUsed h p x).1 = (s.onCpuUsed h' p x).1 ∧
      (s.onCpuUsed h p x).2.AgreeOn A (s.onCpuUsed h' p x).2 := by
  have hcharged : (s.onCpuUsed h p x).2.AgreeOn A (s.onCpuUsed h' p x).2 := by
    rw [onCpuUsed, onCpuUsed]
    dsimp only
    exact hh.modify fun _ => by rw [hh p hp]
  refine ⟨?_, hcharged⟩
  show s.updateMinVruntime (s.onCpuUsed h p x).2 = s.updateMinVruntime (s.onCpuUsed h' p x).2
  rw [updateMinVruntime, updateMinVruntime, map_agree Task.vruntime hs hcharged]

instance : LocalScheduler CFSScheduler where
  addTask_agree A s h h' p _ hp hh := by
    refine ⟨rfl, ?_⟩
    show (CFSScheduler.addTask s h p).2.AgreeOn A (CFSScheduler.addTask s h' p).2
    rw [CFSScheduler.addTask, CFSScheduler.addTask, hh p hp]
    dsimp only
    exact hh.modify fun _ => by rw [hh p hp]
  addTask_other _ h _ _ hq _ := by
    show (CFSScheduler.addTask _ h _).2 _ = _
    rw [CFSScheduler.addTask]
    dsimp only
    exact Heap.modify_of_ne hq ..
  removeTask_agree A s h h' i hs hh := by
    show CFSScheduler.removeTask s h i = CFSScheduler.removeTask s h' i
    rw [CFSScheduler.removeTask, CFSScheduler.removeTask,
      filter_id_agree (l := s.readyQueue) i hs hh]
  schedule_agree _ _ _ _ hs hh := CFSScheduler.schedule_agree hs hh
  onCpuUsed_agree _ _ _ _ _ x hs hp hh := CFSScheduler.onCpuUsed_agree x hs hp hh
  onCpuUsed_other _ h _ _ _ hq _ := by
    show (CFSScheduler.onCpuUsed _ h _ _).2 _ = _
    rw [CFSScheduler.onCpuUsed]
    dsimp only
    exact Heap.modify_of_ne hq ..
  shouldPreempt_agree s h h' p cur hp hcur := by
    show CFSScheduler.shouldPreempt s h p _ = CFSScheduler.shouldPreempt s h' p _
    rw [CFSScheduler.shouldPreempt, CFSScheduler.shouldPreempt, hp, hcur]

end CFSScheduler

namespace EEVDFScheduler

variable {s : EEVDFScheduler}

theorem pick_agree (hs : ∀ q ∈ s.readyQueue, A q) (hh : h.AgreeOn A h') : s.pick h = s.pick h' := by
  have heligible : (s.readyQueue.filter fun p => s.isEligible (h p))
      = s.readyQueue.filter fun p => s.isEligible (h' p) := by
    refine List.filter_congr fun q hq => ?_
    rw [hh q (hs q hq)]
  have hdeadline : ((s.readyQueue.filter fun p => s.isEligible (h' p)).argmin fun p =>
      (h p).deadline)
      = (s.readyQueue.filter fun p => s.isEligible (h' p)).argmin fun p => (h' p).deadline :=
    argmin_congr fun q hq => by rw [hh q (hs q (List.mem_of_mem_filter hq))]
  have hearliest : s.findEarliestEligible h = s.findEarliestEligible h' :=
    argmin_congr fun q hq => by rw [hh q (hs q hq)]
  rw [pick, pick, heligible, hdeadline, hearliest]

theorem schedule_agree (hs : ∀ q ∈ s.readyQueue, A q) (hh : h.AgreeOn A h') :
    s.schedule h = s.schedule h' := by
  rw [schedule, schedule, pick_agree hs hh]
  cases hbest : s.pick h' with
  | none => rfl
  | some best =>
    dsimp only
    rw [hh best (hs best (pick_spec hbest).1)]

theorem onCpuUsed_agree (x : ℚ) (hs : ∀ q ∈ s.readyQueue, A q) (hp : A p) (hh : h.AgreeOn A h') :
    (s.onCpuUsed h p x).1 = (s.onCpuUsed h' p x).1 ∧
      (s.onCpuUsed h p x).2.AgreeOn A (s.onCpuUsed h' p x).2 := by
  have hadvance : s.advanceVirtualTime h x = s.advanceVirtualTime h' x := by
    rw [advanceVirtualTime, advanceVirtualTime, map_agree (fun t => (t.weight.toNat : ℚ)) hs hh]
  rw [onCpuUsed, onCpuUsed, hadvance]
  dsimp only
  exact ⟨rfl, hh.modify fun _ => by rw [hh p hp]⟩

instance : LocalScheduler EEVDFScheduler where
  addTask_agree A s h h' p _ hp hh := by
    refine ⟨rfl, ?_⟩
    show (EEVDFScheduler.addTask s h p).2.AgreeOn A (EEVDFScheduler.addTask s h' p).2
    rw [EEVDFScheduler.addTask, EEVDFScheduler.addTask, hh p hp]
    dsimp only
    exact hh.modify fun _ => by rw [hh p hp]
  addTask_other _ h _ _ hq _ := by
    show (EEVDFScheduler.addTask _ h _).2 _ = _
    rw [EEVDFScheduler.addTask]
    dsimp only
    exact Heap.modify_of_ne hq ..
  removeTask_agree A s h h' i hs hh := by
    show EEVDFScheduler.removeTask s h i = EEVDFScheduler.removeTask s h' i
    rw [EEVDFScheduler.removeTask, EEVDFScheduler.removeTask,
      filter_id_agree (l := s.readyQueue) i hs hh]
  schedule_agree _ _ _ _ hs hh := EEVDFScheduler.schedule_agree hs hh
  onCpuUsed_agree _ _ _ _ _ x hs hp hh := EEVDFScheduler.onCpuUsed_agree x hs hp hh
  onCpuUsed_other _ h _ _ _ hq _ := by
    show (EEVDFScheduler.onCpuUsed _ h _ _).2 _ = _
    rw [EEVDFScheduler.onCpuUsed]
    dsimp only
    exact Heap.modify_of_ne hq ..
  shouldPreempt_agree s h h' p cur hp hcur := by
    show EEVDFScheduler.shouldPreempt s h p _ = EEVDFScheduler.shouldPreempt s h' p _
    rw [EEVDFScheduler.shouldPreempt, EEVDFScheduler.shouldPreempt, hp, hcur]

end EEVDFScheduler

namespace StrideScheduler

variable {s : StrideScheduler}

theorem schedule_agree (hs : ∀ q ∈ s.readyQueue, A q) (hh : h.AgreeOn A h') :
    s.schedule h = s.schedule h' := by
  have hmin : minElement (strideComparator h) s.readyQueue
      = minElement (strideComparator h') s.readyQueue := by
    refine minElement_congr fun a ha b hb => ?_
    rw [strideComparator, strideComparator, hh a (hs a ha), hh b (hs b hb)]
  rw [schedule, schedule, hmin]

theorem onCpuUsed_agree (x : ℚ) (hs : ∀ q ∈ s.readyQueue, A q) (hp : A p) (hh : h.AgreeOn A h') :
    (s.onCpuUsed h p x).1 = (s.onCpuUsed h' p x).1 ∧
      (s.onCpuUsed h p x).2.AgreeOn A (s.onCpuUsed h' p x).2 := by
  have hcharged : (s.onCpuUsed h p x).2.AgreeOn A (s.onCpuUsed h' p x).2 := by
    rw [onCpuUsed, onCpuUsed]
    dsimp only
    exact hh.modify fun _ => by rw [hh p hp]
  refine ⟨?_, hcharged⟩
  show s.updateGlobalPass (s.onCpuUsed h p x).2 = s.updateGlobalPass (s.onCpuUsed h' p x).2
  rw [updateGlobalPass, updateGlobalPass, map_agree (fun t => t.passValue.toUInt64) hs hcharged]

instance : LocalScheduler StrideScheduler where
  addTask_agree A s h h' p _ hp hh := by
    refine ⟨rfl, ?_⟩
    show (StrideScheduler.addTask s h p).2.AgreeOn A (StrideScheduler.addTask s h' p).2
    rw [StrideScheduler.addTask, StrideScheduler.addTask]
    dsimp only
    exact hh.modify fun _ => by rw [hh p hp]
  addTask_other _ h _ _ hq _ := by
    show (StrideScheduler.addTask _ h _).2 _ = _
    rw [StrideScheduler.addTask]
    dsimp only
    exact Heap.modify_of_ne hq ..
  removeTask_agree A s h h' i hs hh := by
    show StrideScheduler.removeTask s h i = StrideScheduler.removeTask s h' i
    rw [StrideScheduler.removeTask, StrideScheduler.removeTask,
      filter_id_agree (l := s.readyQueue) i hs hh]
  schedule_agree _ _ _ _ hs hh := StrideScheduler.schedule_agree hs hh
  onCpuUsed_agree _ _ _ _ _ x hs hp hh := StrideScheduler.onCpuUsed_agree x hs hp hh
  onCpuUsed_other _ h _ _ _ hq _ := by
    show (StrideScheduler.onCpuUsed _ h _ _).2 _ = _
    rw [StrideScheduler.onCpuUsed]
    dsimp only
    exact Heap.modify_of_ne hq ..
  shouldPreempt_agree _ _ _ _ _ _ _ := rfl

end StrideScheduler

namespace MLFQScheduler

variable {s : MLFQScheduler}

theorem enqueue_agree (hp : A p) (hh : h.AgreeOn A h') :
    (s.enqueue h p).1 = (s.enqueue h' p).1 ∧ (s.enqueue h p).2.AgreeOn A (s.enqueue h' p).2 := by
  simp only [enqueue, hh p hp, true_and]
  exact hh.modify fun _ => by rw [hh p hp]

theorem addTask_agree (hp : A p) (hh : h.AgreeOn A h') :
    (s.addTask h p).1 = (s.addTask h' p).1 ∧ (s.addTask h p).2.AgreeOn A (s.addTask h' p).2 := by
  rw [addTask, addTask, hh p hp]
  split
  · exact enqueue_agree hp (hh.modify fun _ => by rw [hh p hp])
  · exact enqueue_agree hp hh

theorem schedule_agree (hs : ∀ q ∈ readyTasks s, A q) (hh : h.AgreeOn A h') :
    s.schedule h = s.schedule h' := by
  rw [schedule, schedule]
  cases hbest : s.findBest with
  | none => rfl
  | some best =>
    dsimp only
    have hmem : best ∈ readyTasks s := List.mem_of_mem_head? ((findSome?_head? _).symm.trans hbest)
    rw [hh best (hs best hmem)]

theorem performBoost_agree (hh : h.AgreeOn A h') :
    (s.performBoost h).1 = (s.performBoost h').1 ∧
      (s.performBoost h).2.AgreeOn A (s.performBoost h').2 := by
  rw [performBoost, performBoost, boostAll, boostAll]
  exact ⟨rfl, hh.modifyAll.modifyAll⟩

theorem onCpuUsed_agree (x : ℚ) (hp : A p) (hh : h.AgreeOn A h') :
    (s.onCpuUsed h p x).1 = (s.onCpuUsed h' p x).1 ∧
      (s.onCpuUsed h p x).2.AgreeOn A (s.onCpuUsed h' p x).2 := by
  have hcharged : (h.modify p (s.chargeAllotment x)).AgreeOn A
      (h'.modify p (s.chargeAllotment x)) :=
    hh.modify fun _ => by rw [hh p hp]
  rw [onCpuUsed, onCpuUsed]
  dsimp only
  split
  · split
    · obtain ⟨hscheduler, hheap⟩ := performBoost_agree (s := s) hcharged
      exact ⟨by rw [hscheduler], hheap⟩
    · exact ⟨rfl, hcharged⟩
  · exact ⟨rfl, hcharged⟩

/-- A boost touches the queued tasks only. -/
theorem performBoost_other {q : TaskPtr} (hq : q ∉ readyTasks s) :
    (s.performBoost h).2 q = h q := by
  have hlower : q ∉ s.queues.tail.flatten := by
    intro hmem
    obtain ⟨queue, hqueue, hq'⟩ := List.mem_flatten.1 hmem
    exact hq (List.mem_flatten.2 ⟨queue, List.mem_of_mem_tail hqueue, hq'⟩)
  have hboosted : q ∉ (s.boostAll h).1.queues.flatten := fun hmem =>
    hq ((performBoost_perm s h).mem_iff.1 hmem)
  rw [performBoost]
  refine (Heap.modifyAll_of_notMem hboosted).trans ?_
  rw [boostAll]
  exact Heap.modifyAll_of_notMem hlower

instance : LocalScheduler MLFQScheduler where
  addTask_agree _ _ _ _ _ _ hp hh := MLFQScheduler.addTask_agree hp hh
  addTask_other s h p q hq _ := by
    show (MLFQScheduler.addTask s h p).2 q = h q
    rw [MLFQScheduler.addTask]
    split
    · rw [enqueue]
      dsimp only
      rw [Heap.modify_of_ne hq, Heap.modify_of_ne hq]
    · rw [enqueue]
      dsimp only
      rw [Heap.modify_of_ne hq]
  removeTask_agree A s h h' i hs hh := by
    show MLFQScheduler.removeTask s h i = MLFQScheduler.removeTask s h' i
    rw [MLFQScheduler.removeTask, MLFQScheduler.removeTask]
    have hqueues : (s.queues.map fun queue => queue.filter fun p => (h p).id ≠ i)
        = s.queues.map fun queue => queue.filter fun p => (h' p).id ≠ i :=
      List.map_congr_left fun queue hqueue => filter_id_agree i
        (fun q hq => hs q (List.mem_flatten.2 ⟨queue, hqueue, hq⟩)) hh
    simp only [hqueues]
  schedule_agree _ _ _ _ hs hh := MLFQScheduler.schedule_agree hs hh
  onCpuUsed_agree _ _ _ _ _ x _ hp hh := MLFQScheduler.onCpuUsed_agree x hp hh
  onCpuUsed_other s h p q x hq hq' := by
    show (MLFQScheduler.onCpuUsed s h p x).2 q = h q
    rw [MLFQScheduler.onCpuUsed]
    dsimp only
    split
    · split
      · dsimp only
        rw [performBoost_other hq', Heap.modify_of_ne hq]
      · exact Heap.modify_of_ne hq ..
    · exact Heap.modify_of_ne hq ..
  shouldPreempt_agree s h h' p cur hp hcur := by
    show MLFQScheduler.shouldPreempt s h p _ = MLFQScheduler.shouldPreempt s h' p _
    rw [MLFQScheduler.shouldPreempt, MLFQScheduler.shouldPreempt, hp, hcur]

end MLFQScheduler

/-- Whatever class is chosen. -/
instance : (k : SchedulerKind) → LocalScheduler k.State
  | .cfs _ => inferInstanceAs (LocalScheduler CFSScheduler)
  | .eevdf _ => inferInstanceAs (LocalScheduler EEVDFScheduler)
  | .mlfq _ => inferInstanceAs (LocalScheduler MLFQScheduler)
  | .stride _ => inferInstanceAs (LocalScheduler StrideScheduler)

end SchedSim
