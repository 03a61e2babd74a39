import SchedSim.Frame
import SchedSim.Locality
import Mathlib.Data.UInt

/-!
# One core of the multi-queue simulator

The cores of the multi-queue simulator share one event queue, one clock and one
heap, but each has its own scheduler and its own tasks.  Given which tasks belong
to which core, a machine with a single core can follow what happens on core `c`.

* `View` — the machine with one core shows what the other one has on core `c`.
* `Follows` — it shows it right now: the clocks agree as well.
* `Aside c` — what happened on core `c` is nothing the other cores can notice.
* `Follows.enqueue`, … — the blocks of the handlers, done in both machines.
* `Aside.enqueue`, … — the same blocks, seen from another core.
-/

namespace SchedSim

/-- An event as a simulator with one core would have it. -/
def Event.onOneCore {n : ℕ} (e : Event n) : Event 1 := ⟨e.type, e.time, e.task, 0⟩

namespace Machine

variable {σ : Type} [Scheduler σ] {n : ℕ} {tasks : Fin n → List TaskPtr} {c d : Fin n}
  {m m' m'' : Machine σ (Fin n) n} {t : Machine σ Unit 1} {p : TaskPtr} {e : Event n} {k l : UInt32}

/-- The event happens on core `c`: the arrival of one of its tasks, or the end of a
slice on it. -/
def OnCore (tasks : Fin n → List TaskPtr) (c : Fin n) (e : Event n) : Prop :=
  if e.type = .arrival then e.task ∈ tasks c else e.coreId = c

instance (tasks : Fin n → List TaskPtr) (c : Fin n) (e : Event n) :
    Decidable (OnCore tasks c e) := by
  unfold OnCore
  infer_instance

/-- The machine `t` shows what `m` has on core `c`. -/
structure View (tasks : Fin n → List TaskPtr) (c : Fin n) (m : Machine σ (Fin n) n)
    (t : Machine σ Unit 1) : Prop where
  scheduler : t.schedulers () = m.schedulers c
  heap : t.heap.AgreeOn (· ∈ tasks c) m.heap
  events : t.events = (m.events.filter fun e => OnCore tasks c e).map Event.onOneCore
  running : t.runningTasks 0 = m.runningTasks c
  last : t.lastEventTime 0 = m.lastEventTime c
  completed : t.completedTasks = m.completedTasks.filter fun p => p ∈ tasks c
  ready_own : ∀ p ∈ m.ready c, p ∈ tasks c
  running_own : ∀ p, m.runningTasks c = some p → p ∈ tasks c

/-- The machine `t` is where core `c` of `m` is now; the counters of the other cores
are `k` and `l`. -/
structure Follows (tasks : Fin n → List TaskPtr) (c : Fin n) (k l : UInt32)
    (m : Machine σ (Fin n) n) (t : Machine σ Unit 1) : Prop extends View tasks c m t where
  clock : t.currentTime = m.currentTime
  switches : m.contextSwitches = k + t.contextSwitches
  preempted : m.preemptions = l + t.preemptions

/-- What led from `m` to `m'` happened on core `c`, to tasks of core `c`. -/
structure Aside (tasks : Fin n → List TaskPtr) (c : Fin n) (m m' : Machine σ (Fin n) n) :
    Prop where
  scheduler : ∀ d, d ≠ c → m'.schedulers d = m.schedulers d
  heap : ∀ p, p ∉ tasks c → m'.heap p = m.heap p
  events : ∀ d, d ≠ c → (m'.events.filter fun e => OnCore tasks d e)
    = m.events.filter fun e => OnCore tasks d e
  running : ∀ d, d ≠ c → m'.runningTasks d = m.runningTasks d
  last : ∀ d, d ≠ c → m'.lastEventTime d = m.lastEventTime d
  completed : ∀ d, d ≠ c → (m'.completedTasks.filter fun p => p ∈ tasks d)
    = m.completedTasks.filter fun p => p ∈ tasks d

omit [Scheduler σ] in
theorem Aside.refl (tasks : Fin n → List TaskPtr) (c : Fin n) (m : Machine σ (Fin n) n) :
    Aside tasks c m m :=
  ⟨fun _ _ => rfl, fun _ _ => rfl, fun _ _ => rfl, fun _ _ => rfl, fun _ _ => rfl, fun _ _ => rfl⟩

omit [Scheduler σ] in
theorem Aside.trans (h : Aside tasks c m m') (h' : Aside tasks c m' m'') : Aside tasks c m m'' where
  scheduler d hd := (h'.scheduler d hd).trans (h.scheduler d hd)
  heap p hp := (h'.heap p hp).trans (h.heap p hp)
  events d hd := (h'.events d hd).trans (h.events d hd)
  running d hd := (h'.running d hd).trans (h.running d hd)
  last d hd := (h'.last d hd).trans (h.last d hd)
  completed d hd := (h'.completed d hd).trans (h.completed d hd)

/-- What happens on another core does not change the view of a core. -/
theorem View.aside (hv : View tasks d m t) (h : Aside tasks c m m') (hd : d ≠ c)
    (hdisjoint : ∀ p ∈ tasks d, p ∉ tasks c) : View tasks d m' t where
  scheduler := hv.scheduler.trans (h.scheduler d hd).symm
  heap p hp := (hv.heap p hp).trans (h.heap p (hdisjoint p hp)).symm
  events := by rw [h.events d hd, hv.events]
  running := hv.running.trans (h.running d hd).symm
  last := hv.last.trans (h.last d hd).symm
  completed := hv.completed.trans (h.completed d hd).symm
  ready_own p hp := by
    rw [ready, h.scheduler d hd] at hp
    exact hv.ready_own p hp
  running_own p hp := hv.running_own p ((h.running d hd).symm.trans hp)

/-! ## The blocks, seen from another core -/

section Aside

omit [Scheduler σ]

/-- Only the scheduler and the tasks of core `c` have changed. -/
theorem Aside.of_setAt {s : σ} {h : Heap} (hheap : ∀ p, p ∉ tasks c → h p = m.heap p) :
    Aside tasks c m { m with schedulers := setAt m.schedulers c s, heap := h } :=
  ⟨fun _ hd => setAt_of_ne _ _ _ hd, hheap, fun _ _ => rfl, fun _ _ => rfl, fun _ _ => rfl,
    fun _ _ => rfl⟩

theorem Aside.clearCore : Aside tasks c m (m.clearCore c) :=
  { Aside.refl tasks c m with running := fun _ hd => setAt_of_ne _ _ _ hd }

theorem Aside.countSwitch : Aside tasks c m m.countSwitch :=
  { Aside.refl tasks c m with }

theorem ne_of_notMem {q : TaskPtr} (hp : p ∈ tasks c) (hq : q ∉ tasks c) : q ≠ p := by
  rintro rfl
  exact hq hp

theorem Aside.finish (hp : p ∈ tasks c) (hdisjoint : ∀ d, d ≠ c → ∀ p ∈ tasks d, p ∉ tasks c) :
    Aside tasks c m (m.finish c p) where
  scheduler _ _ := rfl
  heap q hq := by
    show m.heap.modify p (·.complete m.currentTime) q = m.heap q
    rw [Heap.modify_of_ne (ne_of_notMem hp hq)]
  events _ _ := rfl
  running _ hd := setAt_of_ne _ _ _ hd
  last _ _ := rfl
  completed d hd := by
    have hno : p ∉ tasks d := fun hmem => hdisjoint d hd p hmem hp
    rw [finish_completedTasks, List.filter_append]
    simp [hno]

end Aside

section Aside

variable [LocalScheduler σ] {cfg : SimConfig} {x : ℚ}

theorem Aside.enqueue (hready : ∀ q ∈ m.ready c, q ∈ tasks c) (hp : p ∈ tasks c) :
    Aside tasks c m (m.enqueue c p) := by
  refine Aside.of_setAt fun q hq => ?_
  have hqp := ne_of_notMem hp hq
  refine (addTask_other _ _ _ _ hqp fun hmem => hq (hready q hmem)).trans ?_
  rw [Heap.modify_of_ne hqp]

theorem Aside.charge (hready : ∀ q ∈ m.ready c, q ∈ tasks c) (hp : p ∈ tasks c) :
    Aside tasks c m (m.charge c c p) := by
  have hheap : ∀ q, q ∉ tasks c → (m.charge c c p).heap q = m.heap q := by
    intro q hq
    have hqp := ne_of_notMem hp hq
    refine (onCpuUsed_other _ _ _ _ _ hqp fun hmem => hq (hready q hmem)).trans ?_
    rw [Heap.modify_of_ne hqp]
  exact ⟨fun _ hd => setAt_of_ne _ _ _ hd, hheap, fun _ _ => rfl, fun _ _ => rfl, fun _ _ => rfl,
    fun _ _ => rfl⟩

theorem Aside.requeue (hready : ∀ q ∈ m.ready c, q ∈ tasks c) (hp : p ∈ tasks c) :
    Aside tasks c m (m.requeue c c p) := by
  have hclear : Aside tasks c m (m.clearCore c) := Aside.clearCore
  have hcount : Aside tasks c m { m.clearCore c with
      heap := m.heap.modify p Task.incrementPreemptions
      preemptions := m.preemptions + 1 } :=
    { hclear with
      heap := fun q hq => Heap.modify_of_ne (ne_of_notMem hp hq) _ _ }
  exact hcount.trans (Aside.enqueue hready hp)

omit [LocalScheduler σ] in
theorem Aside.dispatch (hp : p ∈ tasks c) : Aside tasks c m (m.dispatch cfg c c p x) where
  scheduler _ hd := setAt_of_ne _ _ _ hd
  heap q hq := by
    show m.heap.modify p (fun t => (t.markDispatched m.currentTime).start m.currentTime) q
      = m.heap q
    rw [Heap.modify_of_ne (ne_of_notMem hp hq)]
  events d hd := by
    rw [dispatch_events, EventQueue.schedule, List.filter_append]
    simp [OnCore, Ne.symm hd]
  running _ hd := setAt_of_ne _ _ _ hd
  last _ hd := setAt_of_ne _ _ _ hd
  completed _ _ := rfl

variable [LawfulScheduler σ]

theorem Aside.yieldCore (hready : ∀ q ∈ m.ready c, q ∈ tasks c) (hp : p ∈ tasks c) :
    Aside tasks c m (m.yieldCore c c p) :=
  (Aside.charge hready hp).trans (Aside.requeue (fun q hq => hready q (mem_ready_charge.1 hq)) hp)

theorem Aside.settle (hready : ∀ q ∈ m.ready c, q ∈ tasks c) (hp : p ∈ tasks c)
    (hdisjoint : ∀ d, d ≠ c → ∀ p ∈ tasks d, p ∉ tasks c) :
    Aside tasks c m (m.settle c c p) := by
  rw [settle_eq]
  split
  · exact (Aside.charge hready hp).trans (Aside.finish hp hdisjoint)
  · exact Aside.yieldCore hready hp

end Aside

/-! ## The blocks, done in both machines -/

section Follows

variable {cfg : SimConfig} {x : ℚ}

theorem Follows.elapsed (hf : Follows tasks c k l m t) : t.elapsed 0 = m.elapsed c := by
  rw [Machine.elapsed, hf.clock, hf.last, Machine.elapsed]

theorem Follows.clearCore (hf : Follows tasks c k l m t) :
    Follows tasks c k l (m.clearCore c) (t.clearCore 0) :=
  { hf with
    running := by rw [clearCore_runningTasks, clearCore_runningTasks, setAt_self, setAt_self]
    running_own := fun p hp => by
      rw [clearCore_runningTasks, setAt_self] at hp
      cases hp }

theorem Follows.countSwitch (hf : Follows tasks c k l m t) :
    Follows tasks c k l m.countSwitch t.countSwitch :=
  { hf with
    switches := by
      show m.contextSwitches + 1 = k + (t.contextSwitches + 1)
      rw [hf.switches, add_assoc] }

theorem Follows.finish (hf : Follows tasks c k l m t) (hp : p ∈ tasks c) :
    Follows tasks c k l (m.finish c p) (t.finish 0 p) :=
  { hf.clearCore with
    heap := by
      show (t.heap.modify p (·.complete t.currentTime)).AgreeOn _
        (m.heap.modify p (·.complete m.currentTime))
      rw [hf.clock]
      exact hf.heap.modify fun hp => by rw [hf.heap p hp]
    completed := by
      rw [finish_completedTasks, finish_completedTasks, hf.completed, List.filter_append]
      simp [hp] }

theorem Follows.preemptedTask (hf : Follows tasks c k l m t) :
    Follows tasks c k l
      { m.clearCore c with
        heap := m.heap.modify p Task.incrementPreemptions
        preemptions := m.preemptions + 1 }
      { t.clearCore 0 with
        heap := t.heap.modify p Task.incrementPreemptions
        preemptions := t.preemptions + 1 } :=
  { hf.clearCore with
    heap := hf.heap.modify fun hp => by rw [hf.heap p hp]
    preempted := by rw [hf.preempted, add_assoc] }

variable [LocalScheduler σ] [LawfulScheduler σ]

theorem Follows.dispatch (hf : Follows tasks c k l m t) (hp : p ∈ tasks c) :
    Follows tasks c k l (m.dispatch cfg c c p x) (t.dispatch cfg () 0 p x) := by
  have htask : t.heap p = m.heap p := hf.heap p hp
  refine ⟨⟨?_, ?_, ?_, ?_, ?_, hf.completed, fun q hq => ?_, fun q hq => ?_⟩, hf.clock, ?_,
    hf.preempted⟩
  · show setAt t.schedulers () (removeTask (t.schedulers ()) t.heap (t.heap p).id) ()
      = setAt m.schedulers c (removeTask (m.schedulers c) m.heap (m.heap p).id) c
    rw [setAt_self, setAt_self, hf.scheduler, htask]
    exact removeTask_agree _ _ _ _ _ hf.ready_own hf.heap
  · show (t.heap.modify p fun u => (u.markDispatched t.currentTime).start t.currentTime).AgreeOn _
      (m.heap.modify p fun u => (u.markDispatched m.currentTime).start m.currentTime)
    rw [hf.clock]
    exact hf.heap.modify fun _ => by rw [htask]
  · rw [dispatch_events, dispatch_events, EventQueue.schedule, EventQueue.schedule,
      List.filter_append, List.map_append, hf.events, hf.clock, htask]
    simp [OnCore, Event.onOneCore]
  · rw [dispatch_runningTasks, dispatch_runningTasks, setAt_self, setAt_self]
  · rw [dispatch_lastEventTime, dispatch_lastEventTime, setAt_self, setAt_self, hf.clock]
  · rw [ready_dispatch, mem_ready_removeReady] at hq
    exact hf.ready_own q hq.1
  · rw [dispatch_runningTasks, setAt_self] at hq
    obtain rfl := Option.some.inj hq
    exact hp
  · show m.contextSwitches + 1 = k + (t.contextSwitches + 1)
    rw [hf.switches, add_assoc]

theorem Follows.enqueue (hf : Follows tasks c k l m t) (hp : p ∈ tasks c) :
    Follows tasks c k l (m.enqueue c p) (t.enqueue () p) := by
  have hmark : (t.heap.modify p (·.markReady t.currentTime)).AgreeOn (· ∈ tasks c)
      (m.heap.modify p (·.markReady m.currentTime)) := by
    rw [hf.clock]
    exact hf.heap.modify fun hp => by rw [hf.heap p hp]
  obtain ⟨hscheduler, hheap⟩ := addTask_agree (· ∈ tasks c) (m.schedulers c) _ _ p hf.ready_own hp
    hmark
  rw [← hf.scheduler] at hscheduler hheap
  refine ⟨⟨?_, ?_, hf.events, hf.running, hf.last, hf.completed, fun q hq => ?_, hf.running_own⟩,
    hf.clock, hf.switches, hf.preempted⟩
  · show setAt t.schedulers () _ () = setAt m.schedulers c _ c
    rw [setAt_self, setAt_self, ← hf.scheduler]
    exact hscheduler
  · show Heap.AgreeOn _ (addTask (t.schedulers ()) _ p).2 (addTask (m.schedulers c) _ p).2
    rw [← hf.scheduler]
    exact hheap
  · rcases mem_ready_enqueue.1 hq with ⟨-, rfl⟩ | hq
    · exact hp
    · exact hf.ready_own q hq

theorem Follows.charge (hf : Follows tasks c k l m t) (hp : p ∈ tasks c) :
    Follows tasks c k l (m.charge c c p) (t.charge () 0 p) := by
  have hexec : (t.heap.modify p (·.execute (t.elapsed 0))).AgreeOn (· ∈ tasks c)
      (m.heap.modify p (·.execute (m.elapsed c))) := by
    rw [hf.elapsed]
    exact hf.heap.modify fun hp => by rw [hf.heap p hp]
  obtain ⟨hscheduler, hheap⟩ := onCpuUsed_agree (· ∈ tasks c) (m.schedulers c) _ _ p (m.elapsed c)
    hf.ready_own hp hexec
  refine ⟨⟨?_, ?_, hf.events, hf.running, hf.last, hf.completed, fun q hq => ?_, hf.running_own⟩,
    hf.clock, hf.switches, hf.preempted⟩
  · show setAt t.schedulers () (onCpuUsed _ _ p (t.elapsed 0)).1 () = setAt m.schedulers c _ c
    rw [setAt_self, setAt_self, hf.scheduler]
    simp only [hf.elapsed] at hscheduler ⊢
    exact hscheduler
  · show Heap.AgreeOn _ (onCpuUsed (t.schedulers ()) _ p (t.elapsed 0)).2
      (onCpuUsed (m.schedulers c) _ p _).2
    rw [hf.scheduler]
    simp only [hf.elapsed] at hheap ⊢
    exact hheap
  · exact hf.ready_own q (mem_ready_charge.1 hq)

theorem Follows.yieldCore (hf : Follows tasks c k l m t) (hp : p ∈ tasks c) :
    Follows tasks c k l (m.yieldCore c c p) (t.yieldCore () 0 p) :=
  (hf.charge hp).preemptedTask.enqueue hp

theorem Follows.settle (hf : Follows tasks c k l m t) (hp : p ∈ tasks c) :
    Follows tasks c k l (m.settle c c p) (t.settle () 0 p) := by
  have hcharge := hf.charge hp
  rw [settle_eq, settle_eq, hcharge.heap p hp]
  split
  · exact hcharge.finish hp
  · exact hf.yieldCore hp

end Follows

end Machine

end SchedSim
