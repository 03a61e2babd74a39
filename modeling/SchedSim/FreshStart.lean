import SchedSim.ChargeCalls
import SchedSim.Resets
import Mathlib.Data.List.Find

/-!
# A reset gives a fresh start

Two runs of a simulator over the same tasks, one with schedulers and tasks that have been used
and reset, one with new ones.  They start with the same tasks up to the fields that
`Task::reset` leaves alone, and go on side by side: a task that has arrived is the same in both
as far as its policy can see.

* `Machine.SameBut` — two states that are the same up to these fields.
* `SameBut.enqueue`, `SameBut.charge`, … — every block keeps it, and every decision is the same.
* `Simulator.handle_sameBut`, `MultiCoreSimulator.handle_sameBut` — so does every turn.
* `UsedScheduler`, `UsedTasks` — what any number of earlier runs and resets leave behind.
* `reset_freshStart` — after a reset a run goes as if everything were new.
-/

namespace SchedSim

namespace Machine

variable {σ Q : Type} [Scheduler σ] [DecidableEq Q] {n : ℕ} {m m₁ : Machine σ Q n} {ev : Event n}
  {q b : Q} {c : Fin n} {p r : TaskPtr} {cfg : SimConfig} {x : ℚ} {e a : Bool}

/-! ## The states side by side -/

/-- `scheduler->add_task(task, ..)` -/
def addReady (m : Machine σ Q n) (q : Q) (p : TaskPtr) : Machine σ Q n :=
  { m with
    schedulers := setAt m.schedulers q (addTask (m.schedulers q) m.heap p).1
    heap := (addTask (m.schedulers q) m.heap p).2 }

theorem enqueue_eq : m.enqueue q p
    = { m with heap := m.heap.modify p (·.markReady m.currentTime) }.addReady q p := rfl

theorem migrate_eq : m.migrate b q p = (m.removeReady b p).addReady q p := rfl

omit [DecidableEq Q] in
/-- The task is in a ready queue or on a core. -/
def Present (m : Machine σ Q n) (r : TaskPtr) : Prop :=
  (∃ q, r ∈ m.ready q) ∨ ∃ c, m.runningTasks c = some r

omit [DecidableEq Q] in
/-- Two states that differ at most in the eligible times and the allotments of the tasks, and
for the tasks that are present only in those that are blanked. -/
structure SameBut (e a : Bool) (m₁ m : Machine σ Q n) : Prop where
  rest : ∃ h, m₁ = { m with heap := h }
  tasks : ∀ r, Heap.Alike true true m₁.heap m.heap r
  present : ∀ r, m.Present r → Heap.Alike e a m₁.heap m.heap r

section Present

variable [LawfulScheduler σ]

theorem present_addReady (h : (m.addReady q p).Present r) : r = p ∨ m.Present r := by
  rcases h with ⟨q', hr⟩ | hr
  · rw [addReady, ready_setAt] at hr
    split at hr
    next hq =>
      subst hq
      exact (mem_addTask.1 hr).imp_right fun hr => .inl ⟨q', hr⟩
    next => exact .inr (.inl ⟨q', hr⟩)
  · exact .inr (.inr hr)

theorem present_charge (h : (m.charge q c p).Present r) : m.Present r := by
  rcases h with ⟨q', hr⟩ | hr
  · exact .inl ⟨q', mem_ready_charge.1 hr⟩
  · exact .inr hr

omit [LawfulScheduler σ] [DecidableEq Q] in
theorem present_clearCore (h : (m.clearCore c).Present r) : m.Present r := by
  rcases h with hr | ⟨d, hd⟩
  · exact .inl hr
  · rw [clearCore_runningTasks, setAt_apply] at hd
    split at hd
    next => cases hd
    next => exact .inr ⟨d, hd⟩

theorem present_removeReady (h : (m.removeReady q p).Present r) : m.Present r := by
  rcases h with ⟨q', hr⟩ | hr
  · exact .inl ⟨q', (mem_ready_removeReady.1 hr).1⟩
  · exact .inr hr

omit [LawfulScheduler σ] [DecidableEq Q] in
theorem present_startOn (h : (m.startOn cfg c p x).Present r) : r = p ∨ m.Present r := by
  rcases h with hr | ⟨d, hd⟩
  · exact .inr (.inl hr)
  · change setAt m.runningTasks c (some p) d = some r at hd
    rw [setAt_apply] at hd
    split at hd
    next => exact .inl (Option.some.inj hd).symm
    next => exact .inr (.inr ⟨d, hd⟩)

end Present

/-! ## The blocks -/

namespace SameBut

variable (hm : SameBut e a m₁ m)

include hm

omit [DecidableEq Q] in
theorem schedulers : m₁.schedulers = m.schedulers := by
  obtain ⟨h, rfl⟩ := hm.rest
  rfl

omit [DecidableEq Q] in
theorem runningTasks : m₁.runningTasks = m.runningTasks := by
  obtain ⟨h, rfl⟩ := hm.rest
  rfl

omit [DecidableEq Q] in
theorem events : m₁.events = m.events := by
  obtain ⟨h, rfl⟩ := hm.rest
  rfl

omit [DecidableEq Q] in
theorem ready (hr : r ∈ m.ready q) : Heap.Alike e a m₁.heap m.heap r :=
  hm.present r (.inl ⟨q, hr⟩)

omit [DecidableEq Q] in
theorem running (hc : m.runningTasks c = some p) : Heap.Alike e a m₁.heap m.heap p :=
  hm.present p (.inr ⟨c, hc⟩)

omit [DecidableEq Q] in
theorem pop : SameBut e a (m₁.pop ev) (m.pop ev) := by
  obtain ⟨h, rfl⟩ := hm.rest
  exact ⟨⟨h, rfl⟩, hm.tasks, hm.present⟩

omit [DecidableEq Q] in
theorem clearCore : SameBut e a (m₁.clearCore c) (m.clearCore c) := by
  obtain ⟨h, rfl⟩ := hm.rest
  exact ⟨⟨h, rfl⟩, hm.tasks, fun r hr => hm.present r (present_clearCore hr)⟩

omit [DecidableEq Q] in
theorem countSwitch : SameBut e a m₁.countSwitch m.countSwitch := by
  obtain ⟨h, rfl⟩ := hm.rest
  exact ⟨⟨h, rfl⟩, hm.tasks, hm.present⟩

omit [DecidableEq Q] in
/-- What a timing method does to a task it does whatever is in the two fields. -/
theorem modify {f : Task → Task} (hf : ∀ e a t, (f t).blank e a = f (t.blank e a)) :
    SameBut e a { m₁ with heap := m₁.heap.modify p f } { m with heap := m.heap.modify p f } := by
  obtain ⟨h, rfl⟩ := hm.rest
  exact ⟨⟨h.modify p f, rfl⟩, fun r => (hm.tasks r).modify (hf true true),
    fun r hr => (hm.present r hr).modify (hf e a)⟩

omit [DecidableEq Q] in
theorem finish : SameBut e a (m₁.finish c p) (m.finish c p) := by
  have hcomplete := hm.clearCore (c := c).modify (p := p) (f := (·.complete m.currentTime))
    fun _ _ _ => rfl
  obtain ⟨h, rfl⟩ := hm.rest
  exact ⟨⟨_, rfl⟩, hcomplete.tasks, hcomplete.present⟩

variable [LawfulScheduler σ] [LocalScheduler σ] (ho : Overlooks σ e a)

include ho

omit [LawfulScheduler σ] [DecidableEq Q] in
theorem schedule : schedule (m₁.schedulers q) m₁.heap = schedule (m.schedulers q) m.heap := by
  rw [hm.schedulers]
  exact ho.schedule_alike fun r hr => hm.ready hr

/-- A task is added that is alike in both states, or that is new. -/
theorem addReady (hp : (m₁.heap p).startTime < 0 ∨ Heap.Alike e a m₁.heap m.heap p) :
    SameBut e a (m₁.addReady q p) (m.addReady q p) := by
  obtain ⟨h, rfl⟩ := hm.rest
  obtain ⟨hscheduler, htask⟩ : (addTask (m.schedulers q) h p).1
        = (addTask (m.schedulers q) m.heap p).1 ∧
      Heap.Alike e a (addTask (m.schedulers q) h p).2 (addTask (m.schedulers q) m.heap p).2 p :=
    ho.addTask_alike (fun r hr => hm.ready (q := q) hr) (hm.tasks p) hp
  have hother : ∀ (h : Heap) r, r ≠ p → (addTask (m.schedulers q) h p).2 r = h r :=
    fun h r hr => ho.addTask_of_ne (m.schedulers q) h p r hr
  refine ⟨⟨(addTask (m.schedulers q) h p).2, ?_⟩, fun r => ?_, fun r hr => ?_⟩
  · simp only [Machine.addReady, hscheduler]
  · by_cases hrp : r = p
    · rw [hrp]
      exact htask.both
    · have hsame : Heap.Alike true true h m.heap r := hm.tasks r
      rw [Heap.Alike, ← hother h r hrp, ← hother m.heap r hrp] at hsame
      exact hsame
  · by_cases hrp : r = p
    · rw [hrp]
      exact htask
    · have hsame : Heap.Alike e a h m.heap r :=
        hm.present r ((present_addReady hr).resolve_left hrp)
      rw [Heap.Alike, ← hother h r hrp, ← hother m.heap r hrp] at hsame
      exact hsame

/-- A task becomes ready that is alike in both states, or that is new. -/
theorem enqueue (hp : (m.heap p).startTime < 0 ∨ Heap.Alike e a m₁.heap m.heap p) :
    SameBut e a (m₁.enqueue q p) (m.enqueue q p) := by
  have hready := hm.modify (p := p) (f := (·.markReady m.currentTime)) fun _ _ _ => rfl
  have hnew : (m.heap p).startTime < 0 →
      (m₁.heap.modify p (·.markReady m.currentTime) p).startTime < 0 := by
    intro hneg
    rw [Heap.modify_self]
    exact (Task.congrBlank Task.startTime (hm.tasks p)).trans_lt hneg
  obtain ⟨h, rfl⟩ := hm.rest
  rw [enqueue_eq, enqueue_eq]
  exact hready.addReady ho (hp.imp hnew fun hp => hp.modify)

theorem charge (hp : Heap.Alike e a m₁.heap m.heap p) :
    SameBut e a (m₁.charge q c p) (m.charge q c p) := by
  have hexecute := hm.modify (p := p) (f := (·.execute (m.elapsed c))) fun _ _ _ => rfl
  obtain ⟨h, rfl⟩ := hm.rest
  obtain ⟨hscheduler, htasks⟩ := ho.onCpuUsed_alike (s := m.schedulers q) (p := p)
    (x := m.elapsed c) (fun r hr => hexecute.ready (q := q) hr) hp.modify
  refine ⟨⟨(onCpuUsed (m.schedulers q) (h.modify p (·.execute (m.elapsed c))) p (m.elapsed c)).2,
    ?_⟩, fun r => ?_, fun r hr => ?_⟩
  · have hcharge : ({ m with heap := h } : Machine σ Q n).charge q c p = { m with
        schedulers := setAt m.schedulers q
          (onCpuUsed (m.schedulers q) (h.modify p (·.execute (m.elapsed c))) p (m.elapsed c)).1
        heap := (onCpuUsed (m.schedulers q) (h.modify p (·.execute (m.elapsed c))) p
          (m.elapsed c)).2
        history := .charged c p (m.elapsed c) :: m.history } := rfl
    rw [hcharge, hscheduler]
    rfl
  · rcases htasks r with halike | ⟨hsame, hsame'⟩
    · exact halike.both
    · exact (congrArg (Task.blank true true) hsame).trans
        ((hexecute.tasks r).trans (congrArg (Task.blank true true) hsame').symm)
  · rcases htasks r with halike | ⟨hsame, hsame'⟩
    · exact halike
    · have hpresent : m.Present r := present_charge hr
      exact (congrArg (Task.blank e a) hsame).trans
        ((hexecute.present r hpresent).trans (congrArg (Task.blank e a) hsame').symm)

/-- The task goes back to a queue. -/
theorem requeue (hp : Heap.Alike e a m₁.heap m.heap p) :
    SameBut e a (m₁.requeue q c p) (m.requeue q c p) := by
  have hcleared := hm.clearCore (c := c).modify (p := p) (f := Task.incrementPreemptions)
    fun _ _ _ => rfl
  obtain ⟨h, rfl⟩ := hm.rest
  have hcounted : SameBut e a
      { ({ m with heap := h } : Machine σ Q n).clearCore c with
        heap := h.modify p Task.incrementPreemptions, preemptions := m.preemptions + 1 }
      { m.clearCore c with
        heap := m.heap.modify p Task.incrementPreemptions, preemptions := m.preemptions + 1 } :=
    ⟨⟨_, rfl⟩, hcleared.tasks, hcleared.present⟩
  exact hcounted.enqueue ho (.inr hp.modify)

theorem yieldCore (hc : m.runningTasks c = some p) :
    SameBut e a (m₁.yieldCore q c p) (m.yieldCore q c p) := by
  have hcharge := hm.charge (q := q) (c := c) ho (hm.running hc)
  exact hcharge.requeue ho (hcharge.running (c := c) hc)

theorem settle (hc : m.runningTasks c = some p) :
    SameBut e a (m₁.settle q c p) (m.settle q c p) := by
  have hcharge := hm.charge (q := q) (c := c) ho (hm.running hc)
  have hdone : ((m₁.charge q c p).heap p).isCompleted = ((m.charge q c p).heap p).isCompleted :=
    Task.congrBlank Task.isCompleted (hcharge.tasks p)
  rw [settle_eq, settle_eq, hdone]
  split
  · exact hcharge.finish
  · exact hm.yieldCore ho hc

theorem preemptCore : SameBut e a (m₁.preemptCore q c) (m.preemptCore q c) := by
  cases hc : m.runningTasks c with
  | none =>
    have hc₁ : m₁.runningTasks c = none := hm.runningTasks ▸ hc
    rw [Machine.preemptCore, Machine.preemptCore, hc₁, hc]
    exact hm
  | some p =>
    have hc₁ : m₁.runningTasks c = some p := hm.runningTasks ▸ hc
    rw [preemptCore_eq hc₁, preemptCore_eq hc]
    exact (hm.yieldCore ho hc).countSwitch

theorem removeReady : SameBut e a (m₁.removeReady q p) (m.removeReady q p) := by
  have hid : (m₁.heap p).id = (m.heap p).id := Task.congrBlank Task.id (hm.tasks p)
  have hsame : removeTask (m₁.schedulers q) m₁.heap (m₁.heap p).id
      = removeTask (m.schedulers q) m.heap (m.heap p).id := by
    rw [hid, hm.schedulers]
    exact ho.removeTask_alike fun r hr => hm.ready hr
  refine ⟨?_, hm.tasks, fun r hr => hm.present r (present_removeReady hr)⟩
  rw [Machine.removeReady, hsame]
  obtain ⟨h, rfl⟩ := hm.rest
  exact ⟨h, rfl⟩

omit [LawfulScheduler σ] [LocalScheduler σ] [DecidableEq Q] ho in
theorem startOn (hp : Heap.Alike e a m₁.heap m.heap p) :
    SameBut e a (m₁.startOn cfg c p x) (m.startOn cfg c p x) := by
  have hstart : ∀ e a (t : Task), ((t.markDispatched m.currentTime).start m.currentTime).blank e a
      = ((t.blank e a).markDispatched m.currentTime).start m.currentTime := fun e a t => by
    rw [Task.blank_start, Task.blank_markDispatched]
  have hstarted := hm.modify (p := p) hstart
  have hleft : (m₁.heap p).remainingTime = (m.heap p).remainingTime :=
    Task.congrBlank Task.remainingTime (hm.tasks p)
  obtain ⟨h, rfl⟩ := hm.rest
  refine ⟨⟨h.modify p fun t => (t.markDispatched m.currentTime).start m.currentTime, ?_⟩,
    hstarted.tasks, fun r hr => ?_⟩
  · rw [Machine.startOn, hleft]
    rfl
  · rcases present_startOn hr with rfl | hr
    · exact hp.modify (hstart e a)
    · exact hstarted.present r hr

theorem dispatch (hp : p ∈ m.ready q) :
    SameBut e a (m₁.dispatch cfg q c p x) (m.dispatch cfg q c p x) :=
  (hm.removeReady ho).startOn (hm.ready hp)

theorem migrate (hp : p ∈ m.ready b) :
    SameBut e a (m₁.migrate b q p) (m.migrate b q p) := by
  rw [migrate_eq, migrate_eq]
  exact (hm.removeReady ho).addReady ho (.inr (hm.ready hp))

end SameBut

end Machine

/-! ## The single-queue simulator -/

namespace Simulator

open Machine (SameBut)

variable {σ : Type} [Scheduler σ] [LawfulScheduler σ] [LocalScheduler σ] {n : ℕ}
  {s s₁ : Simulator σ n} {ev : Event n} {c : Fin n} {cfg : SimConfig} {e a : Bool}
  (ho : Overlooks σ e a)

include ho

theorem dispatchNext_sameBut (hm : SameBut e a s₁ s) :
    SameBut e a (dispatchNext cfg s₁ c) (dispatchNext cfg s c) := by
  have hschedule := hm.schedule (q := ()) ho
  rw [dispatchNext, dispatchNext, hschedule, hm.schedulers]
  by_cases hzero : readyCount (s.schedulers ()) = 0
  · rw [if_pos hzero, if_pos hzero]
    exact hm.clearCore
  · rw [if_neg hzero, if_neg hzero]
    cases hd : schedule (s.schedulers ()) s.heap with
    | mk task timeSlice =>
      cases task with
      | none => exact hm.clearCore
      | some p => exact hm.dispatch ho (Machine.mem_ready_of_schedule hd)

theorem handleArrival_sameBut (hm : SameBut e a s₁ s) (hnew : (s.heap ev.task).startTime < 0) :
    SameBut e a (handleArrival cfg s₁ ev) (handleArrival cfg s ev) := by
  have hadded := hm.enqueue (q := ()) (p := ev.task) ho (.inl hnew)
  have htask : ev.task ∈ (s.enqueue () ev.task).ready () :=
    Machine.mem_ready_enqueue.2 (.inl ⟨rfl, rfl⟩)
  rw [handleArrival, handleArrival]
  rw [hadded.runningTasks]
  cases hidle : (List.finRange n).find? fun c =>
      ((s.enqueue () ev.task).runningTasks c).isNone with
  | some c => exact dispatchNext_sameBut ho hadded
  | none =>
    -- no core is idle, so every comparison is with a task that is present
    have hsame : ∀ c ∈ List.finRange n,
        shouldPreempt ((s₁.enqueue () ev.task).schedulers ()) (s₁.enqueue () ev.task).heap ev.task
          ((s.enqueue () ev.task).runningTasks c)
        = shouldPreempt ((s.enqueue () ev.task).schedulers ()) (s.enqueue () ev.task).heap ev.task
          ((s.enqueue () ev.task).runningTasks c) := by
      intro c hc
      have hbusy := List.find?_eq_none.1 hidle c hc
      cases hcur : (s.enqueue () ev.task).runningTasks c with
      | none =>
        rw [hcur] at hbusy
        exact absurd rfl hbusy
      | some cur =>
        rw [hadded.schedulers]
        exact ho.shouldPreempt_alike (hadded.ready htask) (hadded.running hcur)
    have hfind := List.find?_congr hsame
    dsimp only
    rw [hfind]
    cases (List.finRange n).find? fun c =>
        shouldPreempt ((s.enqueue () ev.task).schedulers ()) (s.enqueue () ev.task).heap ev.task
          ((s.enqueue () ev.task).runningTasks c) with
    | none => exact hadded
    | some c => exact dispatchNext_sameBut ho (hadded.preemptCore ho)

theorem handleTimeSlice_sameBut (hm : SameBut e a s₁ s) :
    SameBut e a (handleTimeSlice cfg s₁ ev) (handleTimeSlice cfg s ev) := by
  rw [handleTimeSlice, handleTimeSlice, hm.runningTasks]
  cases hc : s.runningTasks ev.coreId with
  | none => exact hm
  | some p =>
    dsimp only
    by_cases hp : p ≠ ev.task
    · rw [if_pos hp, if_pos hp]
      exact hm
    · rw [if_neg hp, if_neg hp]
      exact dispatchNext_sameBut ho (hm.settle ho hc)

/-- **Every turn goes the same way.** -/
theorem handle_sameBut (hm : SameBut e a s₁ s)
    (hnew : ev.type = .arrival → (s.heap ev.task).startTime < 0) :
    SameBut e a (handle cfg s₁ ev) (handle cfg s ev) := by
  have hpop : SameBut e a (s₁.pop ev) (s.pop ev) := hm.pop
  rw [handle, handle]
  cases htype : ev.type with
  | arrival => exact handleArrival_sameBut ho hpop (hnew htype)
  | timeSlice => exact handleTimeSlice_sameBut ho hpop
  | completion => exact hpop
  | priorityBoost => exact hpop

end Simulator

/-! ## The multi-queue simulator -/

namespace MultiCoreSimulator

variable {σ : Type} [Scheduler σ] {n : ℕ} {s s₁ : MultiCoreSimulator σ n} {ev : Event n}
  {c : Fin n} {cfg : MultiConfig} {e a : Bool}

/-- The machines are the same up to the fields, and so is everything else. -/
structure SameBut (e a : Bool) (s₁ s : MultiCoreSimulator σ n) : Prop where
  machine : Machine.SameBut e a s₁.toMachine s.toMachine
  balancer : s₁.balancer = s.balancer
  workSteals : s₁.workSteals = s.workSteals

variable [LawfulScheduler σ] [LocalScheduler σ] (ho : Overlooks σ e a)

omit [LawfulScheduler σ] [LocalScheduler σ] in
/-- A block of the machine leaves the rest alone. -/
theorem SameBut.block {m₁ m : Machine σ (Fin n) n} (hm : SameBut e a s₁ s)
    (hblock : Machine.SameBut e a m₁ m) :
    SameBut e a { s₁ with toMachine := m₁ } { s with toMachine := m } :=
  ⟨hblock, hm.balancer, hm.workSteals⟩

omit [LawfulScheduler σ] [LocalScheduler σ] in
theorem SameBut.busiestCore (hm : SameBut e a s₁ s) : s₁.busiestCore c = s.busiestCore c :=
  busiestCore_congr fun d _ => congrFun hm.machine.schedulers d

include ho

theorem tryWorkSteal_sameBut (hm : SameBut e a s₁ s) :
    (tryWorkSteal cfg s₁ c).1 = (tryWorkSteal cfg s c).1 ∧
      SameBut e a (tryWorkSteal cfg s₁ c).2 (tryWorkSteal cfg s c).2 := by
  rw [tryWorkSteal, tryWorkSteal, hm.busiestCore]
  cases s.busiestCore c with
  | none => exact ⟨rfl, hm⟩
  | some b =>
    dsimp only
    rw [hm.machine.schedule (q := b) ho]
    cases hd : schedule (s.schedulers b) s.heap with
    | mk task timeSlice =>
      cases task with
      | none => exact ⟨rfl, hm⟩
      | some stolen =>
        have hstolen : stolen ∈ s.ready b := Machine.mem_ready_of_schedule hd
        have hmigrate := hm.machine.migrate (q := c) ho hstolen
        have hsteals : s₁.workSteals + 1 = s.workSteals + 1 := by rw [hm.workSteals]
        dsimp only
        rw [hmigrate.schedule (q := c) ho]
        cases hd' : schedule ((s.migrate b c stolen).schedulers c) (s.migrate b c stolen).heap with
        | mk task timeSlice =>
          cases task with
          | none => exact ⟨rfl, hmigrate, hm.balancer, hsteals⟩
          | some p =>
            have hp : p ∈ (s.migrate b c stolen).ready c := Machine.mem_ready_of_schedule hd'
            exact ⟨rfl, hmigrate.dispatch ho hp, hm.balancer, hsteals⟩

theorem stealOrIdle_sameBut (hm : SameBut e a s₁ s) :
    SameBut e a (stealOrIdle cfg s₁ c) (stealOrIdle cfg s c) := by
  obtain ⟨hflag, hsteal⟩ : (tryWorkSteal cfg s₁ c).1 = (tryWorkSteal cfg s c).1 ∧
      SameBut e a (tryWorkSteal cfg s₁ c).2 (tryWorkSteal cfg s c).2 := tryWorkSteal_sameBut ho hm
  rw [stealOrIdle, stealOrIdle]
  by_cases hon : cfg.enableWorkStealing = true
  · rw [if_pos hon, if_pos hon]
    revert hflag hsteal
    rcases tryWorkSteal cfg s₁ c with ⟨flag₁, t₁⟩
    rcases tryWorkSteal cfg s c with ⟨flag, t⟩
    rintro rfl hsteal
    cases flag₁ with
    | true => exact hsteal
    | false => exact hsteal.block hsteal.machine.clearCore
  · rw [if_neg hon, if_neg hon]
    exact hm.block hm.machine.clearCore

theorem dispatchNext_sameBut (hm : SameBut e a s₁ s) :
    SameBut e a (dispatchNext cfg s₁ c) (dispatchNext cfg s c) := by
  rw [dispatchNext, dispatchNext, hm.machine.schedule (q := c) ho, hm.machine.schedulers]
  by_cases hcount : 0 < readyCount (s.schedulers c)
  · rw [if_pos hcount, if_pos hcount]
    cases hd : schedule (s.schedulers c) s.heap with
    | mk task timeSlice =>
      cases task with
      | none => exact stealOrIdle_sameBut ho hm
      | some p =>
        have hp : p ∈ s.ready c := Machine.mem_ready_of_schedule hd
        exact hm.block (hm.machine.dispatch ho hp)
  · rw [if_neg hcount, if_neg hcount]
    exact stealOrIdle_sameBut ho hm

theorem handleArrival_sameBut [NeZero n] (hm : SameBut e a s₁ s)
    (hnew : (s.heap ev.task).startTime < 0) :
    SameBut e a (handleArrival cfg s₁ ev) (handleArrival cfg s ev) := by
  rw [handleArrival, handleArrival, hm.balancer, hm.machine.schedulers, hm.machine.runningTasks]
  rcases s.balancer.assign (fun c => readyCount (s.schedulers c)) s.runningTasks with
    ⟨target, balancer⟩
  have hadded := hm.machine.enqueue (q := target) (p := ev.task) ho (.inl hnew)
  have htask : ev.task ∈ (s.enqueue target ev.task).ready target :=
    Machine.mem_ready_enqueue.2 (.inl ⟨rfl, rfl⟩)
  have hadded' : SameBut e a
      { s₁ with toMachine := s₁.enqueue target ev.task, balancer := balancer }
      { s with toMachine := s.enqueue target ev.task, balancer := balancer } :=
    ⟨hadded, rfl, hm.workSteals⟩
  dsimp only
  rw [hadded.runningTasks]
  cases hc : (s.enqueue target ev.task).runningTasks target with
  | none => exact dispatchNext_sameBut ho hadded'
  | some cur =>
    have hshould : shouldPreempt ((s₁.enqueue target ev.task).schedulers target)
          (s₁.enqueue target ev.task).heap ev.task (some cur)
        = shouldPreempt ((s.enqueue target ev.task).schedulers target)
          (s.enqueue target ev.task).heap ev.task (some cur) := by
      rw [hadded.schedulers]
      exact ho.shouldPreempt_alike (hadded.ready htask) (hadded.running hc)
    dsimp only
    rw [hshould]
    split
    · exact dispatchNext_sameBut ho (hadded'.block (hadded.preemptCore ho))
    · exact hadded'

theorem handleTimeSlice_sameBut (hm : SameBut e a s₁ s) :
    SameBut e a (handleTimeSlice cfg s₁ ev) (handleTimeSlice cfg s ev) := by
  rw [handleTimeSlice, handleTimeSlice, hm.machine.runningTasks]
  cases hc : s.runningTasks ev.coreId with
  | none => exact hm
  | some p =>
    dsimp only
    by_cases hp : p ≠ ev.task
    · rw [if_pos hp, if_pos hp]
      exact hm
    · rw [if_neg hp, if_neg hp]
      exact dispatchNext_sameBut ho (hm.block (hm.machine.settle ho hc))

/-- **Every turn goes the same way.** -/
theorem handle_sameBut [NeZero n] (hm : SameBut e a s₁ s)
    (hnew : ev.type = .arrival → (s.heap ev.task).startTime < 0) :
    SameBut e a (handle cfg s₁ ev) (handle cfg s ev) := by
  have hpop : SameBut e a { s₁ with toMachine := s₁.pop ev } { s with toMachine := s.pop ev } :=
    hm.block hm.machine.pop
  rw [handle, handle]
  cases htype : ev.type with
  | arrival => exact handleArrival_sameBut ho hpop (hnew htype)
  | timeSlice => exact handleTimeSlice_sameBut ho hpop
  | completion => exact hpop
  | priorityBoost => exact hpop

end MultiCoreSimulator

/-! ## What has been used -/

theorem CFSScheduler.reset_eq {s : CFSScheduler} {params : CFSParams} (hs : s.params = params) :
    s.reset = CFSScheduler.new params := by
  rw [CFSScheduler.reset, hs, CFSScheduler.new]

theorem EEVDFScheduler.reset_eq {s : EEVDFScheduler} {params : EEVDFParams}
    (hs : s.params = params) : s.reset = EEVDFScheduler.new params := by
  rw [EEVDFScheduler.reset, hs, EEVDFScheduler.new]

theorem StrideScheduler.reset_eq {s : StrideScheduler} {params : StrideParams}
    (hs : s.params = params) : s.reset = StrideScheduler.new params := by
  rw [StrideScheduler.reset, hs, StrideScheduler.new]

theorem MLFQScheduler.reset_eq {s : MLFQScheduler} {params : MLFQParams} (hs : s.params = params) :
    s.reset = MLFQScheduler.new params := by
  subst hs
  have hqueues : (s.queues.map fun _ => ([] : List TaskPtr))
      = s.params.queueConfigs.map fun _ => [] := by
    rw [List.map_const', List.map_const', s.queues_length]
  simp only [MLFQScheduler.reset, MLFQScheduler.new, hqueues]

namespace SchedulerKind

theorem exists_le_quantum (configs : List QueueConfig) :
    ∃ δ, ∀ config ∈ configs, δ ≤ config.timeQuantum := by
  induction configs with
  | nil => exact ⟨0, by simp⟩
  | cons config configs ih =>
    obtain ⟨δ, hδ⟩ := ih
    refine ⟨min config.timeQuantum δ, fun other hother => ?_⟩
    rcases List.mem_cons.1 hother with rfl | hother
    · exact min_le_left _ _
    · exact (min_le_right _ _).trans (hδ other hother)

/-- The methods keep the parameters of a scheduler, and a reset keeps nothing else. -/
theorem reset_spec (kind : SchedulerKind) : ∃ (δ : ℚ) (P : kind.State → Prop),
    GrantsAtLeast δ P ∧ P kind.make ∧ ∀ s, P s → kind.reset s = kind.make := by
  cases kind with
  | cfs params =>
    exact ⟨_, _, CFSScheduler.grantsAtLeast params, rfl, fun _ => CFSScheduler.reset_eq⟩
  | eevdf params =>
    exact ⟨_, _, EEVDFScheduler.grantsAtLeast params, rfl, fun _ => EEVDFScheduler.reset_eq⟩
  | mlfq params =>
    obtain ⟨δ, hδ⟩ := exists_le_quantum params.queueConfigs
    exact ⟨δ, _, MLFQScheduler.grantsAtLeast params hδ, rfl, fun _ => MLFQScheduler.reset_eq⟩
  | stride params =>
    exact ⟨_, _, StrideScheduler.grantsAtLeast params, rfl, fun _ => StrideScheduler.reset_eq⟩

end SchedulerKind

namespace Machine

variable {Q : Type} [DecidableEq Q] {n : ℕ}

/-- A new simulator with schedulers and tasks that may have been used before. -/
def load {σ : Type} [NeZero n] (schedulers : Q → σ) (heap : Heap) (added : List TaskPtr) :
    Machine σ Q n where
  schedulers := schedulers
  heap := heap
  events := added.map fun p => ⟨.arrival, (heap p).arrivalTime, p, 0⟩
  currentTime := 0
  runningTasks := fun _ => none
  lastEventTime := fun _ => 0
  completedTasks := []
  contextSwitches := 0
  preemptions := 0
  history := []

/-- The states a scheduler can be in after any number of runs and resets. -/
inductive UsedScheduler (kind : SchedulerKind) : kind.State → Prop
  | new : UsedScheduler kind kind.make
  | run {Q : Type} [DecidableEq Q] {n : ℕ} [NeZero n] {schedulers : Q → kind.State} {heap : Heap}
      {added : List TaskPtr} {cfg : SimConfig} {slot : Fin n → Q} {m : Machine kind.State Q n} :
      (∀ q, UsedScheduler kind (schedulers q)) →
      Lts.Reachable (Step cfg slot) (load schedulers heap added) m →
      ∀ q, UsedScheduler kind (m.schedulers q)
  | reset {s : kind.State} : UsedScheduler kind s → UsedScheduler kind (kind.reset s)

/-- The states tasks can be in after any number of runs, under any schedulers, and resets. -/
inductive UsedTasks (args : TaskPtr → TaskArgs) : Heap → Prop
  | new : UsedTasks args fun p => Task.new (args p)
  | run {kind : SchedulerKind} {Q : Type} [DecidableEq Q] {n : ℕ} [NeZero n]
      {schedulers : Q → kind.State} {heap : Heap} {added : List TaskPtr} {cfg : SimConfig}
      {slot : Fin n → Q} {m : Machine kind.State Q n} : UsedTasks args heap →
      Lts.Reachable (Step cfg slot) (load schedulers heap added) m → UsedTasks args m.heap
  | reset {heap : Heap} : UsedTasks args heap → UsedTasks args fun p => (heap p).reset

/-- After a reset a scheduler is as good as new. -/
theorem UsedScheduler.reset_eq {kind : SchedulerKind} {s : kind.State}
    (h : UsedScheduler kind s) : kind.reset s = kind.make := by
  obtain ⟨δ, P, hgrants, hmake, hreset⟩ := kind.reset_spec
  refine hreset s ?_
  induction h with
  | new => exact hmake
  | run _ hreach q ih =>
    exact hreach.induction (I := fun m => ∀ q, P (m.schedulers q)) ih
      (fun _ _ _ _ hm hstep => hstep.2.2.grants hgrants hm) q
  | reset _ ih => exact (hreset _ ih).symm ▸ hmake

/-- What the constructor of a task has fixed survives every use. -/
theorem UsedTasks.fixed {args : TaskPtr → TaskArgs} {heap : Heap} (h : UsedTasks args heap)
    (r : TaskPtr) : (heap r).fixed = (Task.new (args r)).fixed := by
  induction h with
  | new => rfl
  | run _ hreach ih =>
    refine hreach.induction (I := fun m => (m.heap r).fixed = (Task.new (args r)).fixed) ih ?_
    intro s e t _ hs hstep
    rw [hstep.2.2.fixed, hs]
  | reset _ ih => exact ih

omit [DecidableEq Q] in
/-- The states in which the two runs start are the same up to the two fields. -/
theorem sameBut_load [NeZero n] {kind : SchedulerKind} {w : Workload} {heap : Heap}
    {schedulers : Q → kind.State} {e a : Bool} (hs : ∀ q, UsedScheduler kind (schedulers q))
    (hheap : UsedTasks w.args heap) :
    SameBut e a (load (fun q => kind.reset (schedulers q)) (fun p => (heap p).reset) w.added)
      (init (fun _ => kind.make) w : Machine kind.State Q n) := by
  have hreset : (fun q => kind.reset (schedulers q)) = fun _ => kind.make :=
    funext fun q => (hs q).reset_eq
  have hevents : (w.added.map fun p => (⟨.arrival, (heap p).reset.arrivalTime, p, 0⟩ : Event n))
      = w.added.map fun p => ⟨.arrival, (w.heap p).arrivalTime, p, 0⟩ := by
    refine List.map_congr_left fun p _ => ?_
    have harrival : (heap p).arrivalTime = (w.args p).arrivalTime :=
      congrArg (fun f => f.1.arrivalTime) (hheap.fixed p)
    rw [Task.reset, harrival]
    rfl
  refine ⟨⟨fun p => (heap p).reset, ?_⟩, fun r => Task.blank_reset (hheap.fixed r), ?_⟩
  · rw [load, hreset, hevents]
    rfl
  · rintro r (⟨q, hr⟩ | ⟨c, hc⟩)
    · change r ∈ readyTasks kind.make at hr
      rw [kind.readyTasks_make] at hr
      cases hr
    · cases hc

end Machine

/-! ## Runs -/

/-- What two runs have in common that go the same way: the dispatches with their slices and the
charges, in their order; the order of completion; the counters; the statistics of every task,
and all its other fields, the two apart that a reset leaves alone. -/
structure Machine.SameResults {σ Q : Type} {n : ℕ} (m₁ m : Machine σ Q n) : Prop where
  history : m₁.history = m.history
  completedTasks : m₁.completedTasks = m.completedTasks
  contextSwitches : m₁.contextSwitches = m.contextSwitches
  preemptions : m₁.preemptions = m.preemptions
  currentTime : m₁.currentTime = m.currentTime
  events : m₁.events = m.events
  runningTasks : m₁.runningTasks = m.runningTasks
  schedulers : m₁.schedulers = m.schedulers
  statistics : ∀ r, (m₁.heap r).responseTime = (m.heap r).responseTime ∧
    (m₁.heap r).turnaroundTime = (m.heap r).turnaroundTime ∧
    (m₁.heap r).waitTime = (m.heap r).waitTime ∧
    (m₁.heap r).preemptionCount = (m.heap r).preemptionCount
  tasks : ∀ r, (m₁.heap r).blank true true = (m.heap r).blank true true

theorem Machine.SameBut.results {σ Q : Type} [Scheduler σ] {n : ℕ} {m₁ m : Machine σ Q n}
    {e a : Bool} (hm : SameBut e a m₁ m) : m₁.SameResults m := by
  have htasks := hm.tasks
  obtain ⟨h, rfl⟩ := hm.rest
  refine ⟨rfl, rfl, rfl, rfl, rfl, rfl, rfl, rfl, fun r => ?_, htasks⟩
  exact ⟨Task.congrBlank Task.responseTime (htasks r),
    Task.congrBlank Task.turnaroundTime (htasks r),
    Task.congrBlank Task.waitTime (htasks r), Task.congrBlank Task.preemptionCount (htasks r)⟩

/-- Every run from one of the states is matched by a run from the other over the same events
with the same results. -/
def SameRuns {σ ε : Type} (step : σ → ε → σ → Prop) (same : σ → σ → Prop) (s₁ s : σ) : Prop :=
  ∀ es, (∀ t₁, Lts.Run step s₁ es t₁ → ∃ t, Lts.Run step s es t ∧ same t₁ t) ∧
    ∀ t, Lts.Run step s es t → ∃ t₁, Lts.Run step s₁ es t₁ ∧ same t₁ t

/-- Turns that go the same way from states that are reached by the second run make the runs the
same. -/
theorem sameRuns_of_handle {σ ε : Type} {step : σ → ε → σ → Prop} {R same : σ → σ → Prop}
    {handle : σ → ε → σ} {s₁ s : σ}
    (hstep : ∀ t₁ t e, Lts.Reachable step s t → R t₁ t → (step t₁ e (handle t₁ e) ↔
      step t e (handle t e)) ∧ (step t e (handle t e) → R (handle t₁ e) (handle t e)))
    (hhandle : ∀ t e u, step t e u → u = handle t e) (hsame : ∀ t₁ t, R t₁ t → same t₁ t)
    (hR : R s₁ s) : SameRuns step same s₁ s := by
  intro es
  constructor
  · intro t₁ hrun
    obtain ⟨t, hrun', hreach, hR'⟩ := hrun.simulate_rel
      (R := fun t₁ t => Lts.Reachable step s t ∧ R t₁ t) (r := step) (fun u₁ e v₁ u hu hv => by
        obtain rfl := hhandle u₁ e v₁ hv
        obtain ⟨hiff, hnext⟩ := hstep u₁ u e hu.1 hu.2
        have hv' := hiff.1 hv
        exact ⟨handle u e, hv', hu.1.tail hv', hnext hv'⟩) ⟨.refl, hR⟩
    exact ⟨t, hrun', hsame t₁ t hR'⟩
  · intro t hrun
    obtain ⟨t₁, hrun', hreach, hR'⟩ := hrun.simulate_rel
      (R := fun t t₁ => Lts.Reachable step s t ∧ R t₁ t) (r := step) (fun u e v u₁ hu hv => by
        obtain rfl := hhandle u e v hv
        obtain ⟨hiff, hnext⟩ := hstep u₁ u e hu.1 hu.2
        exact ⟨handle u₁ e, hiff.2 hv, hu.1.tail hv, hnext hv⟩) ⟨.refl, hR⟩
    exact ⟨t₁, hrun', hsame t₁ t hR'⟩

namespace Simulator

variable {n : ℕ} [NeZero n]

/-- A new simulator with a scheduler and tasks that may have been used before. -/
def load {σ : Type} (scheduler : σ) (heap : Heap) (added : List TaskPtr) : Simulator σ n :=
  Machine.load (fun _ => scheduler) heap added

theorem sameRuns_load {kind : SchedulerKind} {w : Workload} {heap : Heap}
    {scheduler : kind.State} (cfg : SimConfig) (hs : Machine.UsedScheduler kind scheduler)
    (hheap : Machine.UsedTasks w.args heap) :
    SameRuns (Step cfg) Machine.SameResults
      (load (kind.reset scheduler) (fun p => (heap p).reset) w.added : Simulator kind.State n)
      (init kind.make w) := by
  obtain ⟨e, a, ho⟩ := kind.overlooks
  refine sameRuns_of_handle (R := Machine.SameBut e a) ?_
    (fun _ _ _ h => h.2.2) (fun _ _ h => h.results) (Machine.sameBut_load (fun _ => hs) hheap)
  intro t₁ t ev hreach hm
  have hreach' := hreach.simulate (f := id) fun _ _ _ => step_machine
  have hnew := Machine.unstarted_of_reachable (fun _ => kind.readyTasks_make) hreach'
  refine ⟨?_, fun hstep => handle_sameBut ho hm fun harr => ?_⟩
  · rw [Step, Step, hm.events]
    exact Iff.and Iff.rfl (Iff.and Iff.rfl (iff_of_true rfl rfl))
  · exact hnew ev.task (EventQueue.mem_arrivals.2 ⟨ev, hstep.1.1, harr, rfl⟩)

end Simulator

namespace MultiCoreSimulator

variable {n : ℕ} [NeZero n]

/-- A new simulator with schedulers and tasks that may have been used before. -/
def load {σ : Type} (schedulers : Fin n → σ) (balancer : LoadBalancer) (heap : Heap)
    (added : List TaskPtr) : MultiCoreSimulator σ n where
  toMachine := Machine.load schedulers heap added
  balancer := balancer
  workSteals := 0

/-- The machines and the rest of the simulators have the same results. -/
structure SameResults {σ : Type} (s₁ s : MultiCoreSimulator σ n) : Prop where
  machine : s₁.toMachine.SameResults s.toMachine
  balancer : s₁.balancer = s.balancer
  workSteals : s₁.workSteals = s.workSteals

theorem sameRuns_load {kind : SchedulerKind} {w : Workload} {heap : Heap}
    {schedulers : Fin n → kind.State} (balancer : LoadBalancer) (cfg : MultiConfig)
    (hs : ∀ c, Machine.UsedScheduler kind (schedulers c)) (hheap : Machine.UsedTasks w.args heap) :
    SameRuns (Step cfg) SameResults
      (load (fun c => kind.reset (schedulers c)) balancer (fun p => (heap p).reset) w.added)
      (init kind.make balancer w) := by
  obtain ⟨e, a, ho⟩ := kind.overlooks
  refine sameRuns_of_handle (R := SameBut e a) ?_
    (fun _ _ _ h => h.2.2) (fun _ _ h => ⟨h.machine.results, h.balancer, h.workSteals⟩)
    ⟨Machine.sameBut_load hs hheap, rfl, rfl⟩
  intro t₁ t ev hreach hm
  have hreach' := hreach.simulate (f := toMachine) fun _ _ _ => step_machine
  have hnew := Machine.unstarted_of_reachable (fun _ => kind.readyTasks_make) hreach'
  refine ⟨?_, fun hstep => handle_sameBut ho hm fun harr => ?_⟩
  · rw [Step, Step, hm.machine.events]
    exact Iff.and Iff.rfl (Iff.and Iff.rfl (iff_of_true rfl rfl))
  · exact hnew ev.task (EventQueue.mem_arrivals.2 ⟨ev, hstep.1.1, harr, rfl⟩)

end MultiCoreSimulator

/-- **A reset gives a fresh start.**  Whatever the tasks and the schedulers have been used for,
after a reset a run over the tasks goes as it does with new schedulers and new tasks, in both
simulators and with each of the four schedulers. -/
theorem reset_freshStart {n : ℕ} [NeZero n] (kind : SchedulerKind) (w : Workload) (heap : Heap)
    (hheap : Machine.UsedTasks w.args heap) :
    (∀ (cfg : SimConfig) (scheduler : kind.State), Machine.UsedScheduler kind scheduler →
      SameRuns (Simulator.Step cfg) Machine.SameResults
        (Simulator.load (kind.reset scheduler) (fun p => (heap p).reset) w.added :
          Simulator kind.State n)
        (Simulator.init kind.make w)) ∧
    (∀ (balancer : LoadBalancer) (cfg : MultiConfig) (schedulers : Fin n → kind.State),
      (∀ c, Machine.UsedScheduler kind (schedulers c)) →
      SameRuns (MultiCoreSimulator.Step cfg) MultiCoreSimulator.SameResults
        (MultiCoreSimulator.load (fun c => kind.reset (schedulers c)) balancer
          (fun p => (heap p).reset) w.added)
        (MultiCoreSimulator.init kind.make balancer w)) :=
  ⟨fun cfg _ hs => Simulator.sameRuns_load cfg hs hheap,
    fun balancer cfg _ hs => MultiCoreSimulator.sameRuns_load balancer cfg hs hheap⟩

/-- Two tasks run under EEVDF for three events; the eligible time this leaves in the first of
them has no influence on a second run. -/
theorem reset_freshStart_pair :
    let kind : SchedulerKind := .eevdf {}
    let cfg : SimConfig := { stopTime := 50 }
    let used : Simulator kind.State 1 := Simulator.turns cfg 3 (Simulator.init kind.make .pair)
    (used.heap 0).reset.eligibleTime ≠ 0 ∧
      SameRuns (Simulator.Step cfg) Machine.SameResults
        (Simulator.load (kind.reset (used.schedulers ())) (fun p => (used.heap p).reset)
          Workload.pair.added : Simulator kind.State 1)
        (Simulator.init kind.make .pair) := by
  intro kind cfg used
  have hreach := (Simulator.reachable_turns cfg 3
    (Simulator.init kind.make .pair : Simulator kind.State 1)).simulate (f := id)
      fun _ _ _ => Simulator.step_machine
  have hheap : Machine.UsedTasks Workload.pair.args used.heap := .run .new hreach
  have hs : Machine.UsedScheduler kind (used.schedulers ()) := .run (fun _ => .new) hreach ()
  exact ⟨by decide +kernel, (reset_freshStart kind .pair used.heap hheap).1 cfg _ hs⟩

end SchedSim
