import SchedSim.Machine

/-!
# What each block of a simulator changes

For every block of `SchedSim.Machine`: which tasks are ready afterwards, what
the ledger of a task is afterwards, and which fields are left alone.  Later
modules use these lemmas and never unfold a block.
-/

namespace SchedSim

namespace Machine

variable {σ Q : Type} {n : ℕ}

/-! ## Fields left alone -/

section Fields

variable (m : Machine σ Q n) (e : Event n) (c : Fin n) (p : TaskPtr)

@[simp] theorem pop_heap : (m.pop e).heap = m.heap := rfl
@[simp] theorem pop_events : (m.pop e).events = m.events.erase e := rfl
@[simp] theorem pop_currentTime : (m.pop e).currentTime = e.time := rfl
@[simp] theorem pop_runningTasks : (m.pop e).runningTasks = m.runningTasks := rfl
@[simp] theorem pop_lastEventTime : (m.pop e).lastEventTime = m.lastEventTime := rfl
@[simp] theorem pop_completedTasks : (m.pop e).completedTasks = m.completedTasks := rfl
@[simp] theorem pop_history : (m.pop e).history = m.history := rfl

@[simp] theorem finish_events : (m.finish c p).events = m.events := rfl
@[simp] theorem finish_currentTime : (m.finish c p).currentTime = m.currentTime := rfl
@[simp] theorem finish_runningTasks :
    (m.finish c p).runningTasks = setAt m.runningTasks c none := rfl
@[simp] theorem finish_lastEventTime : (m.finish c p).lastEventTime = m.lastEventTime := rfl
@[simp] theorem finish_completedTasks :
    (m.finish c p).completedTasks = m.completedTasks ++ [p] := rfl
@[simp] theorem finish_history : (m.finish c p).history = m.history := rfl

@[simp] theorem clearCore_runningTasks :
    (m.clearCore c).runningTasks = setAt m.runningTasks c none := rfl

/-- Clearing an idle core does nothing. -/
theorem clearCore_eq_self (h : m.runningTasks c = none) : m.clearCore c = m := by
  have : setAt m.runningTasks c none = m.runningTasks := by
    funext x
    rw [setAt_apply]
    split
    next hx => rw [hx, h]
    next => rfl
  rw [clearCore, this]

@[simp] theorem countSwitch_heap : m.countSwitch.heap = m.heap := rfl
@[simp] theorem countSwitch_events : m.countSwitch.events = m.events := rfl
@[simp] theorem countSwitch_currentTime : m.countSwitch.currentTime = m.currentTime := rfl
@[simp] theorem countSwitch_runningTasks : m.countSwitch.runningTasks = m.runningTasks := rfl
@[simp] theorem countSwitch_lastEventTime : m.countSwitch.lastEventTime = m.lastEventTime := rfl
@[simp] theorem countSwitch_completedTasks :
    m.countSwitch.completedTasks = m.completedTasks := rfl
@[simp] theorem countSwitch_history : m.countSwitch.history = m.history := rfl

/-- Only the history decides what a core was granted last. -/
theorem granted_congr {m m' : Machine σ Q n} (h : m'.history = m.history) (c : Fin n) :
    m'.granted c = m.granted c := by rw [granted, h, granted]

end Fields

variable [Scheduler σ]

section Ready

variable (m : Machine σ Q n) (e : Event n) (q : Q) (c : Fin n) (p : TaskPtr)

@[simp] theorem ready_pop : (m.pop e).ready q = m.ready q := rfl
@[simp] theorem ready_finish : (m.finish c p).ready q = m.ready q := rfl
@[simp] theorem ready_countSwitch : m.countSwitch.ready q = m.ready q := rfl

end Ready

variable [DecidableEq Q]

section Fields

variable (m : Machine σ Q n) (q b : Q) (c : Fin n) (p : TaskPtr)

@[simp] theorem enqueue_events : (m.enqueue q p).events = m.events := rfl
@[simp] theorem enqueue_currentTime : (m.enqueue q p).currentTime = m.currentTime := rfl
@[simp] theorem enqueue_runningTasks : (m.enqueue q p).runningTasks = m.runningTasks := rfl
@[simp] theorem enqueue_lastEventTime : (m.enqueue q p).lastEventTime = m.lastEventTime := rfl
@[simp] theorem enqueue_completedTasks :
    (m.enqueue q p).completedTasks = m.completedTasks := rfl
@[simp] theorem enqueue_history : (m.enqueue q p).history = m.history := rfl

@[simp] theorem charge_events : (m.charge q c p).events = m.events := rfl
@[simp] theorem charge_currentTime : (m.charge q c p).currentTime = m.currentTime := rfl
@[simp] theorem charge_runningTasks : (m.charge q c p).runningTasks = m.runningTasks := rfl
@[simp] theorem charge_lastEventTime : (m.charge q c p).lastEventTime = m.lastEventTime := rfl
@[simp] theorem charge_completedTasks : (m.charge q c p).completedTasks = m.completedTasks := rfl
@[simp] theorem charge_history :
    (m.charge q c p).history = .charged c p (m.elapsed c) :: m.history := rfl

@[simp] theorem requeue_events : (m.requeue q c p).events = m.events := rfl
@[simp] theorem requeue_currentTime : (m.requeue q c p).currentTime = m.currentTime := rfl
@[simp] theorem requeue_runningTasks :
    (m.requeue q c p).runningTasks = setAt m.runningTasks c none := rfl
@[simp] theorem requeue_lastEventTime : (m.requeue q c p).lastEventTime = m.lastEventTime := rfl
@[simp] theorem requeue_completedTasks :
    (m.requeue q c p).completedTasks = m.completedTasks := rfl
@[simp] theorem requeue_history : (m.requeue q c p).history = m.history := rfl


@[simp] theorem migrate_events : (m.migrate b q p).events = m.events := rfl
@[simp] theorem migrate_currentTime : (m.migrate b q p).currentTime = m.currentTime := rfl
@[simp] theorem migrate_runningTasks : (m.migrate b q p).runningTasks = m.runningTasks := rfl
@[simp] theorem migrate_lastEventTime : (m.migrate b q p).lastEventTime = m.lastEventTime := rfl
@[simp] theorem migrate_completedTasks :
    (m.migrate b q p).completedTasks = m.completedTasks := rfl
@[simp] theorem migrate_history : (m.migrate b q p).history = m.history := rfl

variable (cfg : SimConfig) (x : ℚ)

theorem ready_dispatch (q' : Q) :
    (m.dispatch cfg q c p x).ready q' = (m.removeReady q p).ready q' := rfl

@[simp] theorem dispatch_events : (m.dispatch cfg q c p x).events = m.events.schedule
    ⟨.timeSlice, m.currentTime + grant cfg x (m.heap p).remainingTime, p, c⟩ := rfl
@[simp] theorem dispatch_currentTime :
    (m.dispatch cfg q c p x).currentTime = m.currentTime := rfl
@[simp] theorem dispatch_runningTasks :
    (m.dispatch cfg q c p x).runningTasks = setAt m.runningTasks c (some p) := rfl
@[simp] theorem dispatch_lastEventTime :
    (m.dispatch cfg q c p x).lastEventTime = setAt m.lastEventTime c m.currentTime := rfl
@[simp] theorem dispatch_completedTasks :
    (m.dispatch cfg q c p x).completedTasks = m.completedTasks := rfl
@[simp] theorem dispatch_history : (m.dispatch cfg q c p x).history =
    .dispatched c p (grant cfg x (m.heap p).remainingTime) :: m.history := rfl

end Fields

/-! ## Preempting a core -/

section Preempt

variable (m : Machine σ Q n) (q : Q) (c : Fin n) (p : TaskPtr)

/-- Charge the task on a core and put it back: what preemption and the end of a
slice have in common. -/
def yieldCore : Machine σ Q n := (m.charge q c p).requeue q c p

theorem preemptCore_eq {m : Machine σ Q n} {q : Q} {c : Fin n} {p : TaskPtr}
    (h : m.runningTasks c = some p) : m.preemptCore q c = (m.yieldCore q c p).countSwitch := by
  rw [preemptCore, h]
  rfl

theorem settle_eq : m.settle q c p =
    if ((m.charge q c p).heap p).isCompleted then (m.charge q c p).finish c p
    else m.yieldCore q c p := rfl

@[simp] theorem yieldCore_events : (m.yieldCore q c p).events = m.events := rfl
@[simp] theorem yieldCore_currentTime : (m.yieldCore q c p).currentTime = m.currentTime := rfl
@[simp] theorem yieldCore_runningTasks :
    (m.yieldCore q c p).runningTasks = setAt m.runningTasks c none := rfl
@[simp] theorem yieldCore_lastEventTime :
    (m.yieldCore q c p).lastEventTime = m.lastEventTime := rfl
@[simp] theorem yieldCore_completedTasks :
    (m.yieldCore q c p).completedTasks = m.completedTasks := rfl
@[simp] theorem yieldCore_history :
    (m.yieldCore q c p).history = .charged c p (m.elapsed c) :: m.history := rfl

@[simp] theorem settle_events : (m.settle q c p).events = m.events := by
  rw [settle_eq]
  split <;> rfl

@[simp] theorem settle_currentTime : (m.settle q c p).currentTime = m.currentTime := by
  rw [settle_eq]
  split <;> rfl

@[simp] theorem settle_runningTasks :
    (m.settle q c p).runningTasks = setAt m.runningTasks c none := by
  rw [settle_eq]
  split <;> rfl

@[simp] theorem settle_lastEventTime : (m.settle q c p).lastEventTime = m.lastEventTime := by
  rw [settle_eq]
  split <;> rfl

@[simp] theorem settle_history :
    (m.settle q c p).history = .charged c p (m.elapsed c) :: m.history := by
  rw [settle_eq]
  split <;> rfl

end Preempt

/-! ## The history -/

section History

variable {m : Machine σ Q n} {q : Q} {c c' : Fin n} {p p' : TaskPtr} {cfg : SimConfig} {x : ℚ}

@[simp] theorem granted_charge : (m.charge q c p).granted c' = m.granted c' := rfl

@[simp] theorem granted_dispatch_self :
    (m.dispatch cfg q c p x).granted c = grant cfg x (m.heap p).remainingTime := by
  simp [granted, grantedOn]

theorem granted_dispatch_of_ne (h : c' ≠ c) :
    (m.dispatch cfg q c p x).granted c' = m.granted c' := by
  simp [granted, grantedOn, Ne.symm h]

@[simp] theorem lastGrant_charge : (m.charge q c p).lastGrant p' = m.lastGrant p' := rfl

@[simp] theorem lastGrant_dispatch_self :
    (m.dispatch cfg q c p x).lastGrant p = grant cfg x (m.heap p).remainingTime := by
  simp [lastGrant, grantedTo]

theorem lastGrant_dispatch_of_ne (h : p' ≠ p) :
    (m.dispatch cfg q c p x).lastGrant p' = m.lastGrant p' := by
  simp [lastGrant, grantedTo, Ne.symm h]

end History

/-! ## Who is ready -/

section Ready

variable {m : Machine σ Q n} {q q' b : Q} {c : Fin n} {p r : TaskPtr}

theorem ready_setAt (m : Machine σ Q n) (q q' : Q) (s : σ) (h : Heap) :
    ({ m with schedulers := setAt m.schedulers q s, heap := h } : Machine σ Q n).ready q'
      = if q' = q then readyTasks s else m.ready q' := by
  rw [ready]
  simp only [setAt_apply]
  split <;> rfl

variable [LawfulScheduler σ]

theorem count_ready_enqueue : ((m.enqueue q p).ready q').count r
    = (m.ready q').count r + if q' = q ∧ r = p then 1 else 0 := by
  rw [enqueue, ready_setAt]
  split
  next hq =>
    subst hq
    simp only [count_addTask, ready, true_and]
  next hq => simp [hq]

theorem mem_ready_enqueue : r ∈ (m.enqueue q p).ready q' ↔ q' = q ∧ r = p ∨ r ∈ m.ready q' := by
  rw [enqueue, ready_setAt]
  split
  next hq =>
    subst hq
    simp only [mem_addTask, ready, true_and]
  next hq => simp [hq]

theorem length_ready_enqueue : ((m.enqueue q p).ready q').length
    = (m.ready q').length + if q' = q then 1 else 0 := by
  rw [enqueue, ready_setAt]
  split
  next hq =>
    subst hq
    exact (addTask_perm ..).length_eq
  next => rfl

theorem count_ready_charge : ((m.charge q c p).ready q').count r = (m.ready q').count r := by
  have h := ready_setAt m q q'
  rw [charge, ready]
  simp only [setAt_apply]
  split
  next hq =>
    subst hq
    exact count_onCpuUsed
  next => rfl

theorem mem_ready_charge : r ∈ (m.charge q c p).ready q' ↔ r ∈ m.ready q' := by
  rw [← List.count_pos_iff, count_ready_charge, List.count_pos_iff]

theorem length_ready_charge :
    ((m.charge q c p).ready q').length = (m.ready q').length := by
  rw [charge, ready]
  simp only [setAt_apply]
  split
  next hq =>
    subst hq
    exact (onCpuUsed_perm ..).length_eq
  next => rfl

theorem count_ready_requeue : ((m.requeue q c p).ready q').count r
    = (m.ready q').count r + if q' = q ∧ r = p then 1 else 0 := count_ready_enqueue

theorem mem_ready_requeue : r ∈ (m.requeue q c p).ready q' ↔ q' = q ∧ r = p ∨ r ∈ m.ready q' :=
  mem_ready_enqueue

theorem length_ready_requeue : ((m.requeue q c p).ready q').length
    = (m.ready q').length + if q' = q then 1 else 0 := length_ready_enqueue

theorem count_ready_yieldCore : ((m.yieldCore q c p).ready q').count r
    = (m.ready q').count r + if q' = q ∧ r = p then 1 else 0 := by
  rw [yieldCore, count_ready_requeue, count_ready_charge]

theorem mem_ready_yieldCore :
    r ∈ (m.yieldCore q c p).ready q' ↔ q' = q ∧ r = p ∨ r ∈ m.ready q' := by
  rw [yieldCore, mem_ready_requeue, mem_ready_charge]

theorem length_ready_yieldCore : ((m.yieldCore q c p).ready q').length
    = (m.ready q').length + if q' = q then 1 else 0 := by
  rw [yieldCore, length_ready_requeue, length_ready_charge]

/-- Removing a task from a queue removes every task with its id. -/
theorem ready_removeReady : (m.removeReady q p).ready q'
    = if q' = q then (m.ready q).filter fun r => (m.heap r).id ≠ (m.heap p).id
      else m.ready q' := by
  rw [removeReady, ready]
  simp only [setAt_apply]
  split
  next hq => rw [removeTask_eq, ready]
  next => rfl

/-- Removing a task of a queue shortens the queue. -/
theorem length_ready_removeReady_lt (hp : p ∈ m.ready q) :
    ((m.removeReady q p).ready q).length < (m.ready q).length := by
  rw [ready_removeReady, if_pos rfl]
  exact List.length_filter_lt_length_iff_exists.2 ⟨p, hp, by simp⟩

theorem mem_ready_removeReady : r ∈ (m.removeReady q p).ready q' ↔
    r ∈ m.ready q' ∧ (q' = q → (m.heap r).id ≠ (m.heap p).id) := by
  rw [ready_removeReady]
  split
  next hq =>
    subst hq
    simp
  next hq => simp [hq]

/-- Only the task whose slice is over can become ready. -/
theorem mem_ready_settle (h : r ∈ (m.settle q c p).ready q') :
    q' = q ∧ r = p ∨ r ∈ m.ready q' := by
  rw [settle_eq] at h
  split at h
  · exact .inr (mem_ready_charge.1 h)
  · exact mem_ready_yieldCore.1 h

/-- The tasks that wait keep waiting. -/
theorem mem_ready_settle_of_mem (h : r ∈ m.ready q') : r ∈ (m.settle q c p).ready q' := by
  rw [settle_eq]
  split
  · exact mem_ready_charge.2 h
  · exact mem_ready_yieldCore.2 (.inr h)

/-- At most the task whose slice is over becomes ready. -/
theorem length_ready_settle_le :
    ((m.settle q c p).ready q').length ≤ (m.ready q').length + 1 := by
  rw [settle_eq]
  split
  · rw [ready_finish, length_ready_charge]
    exact Nat.le_succ _
  · rw [length_ready_yieldCore]
    split <;> omega

theorem mem_ready_migrate : r ∈ (m.migrate b q p).ready q' ↔
    q' = q ∧ r = p ∨ r ∈ (m.removeReady b p).ready q' := by
  rw [migrate, ready_setAt]
  split
  next hq =>
    subst hq
    simp only [mem_addTask, ready, true_and]
  next hq => simp [hq]

theorem count_ready_migrate : ((m.migrate b q p).ready q').count r
    = ((m.removeReady b p).ready q').count r + if q' = q ∧ r = p then 1 else 0 := by
  rw [migrate, ready_setAt]
  split
  next hq =>
    subst hq
    simp only [count_addTask, ready, true_and]
  next hq => simp [hq]

end Ready

/-! ## The ledger of a task -/

section Ledger

variable [LawfulScheduler σ] {m : Machine σ Q n} {q b : Q} {c : Fin n} {p r : TaskPtr}

theorem ledger_enqueue : ((m.enqueue q p).heap r).ledger
    = (if r = p then (m.heap r).markReady m.currentTime else m.heap r).ledger := by
  have h := addTask_ledger (m.schedulers q) (m.heap.modify p (·.markReady m.currentTime)) p r
  rw [Heap.modify_apply] at h
  exact h

theorem ledger_charge : ((m.charge q c p).heap r).ledger
    = (if r = p then (m.heap r).execute (m.elapsed c) else m.heap r).ledger := by
  have h := onCpuUsed_ledger (m.schedulers q) (m.heap.modify p (·.execute (m.elapsed c))) p
    (m.elapsed c) r
  rw [Heap.modify_apply] at h
  exact h

theorem ledger_requeue : ((m.requeue q c p).heap r).ledger
    = (if r = p then (m.heap r).incrementPreemptions.markReady m.currentTime
        else m.heap r).ledger := by
  rw [requeue, ledger_enqueue]
  simp only [Heap.modify_apply, clearCore]
  split <;> rfl

omit [Scheduler σ] [DecidableEq Q] [LawfulScheduler σ] in
theorem ledger_finish : ((m.finish c p).heap r).ledger
    = (if r = p then (m.heap r).complete m.currentTime else m.heap r).ledger :=
  congrArg Task.ledger (Heap.modify_apply m.heap p r (·.complete m.currentTime))

theorem ledger_migrate : ((m.migrate b q p).heap r).ledger = (m.heap r).ledger :=
  addTask_ledger ..

omit [LawfulScheduler σ] in
theorem ledger_dispatch (cfg : SimConfig) (x : ℚ) : ((m.dispatch cfg q c p x).heap r).ledger
    = (if r = p then ((m.heap r).markDispatched m.currentTime).start m.currentTime
        else m.heap r).ledger :=
  congrArg Task.ledger (Heap.modify_apply m.heap p r fun t =>
    (t.markDispatched m.currentTime).start m.currentTime)

end Ledger

/-! ## What no block changes about a task -/

section Fixed

variable [LawfulScheduler σ] {m : Machine σ Q n} {q b : Q} {c : Fin n} {p r : TaskPtr}
  {cfg : SimConfig} {x : ℚ}

theorem fixed_enqueue : ((m.enqueue q p).heap r).fixed = (m.heap r).fixed := by
  rw [Task.congrLedger Task.fixed ledger_enqueue]
  split <;> rfl

theorem fixed_charge : ((m.charge q c p).heap r).fixed = (m.heap r).fixed := by
  rw [Task.congrLedger Task.fixed ledger_charge]
  split <;> rfl

theorem fixed_requeue : ((m.requeue q c p).heap r).fixed = (m.heap r).fixed := by
  rw [Task.congrLedger Task.fixed ledger_requeue]
  split <;> rfl

theorem fixed_yieldCore : ((m.yieldCore q c p).heap r).fixed = (m.heap r).fixed := by
  rw [yieldCore, fixed_requeue, fixed_charge]

omit [Scheduler σ] [DecidableEq Q] [LawfulScheduler σ] in
theorem fixed_finish : ((m.finish c p).heap r).fixed = (m.heap r).fixed := by
  rw [Task.congrLedger Task.fixed ledger_finish]
  split <;> rfl

theorem fixed_settle : ((m.settle q c p).heap r).fixed = (m.heap r).fixed := by
  rw [settle_eq]
  split
  · rw [fixed_finish, fixed_charge]
  · exact fixed_yieldCore

theorem fixed_migrate : ((m.migrate b q p).heap r).fixed = (m.heap r).fixed :=
  Task.congrLedger Task.fixed ledger_migrate

omit [LawfulScheduler σ] in
theorem fixed_dispatch : ((m.dispatch cfg q c p x).heap r).fixed = (m.heap r).fixed := by
  rw [Task.congrLedger Task.fixed (ledger_dispatch cfg x)]
  split
  · rw [Task.fixed_start, Task.fixed_markDispatched]
  · rfl

end Fixed

end Machine

end SchedSim
