import SchedSim.Conservation

/-!
# Policies that write to one task at a time

`add_task` and `on_cpu_used` of CFS and of Stride write only to the task they are called
with.  So a block of a simulator changes one record, and which one is known; this holds for
any number of cores and schedulers.

* `Machine.Under` — the tasks that are ready or running under a scheduler.
* `SingleRecord` — the methods leave the records of all other tasks alone.
* `Machine.record_enqueue_of_ne` and its companions — so do the blocks.
* `Machine.unstarted_of_reachable` — a task that has not arrived has not been started.
-/

namespace SchedSim

/-- The methods write only to the task they are called with. -/
class SingleRecord (σ : Type) [Scheduler σ] : Prop where
  addTask_of_ne : ∀ (s : σ) (h : Heap) (p q : TaskPtr), q ≠ p → (addTask s h p).2 q = h q
  onCpuUsed_of_ne : ∀ (s : σ) (h : Heap) (p : TaskPtr) (x : ℚ) (q : TaskPtr), q ≠ p →
    (onCpuUsed s h p x).2 q = h q

export SingleRecord (addTask_of_ne onCpuUsed_of_ne)

instance : SingleRecord CFSScheduler where
  addTask_of_ne s h p q hq := by
    change (CFSScheduler.addTask s h p).2 q = h q
    rw [CFSScheduler.addTask]
    simp only [Heap.modify_of_ne hq]
  onCpuUsed_of_ne s h p x q hq := by
    change (CFSScheduler.onCpuUsed s h p x).2 q = h q
    rw [CFSScheduler.onCpuUsed]
    simp only [Heap.modify_of_ne hq]

instance : SingleRecord StrideScheduler where
  addTask_of_ne s h p q hq := by
    change (StrideScheduler.addTask s h p).2 q = h q
    rw [StrideScheduler.addTask]
    simp only [Heap.modify_of_ne hq]
  onCpuUsed_of_ne s h p x q hq := by
    change (StrideScheduler.onCpuUsed s h p x).2 q = h q
    rw [StrideScheduler.onCpuUsed]
    simp only [Heap.modify_of_ne hq]

namespace Machine

variable {σ Q : Type} [Scheduler σ] [DecidableEq Q] {n : ℕ} {m m' : Machine σ Q n} {e : Event n}
  {q b : Q} {c : Fin n} {p r : TaskPtr} {cfg : SimConfig} {slot : Fin n → Q} {x : ℚ}

/-! ## The tasks of a scheduler -/

omit [DecidableEq Q] in
/-- The task is ready or running under the scheduler. -/
def Under (slot : Fin n → Q) (m : Machine σ Q n) (q : Q) (r : TaskPtr) : Prop :=
  r ∈ m.ready q ∨ ∃ c, slot c = q ∧ m.runningTasks c = some r

omit [DecidableEq Q] in
theorem Under.places_pos [Fintype Q] (h : Under slot m q r) : 0 < m.places r := by
  rw [places]
  rcases h with h | ⟨c, -, hc⟩
  · have := waiting_pos.2 ⟨q, h⟩
    omega
  · have hcard : 0 < (m.coresOf r).card :=
      Finset.card_pos.2 ⟨c, Finset.mem_filter.2 ⟨Finset.mem_univ c, hc⟩⟩
    omega

/-! ## The records of the other tasks -/

section Local

variable [SingleRecord σ]

theorem record_enqueue_of_ne (hr : r ≠ p) : (m.enqueue q p).heap r = m.heap r := by
  have h := addTask_of_ne (m.schedulers q) (m.heap.modify p (·.markReady m.currentTime)) p r hr
  rwa [Heap.modify_of_ne hr] at h

theorem record_charge_of_ne (hr : r ≠ p) : (m.charge q c p).heap r = m.heap r := by
  have h := onCpuUsed_of_ne (m.schedulers q) (m.heap.modify p (·.execute (m.elapsed c))) p
    (m.elapsed c) r hr
  rwa [Heap.modify_of_ne hr] at h

theorem record_requeue_of_ne (hr : r ≠ p) : (m.requeue q c p).heap r = m.heap r := by
  have h := record_enqueue_of_ne (q := q) (m := { m.clearCore c with
    heap := m.heap.modify p Task.incrementPreemptions
    preemptions := m.preemptions + 1 }) hr
  exact h.trans (Heap.modify_of_ne hr m.heap _)

theorem record_yieldCore_of_ne (hr : r ≠ p) : (m.yieldCore q c p).heap r = m.heap r := by
  rw [yieldCore, record_requeue_of_ne hr, record_charge_of_ne hr]

theorem record_settle_of_ne (hr : r ≠ p) : (m.settle q c p).heap r = m.heap r := by
  rw [settle_eq]
  split
  · have h : ((m.charge q c p).finish c p).heap r = (m.charge q c p).heap r :=
      Heap.modify_of_ne hr (m.charge q c p).heap (·.complete m.currentTime)
    rw [h, record_charge_of_ne hr]
  · exact record_yieldCore_of_ne hr

end Local

omit [Scheduler σ] [DecidableEq Q] in
theorem policy_finish : ((m.finish c p).heap r).policy = (m.heap r).policy := by
  have h : (m.finish c p).heap r = _ := Heap.modify_apply m.heap p r (·.complete m.currentTime)
  rw [h]
  split <;> rfl

/-- A dispatch leaves the policy fields of every task alone. -/
theorem policy_dispatched : ((m.dispatch cfg q c p x).heap r).policy = (m.heap r).policy := by
  have h : (m.dispatch cfg q c p x).heap r = _ := Heap.modify_apply m.heap p r fun t =>
    (t.markDispatched m.currentTime).start m.currentTime
  rw [h]
  split
  · rw [Task.policy_start, Task.policy_markDispatched]
  · rfl

/-! ## Tasks that have not arrived -/

variable [LawfulScheduler σ]

/-- Only a task that is put on a core gets a start time. -/
theorem Next.startTime (h : Next cfg slot c m m') (r : TaskPtr) :
    (m'.heap r).startTime = (m.heap r).startTime ∨ m'.runningTasks c = some r := by
  have hdispatch : ∀ (m : Machine σ Q n) (q : Q) (p : TaskPtr) (x : ℚ),
      ((m.dispatch cfg q c p x).heap r).startTime = (m.heap r).startTime ∨
        (m.dispatch cfg q c p x).runningTasks c = some r := by
    intro m q p x
    by_cases hr : r = p
    · subst hr
      exact .inr (setAt_self _ _ _)
    · refine .inl ?_
      rw [Task.congrLedger Task.startTime (ledger_dispatch cfg x), if_neg hr]
  cases h with
  | idle => exact .inl rfl
  | own => exact hdispatch _ _ _ _
  | steal =>
    rcases hdispatch _ _ _ _ with h | h
    · exact .inl (h.trans (Task.congrLedger Task.startTime ledger_migrate))
    · exact .inr h

theorem startTime_enqueued : ((m.enqueue q p).heap r).startTime = (m.heap r).startTime := by
  rw [Task.congrLedger Task.startTime ledger_enqueue]
  split <;> rfl

theorem startTime_charged : ((m.charge q c p).heap r).startTime = (m.heap r).startTime := by
  rw [Task.congrLedger Task.startTime ledger_charge]
  split <;> rfl

theorem startTime_yielded : ((m.yieldCore q c p).heap r).startTime = (m.heap r).startTime := by
  rw [yieldCore, Task.congrLedger Task.startTime ledger_requeue]
  split <;> exact startTime_charged

theorem startTime_settled : ((m.settle q c p).heap r).startTime = (m.heap r).startTime := by
  rw [settle_eq]
  split
  · rw [Task.congrLedger Task.startTime ledger_finish]
    split <;> exact startTime_charged
  · exact startTime_yielded

theorem Move.startTime (h : Move cfg slot m e m') (r : TaskPtr) :
    (m'.heap r).startTime = (m.heap r).startTime ∨ ∃ c, m'.runningTasks c = some r := by
  have hnext : ∀ {m₁ : Machine σ Q n} {c : Fin n}, Next cfg slot c m₁ m' →
      (m₁.heap r).startTime = (m.heap r).startTime →
      (m'.heap r).startTime = (m.heap r).startTime ∨ ∃ c, m'.runningTasks c = some r := by
    intro m₁ c hn heq
    rcases hn.startTime r with h | h
    · exact .inl (h.trans heq)
    · exact .inr ⟨c, h⟩
  cases h with
  | skip => exact .inl rfl
  | queued => exact .inl startTime_enqueued
  | woken _ _ hn => exact hnext hn startTime_enqueued
  | preempted _ _ _ _ hn => exact hnext hn (startTime_yielded.trans startTime_enqueued)
  | expired _ _ hn => exact hnext hn startTime_settled

/-- A task that has not arrived has not been started. -/
theorem unstarted_of_reachable [Fintype Q] [NeZero n] {schedulers : Q → σ} {w : Workload}
    (hempty : ∀ q, readyTasks (schedulers q) = [])
    (h : Lts.Reachable (Step cfg slot) (init schedulers w) m) :
    ∀ r ∈ m.events.arrivals, (m.heap r).startTime < 0 := by
  refine h.induction (I := fun m : Machine σ Q n =>
    ∀ r ∈ m.events.arrivals, (m.heap r).startTime < 0) ?_ ?_
  · intro r _
    show (-1 : ℚ) < 0
    norm_num
  · intro s e t hs ih hstep r hr
    rcases hstep.2.2.startTime r with heq | ⟨c, hc⟩
    · rw [heq]
      exact ih r (hstep.2.2.arrivals_subset hr)
    · -- a task that runs is not among the arrivals
      have hone := (places_le_count hempty (hs.tail hstep) r).trans
        (List.nodup_iff_count_le_one.1 w.nodup r)
      have harr := List.count_pos_iff.2 hr
      have hcard : 0 < (t.coresOf r).card :=
        Finset.card_pos.2 ⟨c, Finset.mem_filter.2 ⟨Finset.mem_univ c, hc⟩⟩
      rw [places] at hone
      omega

end Machine

end SchedSim
