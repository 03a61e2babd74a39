import SchedSim.Accounting
import SchedSim.OwnRecord

/-!
# Policies that share one core by virtual time

CFS and EEVDF both keep a virtual time for each task, charge it in proportion to
the CPU time used, raise it to a clamp when the task returns to the queue, and
pick a ready task whose virtual time is least, up to a slack.  `VirtualClock`
says so once for both.

* `VirtualClock.service`, `VirtualClock.lift` — the two parts of a virtual time:
  what a task got as CPU time, and what it was given without.
* `Machine.Clocked` — what every block of a single-core simulator keeps true of
  the policy fields.
-/

namespace SchedSim

/-- A policy that goes by virtual time. -/
structure VirtualClock (σ : Type) [Scheduler σ] where
  vtime : Task → ℚ
  /-- The virtual time charged for a unit of CPU time. -/
  rate : Task → ℚ
  /-- How much the virtual time of the task picked may exceed that of another one. -/
  slack : Task → Task → ℚ
  /-- The virtual time a returning task is raised to. -/
  clamp : σ → Task → ℚ
  /-- The slack holds for queues up to this length. -/
  capacity : ℕ
  /-- What the methods keep true of the scheduler. -/
  Good : σ → Prop
  /-- What the methods keep true of the policy fields of a task. -/
  Settled : Task → Prop
  vtime_policy : ∀ t, vtime t.policy = vtime t
  rate_congr : ∀ t u, t.fixed = u.fixed → rate t = rate u
  slack_congr : ∀ t t' u u', t.fixed = t'.fixed → u.fixed = u'.fixed → slack t u = slack t' u'
  clamp_congr : ∀ s t u, t.fixed = u.fixed → clamp s t = clamp s u
  settled_congr : ∀ t u, t.policy = u.policy → t.fixed = u.fixed → Settled t → Settled u
  rate_nonneg : ∀ t, 0 ≤ rate t
  slack_nonneg : ∀ t u, 0 ≤ slack t u
  good_addTask : ∀ (s : σ) (h : Heap) (p : TaskPtr), Good s → Good (addTask s h p).1
  good_removeTask : ∀ (s : σ) (h : Heap) (i : UInt32), Good s → Good (removeTask s h i)
  good_onCpuUsed : ∀ (s : σ) (h : Heap) (p : TaskPtr) (x : ℚ), Good s → Good (onCpuUsed s h p x).1
  addTask_of_ne : ∀ (s : σ) (h : Heap) (p q : TaskPtr), q ≠ p → (addTask s h p).2 q = h q
  vtime_addTask : ∀ (s : σ) (h : Heap) (p : TaskPtr), Good s → 0 ≤ (h p).startTime →
    vtime ((addTask s h p).2 p) = max (vtime (h p)) (clamp s (h p))
  settled_addTask : ∀ (s : σ) (h : Heap) (p : TaskPtr), Good s →
    (h p).startTime < 0 ∨ Settled (h p) → Settled ((addTask s h p).2 p)
  onCpuUsed_of_ne : ∀ (s : σ) (h : Heap) (p : TaskPtr) (x : ℚ) (q : TaskPtr), q ≠ p →
    (onCpuUsed s h p x).2 q = h q
  vtime_onCpuUsed : ∀ (s : σ) (h : Heap) (p : TaskPtr) (x : ℚ), Good s → Settled (h p) →
    vtime ((onCpuUsed s h p x).2 p) = vtime (h p) + rate (h p) * x
  settled_onCpuUsed : ∀ (s : σ) (h : Heap) (p : TaskPtr) (x : ℚ), Good s → Settled (h p) →
    Settled ((onCpuUsed s h p x).2 p)
  pick_le : ∀ (s : σ) (h : Heap) (p : TaskPtr) (x : ℚ), Good s →
    (∀ q ∈ readyTasks s, Settled (h q)) → (readyTasks s).length ≤ capacity →
    schedule s h = ⟨some p, x⟩ → ∀ q ∈ readyTasks s, vtime (h p) ≤ vtime (h q) + slack (h p) (h q)

namespace VirtualClock

variable {σ : Type} [Scheduler σ] (V : VirtualClock σ)

/-- The weighted CPU time of a task. -/
def service (t : Task) : ℚ := V.rate t * t.served

/-- The virtual time a task was given without CPU time. -/
def lift (t : Task) : ℚ := V.vtime t - V.service t

variable {V} {t u : Task}

theorem vtime_congr (h : t.policy = u.policy) : V.vtime t = V.vtime u := by
  rw [← V.vtime_policy, h, V.vtime_policy]

theorem service_congr (hf : t.fixed = u.fixed) (hs : t.served = u.served) :
    V.service t = V.service u := by
  rw [service, V.rate_congr t u hf, hs, service]

theorem lift_congr (hp : t.policy = u.policy) (hf : t.fixed = u.fixed)
    (hs : t.served = u.served) : V.lift t = V.lift u := by
  rw [lift, vtime_congr hp, service_congr hf hs, lift]

/-- Such a policy writes only to the task that a method is called with. -/
theorem singleRecord (V : VirtualClock σ) : SingleRecord σ where
  addTask_of_ne := V.addTask_of_ne
  onCpuUsed_of_ne := V.onCpuUsed_of_ne

end VirtualClock

namespace Machine

variable {σ : Type} [Scheduler σ] {V : VirtualClock σ} {m m' : Machine σ Unit 1} {e : Event 1}
  {p r : TaskPtr} {cfg : SimConfig} {x : ℚ}

/-! ## What the blocks do to the record of a task -/

section Records

variable (V)

include V

theorem heap_enqueue_of_ne (hr : r ≠ p) : (m.enqueue () p).heap r = m.heap r := by
  have := V.singleRecord
  exact record_enqueue_of_ne hr

theorem heap_charge_of_ne (hr : r ≠ p) : (m.charge () 0 p).heap r = m.heap r := by
  have := V.singleRecord
  exact record_charge_of_ne hr

theorem heap_yieldCore_of_ne (hr : r ≠ p) : (m.yieldCore () 0 p).heap r = m.heap r := by
  have := V.singleRecord
  exact record_yieldCore_of_ne hr

end Records

omit [Scheduler σ] in
theorem heap_finish_of_ne (hr : r ≠ p) : (m.finish 0 p).heap r = m.heap r :=
  Heap.modify_of_ne hr m.heap (·.complete m.currentTime)

theorem heap_dispatch_of_ne (hr : r ≠ p) : (m.dispatch cfg () 0 p x).heap r = m.heap r :=
  Heap.modify_of_ne hr m.heap fun t => (t.markDispatched m.currentTime).start m.currentTime

/-- A task that yields the core is charged and put back. -/
theorem heap_yieldCore_self (m : Machine σ Unit 1) (p : TaskPtr) :
    ∃ h : Heap, h p = ((m.charge () 0 p).heap p).incrementPreemptions.markReady m.currentTime ∧
      (m.yieldCore () 0 p).heap p = (addTask ((m.charge () 0 p).schedulers ()) h p).2 p := by
  refine ⟨((m.charge () 0 p).heap.modify p Task.incrementPreemptions).modify p
    (·.markReady m.currentTime), ?_, rfl⟩
  rw [Heap.modify_self, Heap.modify_self]

/-! ## The policy fields -/

/-- What every step keeps true of the policy fields. -/
structure Clocked (V : VirtualClock σ) (m : Machine σ Unit 1) : Prop where
  good : V.Good (m.schedulers ())
  now : 0 ≤ m.currentTime
  ready : ∀ r ∈ m.ready (), V.Settled (m.heap r)
  running : ∀ r, m.runningTasks 0 = some r → V.Settled (m.heap r)
  /-- A task on the core was started. -/
  started : ∀ r, m.runningTasks 0 = some r → 0 ≤ (m.heap r).startTime
  /-- A task that has not arrived was not. -/
  fresh : ∀ r ∈ m.events.arrivals, (m.heap r).startTime < 0
  /-- The slice on the core is the last one granted to its task. -/
  granted : ∀ r, m.runningTasks 0 = some r → m.lastGrant r = m.granted 0

omit [Scheduler σ] in
theorem Task.start_nonneg (t : Task) {time : ℚ} (h : 0 ≤ time) : 0 ≤ (t.start time).startTime := by
  rw [Task.start]
  split
  next => exact h
  next hs => exact not_lt.1 hs

theorem Clocked.pop (h : m.Clocked V) (hnow : m.currentTime ≤ e.time) : (m.pop e).Clocked V := by
  refine ⟨h.good, h.now.trans hnow, h.ready, h.running, h.started, fun r hr => ?_, h.granted⟩
  obtain ⟨e', he', ht, rfl⟩ := EventQueue.mem_arrivals.1 hr
  exact h.fresh _ (EventQueue.mem_arrivals.2 ⟨e', List.mem_of_mem_erase he', ht, rfl⟩)

theorem Clocked.countSwitch (h : m.Clocked V) : m.countSwitch.Clocked V :=
  ⟨h.good, h.now, h.ready, h.running, h.started, h.fresh, h.granted⟩

variable [LawfulScheduler σ]

omit [LawfulScheduler σ] in
theorem good_charge (h : V.Good (m.schedulers ())) : V.Good ((m.charge () 0 p).schedulers ()) := by
  rw [charge]
  simp only [setAt_self]
  exact V.good_onCpuUsed _ _ _ _ h

omit [LawfulScheduler σ] in
theorem good_enqueue (h : V.Good (m.schedulers ())) : V.Good ((m.enqueue () p).schedulers ()) := by
  rw [enqueue]
  simp only [setAt_self]
  exact V.good_addTask _ _ _ h

/-- A new task, or one with its policy fields in order, may become ready. -/
theorem Clocked.enqueue (h : m.Clocked V) (hp : m.places p = 0)
    (hs : (m.heap p).startTime < 0) : (m.enqueue () p).Clocked V := by
  obtain ⟨-, -, hrun, -⟩ := places_eq_zero.1 hp
  have hne : ∀ r, m.runningTasks 0 = some r → r ≠ p := by
    rintro r hr rfl
    exact hrun 0 hr
  refine ⟨good_enqueue h.good, h.now, fun r hr => ?_, fun r hr => ?_, fun r hr => ?_,
    fun r hr => ?_, h.granted⟩
  · by_cases hrp : r = p
    · subst hrp
      exact V.settled_addTask _ _ _ h.good (.inl (by rw [Heap.modify_self]; exact hs))
    · rw [heap_enqueue_of_ne V hrp]
      exact h.ready r ((mem_ready_enqueue.1 hr).resolve_left fun h => hrp h.2)
  · rw [heap_enqueue_of_ne V (hne r hr)]
    exact h.running r hr
  · rw [startTime_enqueued]
    exact h.started r hr
  · rw [startTime_enqueued]
    exact h.fresh r hr

omit [LawfulScheduler σ] in
/-- The charged task keeps its policy fields in order. -/
theorem Clocked.settled_charge (h : m.Clocked V) (hc : m.runningTasks 0 = some p) :
    V.Settled ((m.charge () 0 p).heap p) := by
  refine V.settled_onCpuUsed _ _ _ _ h.good ?_
  rw [Heap.modify_self]
  exact V.settled_congr (m.heap p) _ rfl rfl (h.running p hc)

theorem Clocked.yieldCore (h : m.Clocked V) (hc : m.runningTasks 0 = some p) :
    (m.yieldCore () 0 p).Clocked V := by
  have hidle : (m.yieldCore () 0 p).runningTasks 0 = none := by
    rw [yieldCore_runningTasks, setAt_self]
  refine ⟨good_enqueue (good_charge h.good), h.now, fun r hr => ?_, fun r hr => ?_, fun r hr => ?_,
    fun r hr => ?_, fun r hr => ?_⟩
  · by_cases hrp : r = p
    · subst hrp
      obtain ⟨h', hh', heq⟩ := heap_yieldCore_self m r
      rw [heq]
      refine V.settled_addTask _ _ _ (good_charge h.good) (.inr ?_)
      rw [hh']
      exact V.settled_congr ((m.charge () 0 r).heap r) _ rfl rfl (h.settled_charge hc)
    · rw [heap_yieldCore_of_ne V hrp]
      exact h.ready r ((mem_ready_yieldCore.1 hr).resolve_left fun h => hrp h.2)
  · rw [hidle] at hr
    cases hr
  · rw [hidle] at hr
    cases hr
  · rw [startTime_yielded]
    exact h.fresh r hr
  · rw [hidle] at hr
    cases hr

theorem Clocked.finish (h : m.Clocked V) (hc : m.runningTasks 0 = some p) (hone : m.places p ≤ 1) :
    ((m.charge () 0 p).finish 0 p).Clocked V := by
  have hidle : ((m.charge () 0 p).finish 0 p).runningTasks 0 = none := by
    rw [finish_runningTasks, setAt_self]
  obtain ⟨-, hwait, -, -⟩ := places_eq_zero.1 (places_release (q := ()) hc hone)
  refine ⟨good_charge h.good, h.now, fun r hr => ?_, fun r hr => ?_, fun r hr => ?_,
    fun r hr => ?_, fun r hr => ?_⟩
  · have hrp : r ≠ p := by
      rintro rfl
      exact hwait () hr
    rw [heap_finish_of_ne hrp, heap_charge_of_ne V hrp]
    exact h.ready r (mem_ready_charge.1 hr)
  · rw [hidle] at hr
    cases hr
  · rw [hidle] at hr
    cases hr
  · rw [Task.congrLedger Task.startTime ledger_finish]
    split <;> exact startTime_charged.trans_lt (h.fresh r hr)
  · rw [hidle] at hr
    cases hr

theorem Clocked.settle (h : m.Clocked V) (hc : m.runningTasks 0 = some p) (hone : m.places p ≤ 1) :
    (m.settle () 0 p).Clocked V := by
  rw [settle_eq]
  split
  · exact h.finish hc hone
  · exact h.yieldCore hc

theorem Clocked.dispatch (h : m.Clocked V) (hp : p ∈ m.ready ()) (hone : m.places p ≤ 1) :
    (m.dispatch cfg () 0 p x).Clocked V := by
  have hrun : ∀ r, (m.dispatch cfg () 0 p x).runningTasks 0 = some r → p = r := by
    intro r hr
    rw [dispatch_runningTasks, setAt_self] at hr
    exact Option.some.inj hr
  have hsettled : ∀ r ∈ m.ready (), V.Settled ((m.dispatch cfg () 0 p x).heap r) := fun r hr =>
    V.settled_congr _ _ policy_dispatched.symm fixed_dispatch.symm (h.ready r hr)
  refine ⟨?_, h.now, fun r hr => ?_, fun r hr => ?_, fun r hr => ?_, fun r hr => ?_, fun r hr => ?_⟩
  · show V.Good (setAt m.schedulers () _ ())
    rw [setAt_self]
    exact V.good_removeTask _ _ _ h.good
  · exact hsettled r (mem_ready_removeReady.1 hr).1
  · obtain rfl := hrun r hr
    exact hsettled p hp
  · obtain rfl := hrun r hr
    rw [Task.congrLedger Task.startTime (ledger_dispatch cfg x), if_pos rfl]
    exact Task.start_nonneg _ h.now
  · rw [dispatch_events, EventQueue.arrivals_schedule _ (by simp)] at hr
    have hrp : r ≠ p := by
      rintro rfl
      have hpos := waiting_pos.2 ⟨(), hp⟩
      have harr := List.count_pos_iff.2 hr
      simp only [places] at hone
      omega
    rw [heap_dispatch_of_ne hrp]
    exact h.fresh r hr
  · obtain rfl := hrun r hr
    rw [lastGrant_dispatch_self, granted_dispatch_self]

end Machine

end SchedSim
