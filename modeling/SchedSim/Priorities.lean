import SchedSim.Conservation
import SchedSim.CoreTurns
import SchedSim.Levels

/-!
# Who runs under the feedback queue

Rule 1 of the feedback queue: no task runs while one of a higher priority waits.
A core that asks its scheduler gets a task of the lowest level that is queued, so
what has to be looked at is what happens to the tasks on the *other* cores that the
scheduler serves.

* `Machine.Placed` — in every scheduler each task stands in the queue of its level.
* `Machine.Ordered` — the level of a running task is not above that of a waiting one.
* `Machine.Next.ordered` — what `dispatch_next` needs in order to bring this about.
* `MultiCoreSimulator.ruleOne_perCore` — where every core has its own scheduler, there
  are no other cores.
-/

namespace SchedSim

namespace Machine

open MLFQScheduler (BoostDue)

variable {Q : Type} [DecidableEq Q] {n : ℕ} {m m' : Machine MLFQScheduler Q n} {q q' b : Q}
  {c d : Fin n} {p r u : TaskPtr} {x : ℚ} {e : Event n} {cfg : SimConfig} {slot : Fin n → Q}

/-- The level of a task. -/
abbrev level (m : Machine MLFQScheduler Q n) (p : TaskPtr) : ℤ := (m.heap p).currentQueue

/-- In every scheduler each task stands in the queue of its level. -/
def Placed (m : Machine MLFQScheduler Q n) : Prop := ∀ q, (m.schedulers q).Placed m.heap

/-- No core runs a task of a level above that of a task waiting for the core. -/
def Ordered (slot : Fin n → Q) (m : Machine MLFQScheduler Q n) : Prop :=
  ∀ c p, m.runningTasks c = some p → ∀ r ∈ m.ready (slot c), m.level p ≤ m.level r

/-! ## What the blocks do to the levels -/

theorem task_enqueue_of_ne (hr : r ≠ p) : (m.enqueue q p).heap r = m.heap r := by
  have h := MLFQScheduler.addTask_of_ne (s := m.schedulers q)
    (h := m.heap.modify p (·.markReady m.currentTime)) hr
  rwa [Heap.modify_of_ne hr] at h

theorem level_enqueue_of_ne (hr : r ≠ p) : (m.enqueue q p).level r = m.level r :=
  congrArg Task.currentQueue (task_enqueue_of_ne hr)

omit [DecidableEq Q] in
theorem level_finish : (m.finish c p).level r = m.level r := by
  show (m.heap.modify p (·.complete m.currentTime) r).currentQueue = _
  rw [Heap.modify_apply]
  split <;> rfl

theorem level_dispatch : (m.dispatch cfg q c p x).level r = m.level r := by
  show (m.heap.modify p (fun t => (t.markDispatched m.currentTime).start m.currentTime)
    r).currentQueue = _
  rw [Heap.modify_apply]
  split
  · unfold Task.start Task.markDispatched
    split <;> split <;> rfl
  · rfl

theorem level_migrate_of_ne (hr : r ≠ p) : (m.migrate b q p).level r = m.level r :=
  congrArg Task.currentQueue (MLFQScheduler.addTask_of_ne
    (s := (m.removeReady b p).schedulers q) (h := m.heap) hr)

theorem level_charge (hm : m.Placed) (hp : p ∉ m.ready q) : (m.charge q c p).level r
    = if r = p then ((m.schedulers q).chargeAllotment (m.elapsed c) (m.heap p)).currentQueue
      else if (m.schedulers q).BoostDue (m.elapsed c) ∧ r ∈ m.ready q then 0 else m.level r := by
  have hplaced : (m.schedulers q).Placed (m.heap.modify p (·.execute (m.elapsed c))) := by
    refine (hm q).congr fun r _ => ?_
    rw [MLFQScheduler.level, Heap.modify_apply]
    split <;> rfl
  refine (MLFQScheduler.level_onCpuUsed hplaced hp).trans ?_
  rw [Heap.modify_self]
  split
  next =>
    rw [MLFQScheduler.chargeAllotment_currentQueue, MLFQScheduler.chargeAllotment_currentQueue]
    rfl
  next hr =>
    rw [MLFQScheduler.level, Heap.modify_of_ne hr]
    rfl

theorem level_yieldCore_of_ne (hr : r ≠ p) :
    (m.yieldCore q c p).level r = (m.charge q c p).level r := by
  have h : (m.yieldCore q c p).level r
      = (({ (m.charge q c p).clearCore c with
          heap := (m.charge q c p).heap.modify p Task.incrementPreemptions
          preemptions := (m.charge q c p).preemptions + 1 } : Machine MLFQScheduler Q n).level r) :=
    level_enqueue_of_ne hr
  rw [h]
  show ((m.charge q c p).heap.modify p Task.incrementPreemptions r).currentQueue = _
  rw [Heap.modify_of_ne hr]

theorem level_settle_of_ne (hr : r ≠ p) :
    (m.settle q c p).level r = (m.charge q c p).level r := by
  rw [settle_eq]
  split
  · exact level_finish
  · exact level_yieldCore_of_ne hr

/-- The level at which a task comes back. -/
theorem level_yieldCore_self (hm : m.Placed) (hp : p ∉ m.ready q) :
    (m.yieldCore q c p).level p
      = (m.schedulers q).returnLevel (m.elapsed c) (m.heap p) := by
  let h := ((m.charge q c p).heap.modify p Task.incrementPreemptions).modify p
    (·.markReady m.currentTime)
  have hadd : (m.yieldCore q c p).level p
      = if (h p).startTime < 0 then 0
        else ((m.charge q c p).schedulers q).clampLevel (h p).currentQueue :=
    MLFQScheduler.level_addTask_self _ h p
  have hstart : (h p).startTime = (m.heap p).startTime := by
    have hcharge : ((m.charge q c p).heap p).startTime = (m.heap p).startTime := by
      have := Task.congrLedger Task.startTime
        (ledger_charge (m := m) (q := q) (c := c) (p := p) (r := p))
      rw [this, if_pos rfl]
      rfl
    simp only [h, Heap.modify_self]
    exact hcharge
  have hlevel : (h p).currentQueue
      = if (m.heap p).allotmentRemaining ≤ m.elapsed c ∧
            (m.heap p).currentQueue < (m.schedulers q).numLevels - 1
          then (m.heap p).currentQueue + 1
        else (m.heap p).currentQueue := by
    have hcharge := level_charge (r := p) (c := c) hm hp
    rw [if_pos rfl, MLFQScheduler.chargeAllotment_currentQueue] at hcharge
    simp only [h, Heap.modify_self]
    exact hcharge
  have hclamp : ((m.charge q c p).schedulers q).clampLevel = (m.schedulers q).clampLevel := by
    have hparams : ((m.charge q c p).schedulers q).params = (m.schedulers q).params := by
      show (setAt m.schedulers q _ q).params = _
      rw [setAt_self]
      exact MLFQScheduler.onCpuUsed_params ..
    funext level
    rw [MLFQScheduler.clampLevel, MLFQScheduler.numLevels, hparams]
    rfl
  rw [hadd, hstart, hlevel, hclamp, MLFQScheduler.returnLevel]
  split
  · rfl
  · split <;> rfl

/-! ## What the blocks do to the queues -/

omit [DecidableEq Q] in
theorem Placed.congr (hm : m.Placed) (hs : m'.schedulers = m.schedulers)
    (hl : ∀ r, m'.level r = m.level r) : m'.Placed := by
  intro q
  rw [hs]
  exact (hm q).congr fun r _ => hl r

theorem placed_setAt {s : MLFQScheduler} {h : Heap} (hm : m.Placed) (hs : s.Placed h)
    (hl : ∀ q', q' ≠ q → ∀ r ∈ m.ready q', (h r).currentQueue = m.level r) :
    ({ m with schedulers := setAt m.schedulers q s, heap := h } :
      Machine MLFQScheduler Q n).Placed := by
  intro q'
  show (setAt m.schedulers q s q').Placed h
  rw [setAt_apply]
  split
  · exact hs
  next hq => exact (hm q').congr fun r hr => hl q' hq r hr

theorem placed_enqueue (hm : m.Placed) (hp : ∀ q, p ∉ m.ready q) : (m.enqueue q p).Placed := by
  have hmark : ∀ q, (m.schedulers q).Placed (m.heap.modify p (·.markReady m.currentTime)) := by
    intro q
    refine (hm q).congr fun r _ => ?_
    rw [MLFQScheduler.level, Heap.modify_apply]
    split <;> rfl
  refine placed_setAt hm (MLFQScheduler.placed_addTask (hmark q) (hp q)) fun q' _ r hr => ?_
  refine level_enqueue_of_ne ?_
  rintro rfl
  exact hp q' hr

theorem placed_removeReady (hm : m.Placed) : (m.removeReady q p).Placed :=
  placed_setAt hm (MLFQScheduler.placed_removeTask (hm q)) fun _ _ _ _ => rfl

theorem placed_dispatch (hm : m.Placed) : (m.dispatch cfg q c p x).Placed :=
  (placed_removeReady (q := q) (p := p) hm).congr rfl fun _ => level_dispatch

section Unique

variable [Fintype Q]

theorem placed_charge (hm : m.Placed) (hone : ∀ r, m.places r ≤ 1)
    (hc : m.runningTasks c = some p) : (m.charge q c p).Placed := by
  have hp := not_ready_of_running (hone p) hc
  have hplaced : (m.schedulers q).Placed (m.heap.modify p (·.execute (m.elapsed c))) := by
    refine (hm q).congr fun r _ => ?_
    rw [MLFQScheduler.level, Heap.modify_apply]
    split <;> rfl
  refine placed_setAt hm (MLFQScheduler.placed_onCpuUsed hplaced (hp q)) fun q' hq r hr => ?_
  refine (level_charge hm (hp q)).trans ?_
  have hne : r ≠ p := by
    rintro rfl
    exact hp q' hr
  rw [if_neg hne, if_neg fun h => hq (ready_unique (hone r) hr h.2)]

theorem placed_yieldCore (hm : m.Placed) (hone : ∀ r, m.places r ≤ 1)
    (hc : m.runningTasks c = some p) : (m.yieldCore q c p).Placed := by
  have hcharge := placed_charge (q := q) hm hone hc
  have hp := not_ready_of_running (hone p) hc
  refine placed_enqueue (m := { (m.charge q c p).clearCore c with
      heap := (m.charge q c p).heap.modify p Task.incrementPreemptions
      preemptions := (m.charge q c p).preemptions + 1 }) (hcharge.congr rfl fun r => ?_)
        fun q' hmem => ?_
  · show ((m.charge q c p).heap.modify p Task.incrementPreemptions r).currentQueue = _
    rw [Heap.modify_apply]
    split <;> rfl
  · exact hp q' (mem_ready_charge.1 hmem)

theorem placed_settle (hm : m.Placed) (hone : ∀ r, m.places r ≤ 1)
    (hc : m.runningTasks c = some p) : (m.settle q c p).Placed := by
  rw [settle_eq]
  split
  · exact (placed_charge hm hone hc).congr rfl fun _ => level_finish
  · exact placed_yieldCore hm hone hc

theorem placed_migrate (hm : m.Placed) (hone : m.places p ≤ 1) (hp : p ∈ m.ready b) :
    (m.migrate b q p).Placed := by
  have hgone : ∀ q', p ∉ (m.removeReady b p).ready q' := by
    intro q' hmem
    obtain ⟨hq', hid⟩ := mem_ready_removeReady.1 hmem
    exact hid (ready_unique hone hq' hp) rfl
  have hremoved := placed_removeReady (q := b) (p := p) hm
  refine placed_setAt hremoved (MLFQScheduler.placed_addTask (hremoved q) (hgone q))
    fun q' _ r hr => ?_
  refine level_migrate_of_ne ?_
  rintro rfl
  exact hgone q' hr

/-! ## `dispatch_next` -/

/-- The task that is dispatched has the lowest level of those that wait for the
core.  For the other cores it is enough that every task which waits for them and is
not the one to be dispatched has no lower level than theirs. -/
theorem Next.ordered (h : Next cfg slot c m m') (hm : m.Placed) (hone : ∀ r, m.places r ≤ 1)
    (hc : m.runningTasks c = none)
    (hother : ∀ d, d ≠ c → ∀ u, m.runningTasks d = some u → ∀ r ∈ m.ready (slot d),
      (schedule (m.schedulers (slot c)) m.heap).task ≠ some r → m.level u ≤ m.level r) :
    m'.Placed ∧ Ordered slot m' := by
  cases h with
  | idle hempty =>
    rw [clearCore_eq_self m c hc]
    refine ⟨hm, fun d u hd r hr => ?_⟩
    have hdc : d ≠ c := by
      rintro rfl
      rw [hc] at hd
      cases hd
    refine hother d hdc u hd r hr fun hs => ?_
    have hmem : r ∈ m.ready (slot c) := schedule_mem _ m.heap r hs
    rw [hempty] at hmem
    cases hmem
  | @own p x hs =>
    have hp : p ∈ m.ready (slot c) := schedule_mem _ m.heap p (by rw [hs])
    refine ⟨placed_dispatch hm, fun d u hd r hr => ?_⟩
    rw [level_dispatch, level_dispatch]
    rw [ready_dispatch, mem_ready_removeReady] at hr
    rw [dispatch_runningTasks] at hd
    by_cases hdc : d = c
    · subst hdc
      rw [setAt_self] at hd
      obtain rfl := Option.some.inj hd
      exact MLFQScheduler.level_le_of_schedule (hm _) hs hr.1
    · rw [setAt_of_ne _ _ _ hdc] at hd
      refine hother d hdc u hd r hr.1 fun hr' => ?_
      rw [hs] at hr'
      obtain rfl : p = r := Option.some.inj hr'
      exact hr.2 (ready_unique (hone p) hr.1 hp) rfl
  | @steal b stolen p x hb hempty _ hst hs =>
    have hstolen : stolen ∈ m.ready b := schedule_mem _ m.heap stolen hst
    have hmig := placed_migrate (q := slot c) hm (hone stolen) hstolen
    refine ⟨placed_dispatch hmig, fun d u hd r hr => ?_⟩
    rw [level_dispatch, level_dispatch]
    rw [ready_dispatch, mem_ready_removeReady] at hr
    rw [dispatch_runningTasks] at hd
    by_cases hdc : d = c
    · subst hdc
      rw [setAt_self] at hd
      obtain rfl := Option.some.inj hd
      exact MLFQScheduler.level_le_of_schedule (hmig _) hs hr.1
    · rw [setAt_of_ne _ _ _ hdc, migrate_runningTasks] at hd
      have hus : u ≠ stolen := by
        rintro rfl
        exact not_ready_of_running (hone u) hd b hstolen
      -- only the stolen task waits for core `c`, and it is the one dispatched
      have honly : ∀ t ∈ (m.migrate b (slot c) stolen).ready (slot c), t = stolen := by
        intro t ht
        rcases mem_ready_migrate.1 ht with ⟨-, rfl⟩ | ht
        · rfl
        · rw [mem_ready_removeReady, hempty] at ht
          cases ht.1
      have hp : p ∈ (m.migrate b (slot c) stolen).ready (slot c) := schedule_mem _ _ p (by rw [hs])
      have hslot : slot d ≠ slot c := by
        intro hslot
        rw [hslot] at hr
        have hrp : r = p := (honly r hr.1).trans (honly p hp).symm
        exact hr.2 rfl (by rw [hrp])
      have hrm : r ∈ m.ready (slot d) ∧ r ≠ stolen := by
        rcases mem_ready_migrate.1 hr.1 with ⟨h, -⟩ | hr'
        · exact absurd h hslot
        · obtain ⟨hin, hid⟩ := mem_ready_removeReady.1 hr'
          refine ⟨hin, ?_⟩
          rintro rfl
          exact hid (ready_unique (hone r) hin hstolen) rfl
      rw [level_migrate_of_ne hus, level_migrate_of_ne hrm.2]
      refine hother d hdc u hd r hrm.1 fun hs' => ?_
      have hmem : r ∈ m.ready (slot c) := schedule_mem _ m.heap r hs'
      rw [hempty] at hmem
      cases hmem

end Unique

end Machine

end SchedSim
