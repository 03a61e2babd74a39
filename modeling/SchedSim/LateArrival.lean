import SchedSim.Accounting
import SchedSim.CoreTurns
import SchedSim.OwnRecord
import SchedSim.SharedTurns

/-!
# Late arrivals under CFS

A new task gets `min_vruntime_`, so that it has no credit for the time before it arrived.
`update_min_vruntime` looks at the ready queue only: while a task has its scheduler to itself
the minimum stays where it was.

* `Machine.NoCredit` — the task that is being added gets no less than the least of them has.
* `Machine.Covered` — one of them is not above the minimum of the scheduler.
* `Move.keepsUp` — while tasks wait, the scheduler stays covered, unless one is stolen.
* `lateArrival` — a new task gets no credit exactly when its scheduler is covered.
* `Simulator.lateArrival_false` — a task that runs alone uncovers it.
-/

namespace SchedSim

namespace Machine

/-! ## The minimum of a scheduler -/

variable {Q : Type} [DecidableEq Q] {n : ℕ} {m m' : Machine CFSScheduler Q n} {e : Event n}
  {q q' : Q} {c : Fin n} {p r : TaskPtr} {cfg : SimConfig} {slot : Fin n → Q} {x : ℚ}

omit [DecidableEq Q] in
/-- Some ready or running task of the scheduler is not above its minimum. -/
def Covered (slot : Fin n → Q) (m : Machine CFSScheduler Q n) (q : Q) : Prop :=
  ∃ r, Under slot m q r ∧ (m.heap r).vruntime ≤ (m.schedulers q).minVruntime

/-- Right after `add_task` the new task has at least the least virtual runtime of the tasks
that were ready or running under the scheduler before. -/
def NoCredit (slot : Fin n → Q) (m : Machine CFSScheduler Q n) (q : Q) (p : TaskPtr) : Prop :=
  ∃ r, Under slot m q r ∧ ((m.enqueue q p).heap r).vruntime ≤ ((m.enqueue q p).heap p).vruntime

omit [DecidableEq Q] in
/-- Covered, as far as tasks are waiting. -/
def KeepsUp (slot : Fin n → Q) (m : Machine CFSScheduler Q n) : Prop :=
  ∀ q, m.ready q ≠ [] → Covered slot m q

theorem minVruntime_enqueue :
    ((m.enqueue q p).schedulers q').minVruntime = (m.schedulers q').minVruntime := by
  rw [enqueue]
  simp only [setAt_apply]
  split
  next h =>
    subst h
    rfl
  next => rfl

/-- A new task gets the minimum. -/
theorem vruntime_enqueue_new (hnew : (m.heap p).startTime < 0) :
    ((m.enqueue q p).heap p).vruntime = (m.schedulers q).minVruntime := by
  have h : (m.enqueue q p).heap p = ((m.schedulers q).addTask
      (m.heap.modify p (·.markReady m.currentTime)) p).2 p := rfl
  rw [h, CFSScheduler.addTask]
  simp only [Heap.modify_self]
  exact if_pos hnew

/-- A charge raises the minimum to one of the tasks that are waiting. -/
theorem exists_le_minVruntime_charge (hne : m.ready q ≠ []) :
    ∃ r ∈ m.ready q,
      ((m.charge q c p).heap r).vruntime ≤ ((m.charge q c p).schedulers q).minVruntime := by
  have hsched : (m.charge q c p).schedulers q = (onCpuUsed (m.schedulers q)
      (m.heap.modify p (·.execute (m.elapsed c))) p (m.elapsed c)).1 := by
    rw [charge]
    exact setAt_self _ _ _
  have hheap : (m.charge q c p).heap = (onCpuUsed (m.schedulers q)
      (m.heap.modify p (·.execute (m.elapsed c))) p (m.elapsed c)).2 := rfl
  rw [hsched, hheap]
  change ∃ r ∈ (m.schedulers q).readyQueue,
    (((m.schedulers q).onCpuUsed (m.heap.modify p (·.execute (m.elapsed c))) p (m.elapsed c)).2
      r).vruntime
      ≤ ((m.schedulers q).onCpuUsed (m.heap.modify p (·.execute (m.elapsed c))) p
        (m.elapsed c)).1.minVruntime
  rw [CFSScheduler.onCpuUsed]
  simp only [CFSScheduler.updateMinVruntime]
  split
  next hnone =>
    rw [List.min?_eq_none_iff, List.map_eq_nil_iff] at hnone
    exact absurd hnone hne
  next least hleast =>
    obtain ⟨r, hr, heq⟩ := List.mem_map.1 (List.min?_mem hleast)
    exact ⟨r, hr, heq.le.trans (le_max_right _ _)⟩

theorem minVruntime_charge_of_ne (hq : q' ≠ q) :
    ((m.charge q c p).schedulers q').minVruntime = (m.schedulers q').minVruntime := by
  rw [charge]
  simp only [setAt_of_ne _ _ _ hq]

theorem minVruntime_dispatch :
    ((m.dispatch cfg q c p x).schedulers q').minVruntime = (m.schedulers q').minVruntime := by
  show (setAt m.schedulers q _ q').minVruntime = _
  rw [setAt_apply]
  split
  next h =>
    subst h
    rfl
  next => rfl

theorem vruntime_dispatch :
    ((m.dispatch cfg q c p x).heap r).vruntime = (m.heap r).vruntime := by
  have h : ((m.dispatch cfg q c p x).heap r).policy.vruntime = (m.heap r).policy.vruntime :=
    congrArg Task.vruntime policy_dispatched
  exact h

/-! ## One step -/

omit [DecidableEq Q] in
/-- No two tasks that stand anywhere have the same id. -/
def IdsDistinct [Fintype Q] (m : Machine CFSScheduler Q n) : Prop :=
  ∀ p r, 0 < m.places p → 0 < m.places r → (m.heap p).id = (m.heap r).id → p = r

omit [DecidableEq Q] in
/-- Every task that is put on a core comes from the queue of that core. -/
def Homed (slot : Fin n → Q) (m m' : Machine CFSScheduler Q n) : Prop :=
  ∀ q p c, p ∈ m.ready q → m'.runningTasks c = some p → slot c = q

omit [DecidableEq Q] in
/-- What is left alone stays covered. -/
theorem Covered.congr (h : Covered slot m q) (hunder : ∀ r, Under slot m q r → Under slot m' q r)
    (hheap : ∀ r, Under slot m q r → (m'.heap r).vruntime = (m.heap r).vruntime)
    (hmin : (m'.schedulers q).minVruntime = (m.schedulers q).minVruntime) : Covered slot m' q := by
  obtain ⟨r, hr, hle⟩ := h
  refine ⟨r, hunder r hr, ?_⟩
  rw [hheap r hr, hmin]
  exact hle

omit [DecidableEq Q] in
theorem IdsDistinct.of_places_le [Fintype Q] (h : m.IdsDistinct)
    (hle : ∀ p, m'.places p ≤ m.places p) (hfixed : ∀ p, (m'.heap p).fixed = (m.heap p).fixed) :
    m'.IdsDistinct := by
  intro p r hp hr hid
  have hids : ∀ t, (m'.heap t).id = (m.heap t).id := fun t => congrArg (fun f => f.1.id) (hfixed t)
  rw [hids, hids] at hid
  exact h p r (hp.trans_le (hle p)) (hr.trans_le (hle r)) hid

/-- A scheduler is covered when a new task has been added to it. -/
theorem covered_enqueue_new (hnew : (m.heap p).startTime < 0) :
    Covered slot (m.enqueue q p) q := by
  refine ⟨p, .inl (mem_ready_enqueue.2 (.inl ⟨rfl, rfl⟩)), ?_⟩
  rw [vruntime_enqueue_new hnew, minVruntime_enqueue]

/-- A task that stands nowhere is added to another scheduler. -/
theorem covered_enqueue_of_ne [Fintype Q] (hp : m.places p = 0) (h : Covered slot m q') :
    Covered slot (m.enqueue q p) q' := by
  refine h.congr (fun r hr => ?_) (fun r hr => ?_) minVruntime_enqueue
  · rcases hr with hr | hr
    · exact .inl (mem_ready_enqueue.2 (.inr hr))
    · exact .inr hr
  · rw [record_enqueue_of_ne]
    rintro rfl
    exact hr.places_pos.ne' hp

/-- The task of a core has been charged and taken off the core. -/
structure Leaves (q : Q) (c : Fin n) (p : TaskPtr) (m m' : Machine CFSScheduler Q n) : Prop where
  ready : ∀ q' r, r ∈ m.ready q' → r ∈ m'.ready q'
  running : m'.runningTasks = setAt m.runningTasks c none
  record : ∀ r, r ≠ p → m'.heap r = (m.charge q c p).heap r
  minimum : ∀ q', (m'.schedulers q').minVruntime = ((m.charge q c p).schedulers q').minVruntime

theorem leaves_yieldCore : Leaves q c p m (m.yieldCore q c p) where
  ready _ _ hr := mem_ready_yieldCore.2 (.inr hr)
  running := yieldCore_runningTasks ..
  record _ hr := record_requeue_of_ne hr
  minimum _ := minVruntime_enqueue

theorem leaves_settle : Leaves q c p m (m.settle q c p) := by
  rw [settle_eq]
  split
  · exact ⟨fun _ _ hr => mem_ready_charge.2 hr, finish_runningTasks ..,
      fun _ hr => Heap.modify_of_ne hr (m.charge q c p).heap (·.complete m.currentTime),
      fun _ => rfl⟩
  · exact leaves_yieldCore

section Leaves

variable [Fintype Q]

/-- While other tasks wait, the charge raises the minimum to one of them. -/
theorem Leaves.covered (h : Leaves (slot c) c p m m') (hc : m.runningTasks c = some p)
    (hone : m.places p ≤ 1) (hne : m.ready (slot c) ≠ []) : Covered slot m' (slot c) := by
  obtain ⟨r, hr, hle⟩ := exists_le_minVruntime_charge (c := c) (p := p) hne
  refine ⟨r, .inl (h.ready _ r hr), ?_⟩
  rw [h.minimum, h.record r ?_]
  · exact hle
  rintro rfl
  exact not_ready_of_running hone hc _ hr

/-- The other schedulers do not notice. -/
theorem Leaves.covered_of_ne (h : Leaves (slot c) c p m m') (hc : m.runningTasks c = some p)
    (hone : m.places p ≤ 1) (hq : q ≠ slot c) (hcov : Covered slot m q) : Covered slot m' q := by
  refine hcov.congr (fun r hr => ?_) (fun r hr => ?_) ?_
  · rcases hr with hr | ⟨d, rfl, hd⟩
    · exact .inl (h.ready q r hr)
    · refine .inr ⟨d, rfl, ?_⟩
      rw [h.running, setAt_of_ne, hd]
      rintro rfl
      exact hq rfl
  · have hrp : r ≠ p := by
      rintro rfl
      rcases hr with hr | ⟨d, rfl, hd⟩
      · exact not_ready_of_running hone hc q hr
      · exact hq (congrArg slot (core_unique hone hd hc))
    rw [h.record r hrp, record_charge_of_ne hrp]
  · rw [h.minimum, minVruntime_charge_of_ne hq]

/-- `dispatch_next` keeps a scheduler covered; the one of the core may be uncovered before if
it has no more than the task that is dispatched. -/
theorem Next.keepsUp (hn : Next cfg slot c m m') (hc : m.runningTasks c = none)
    (hone : ∀ p, m.places p ≤ 1) (hids : m.IdsDistinct)
    (hhome : ∀ b, b ≠ slot c → ∀ p ∈ m.ready b, m'.runningTasks c ≠ some p)
    (hother : ∀ q, q ≠ slot c → m.ready q ≠ [] → Covered slot m q)
    (hown : 1 < (m.ready (slot c)).length → Covered slot m (slot c)) : KeepsUp slot m' := by
  intro q hq
  cases hn with
  | idle hempty =>
    rw [clearCore_eq_self m c hc] at hq ⊢
    refine hother q ?_ hq
    rintro rfl
    exact hq hempty
  | @own p x hs =>
    have hp : p ∈ m.ready (slot c) := mem_ready_of_schedule hs
    have hpu : Under slot m (slot c) p := .inl hp
    rw [ready_dispatch] at hq
    have hcover : Covered slot m q := by
      by_cases hqc : q = slot c
      · subst hqc
        -- the task that is dispatched was not alone
        have hlt := length_ready_removeReady_lt hp
        have hpos := List.length_pos_iff.2 hq
        exact hown (by omega)
      · refine hother q hqc ?_
        rwa [ready_removeReady, if_neg hqc] at hq
    refine hcover.congr (fun r hr => ?_) (fun r _ => vruntime_dispatch) minVruntime_dispatch
    rcases hr with hr | ⟨d, hd, hrun⟩
    · by_cases hrp : r = p
      · subst hrp
        refine .inr ⟨c, ready_unique (hone r) hp hr, ?_⟩
        rw [dispatch_runningTasks, setAt_self]
      · have hru : Under slot m q r := .inl hr
        refine .inl ?_
        rw [ready_dispatch, mem_ready_removeReady]
        exact ⟨hr, fun _ hid => hrp (hids r p hru.places_pos hpu.places_pos hid)⟩
    · have hdc : d ≠ c := by
        rintro rfl
        rw [hc] at hrun
        cases hrun
      exact .inr ⟨d, hd, by rwa [dispatch_runningTasks, setAt_of_ne _ _ _ hdc]⟩
  | @steal b stolen p x hb hempty _ hst hs =>
    have hstolen : stolen ∈ m.ready b := schedule_mem _ m.heap stolen hst
    have hp := mem_ready_of_schedule hs
    obtain rfl : p = stolen := by
      rcases mem_ready_migrate.1 hp with ⟨-, hp⟩ | hp
      · exact hp
      · have hmem := (mem_ready_removeReady.1 hp).1
        rw [hempty] at hmem
        cases hmem
    exact absurd (setAt_self ..) (hhome b hb p hstolen)

/-- While tasks wait, their scheduler stays covered, unless one of them is stolen. -/
theorem Move.keepsUp (h : Move cfg slot m e m') (he : m.events.IsNext e)
    (hone : ∀ p, m.places p ≤ 1) (hids : m.IdsDistinct) (hhome : Homed slot m m')
    (hnew : e.type = .arrival → (m.heap e.task).startTime < 0) (hm : KeepsUp slot m) :
    KeepsUp slot m' := by
  have harrived : ∀ q, e.type = .arrival → KeepsUp slot ((m.pop e).enqueue q e.task) := by
    intro q harr q' hq'
    have hgone := places_pop_arrival he.1 harr hone
    by_cases hqq : q' = q
    · subst hqq
      exact covered_enqueue_new (hnew harr)
    · refine covered_enqueue_of_ne hgone (hm q' ?_)
      rintro hnil
      obtain ⟨r, hr⟩ := List.exists_mem_of_ne_nil _ hq'
      rcases mem_ready_enqueue.1 hr with ⟨heq, -⟩ | hr
      · exact hqq heq
      · have : r ∈ m.ready q' := hr
        rw [hnil] at this
        cases this
  cases h with
  | skip => exact hm
  | @queued q harr => exact harrived q harr
  | @woken c _ harr hidle hn =>
    refine hn.keepsUp hidle (places_arrived_le he hone harr) ?_ ?_ ?_ ?_
    · exact hids.of_places_le (fun r => (places_arrived he harr r).le) fun r => fixed_enqueue
    · intro b hb r hr hrun
      rcases mem_ready_enqueue.1 hr with ⟨heq, -⟩ | hr
      · exact hb heq
      · exact hb (hhome b r c hr hrun).symm
    · exact fun q _ => harrived (slot c) harr q
    · exact fun hlen => harrived (slot c) harr _ (List.length_pos_iff.1 (by omega))
  | @preempted c p _ harr hc _ _ hn =>
    have hc' : ((m.pop e).enqueue (slot c) e.task).runningTasks c = some p := hc
    have hone' := places_arrived_le (q := slot c) he hone harr
    have hleaves : Leaves (slot c) c p ((m.pop e).enqueue (slot c) e.task)
      (((m.pop e).enqueue (slot c) e.task).yieldCore (slot c) c p) := leaves_yieldCore
    have hplaces : ∀ r, (((m.pop e).enqueue (slot c) e.task).yieldCore (slot c) c p).places r
        = m.places r := fun r => (places_yieldCore hc').trans (places_arrived he harr r)
    refine hn.keepsUp ?_ (fun r => (hplaces r).trans_le (hone r)) ?_ ?_ ?_ ?_
    · rw [countSwitch_runningTasks, yieldCore_runningTasks, setAt_self]
    · refine hids.of_places_le (fun r => (hplaces r).le) fun r => ?_
      rw [countSwitch_heap, fixed_yieldCore, fixed_enqueue, pop_heap]
    · intro b hb r hr hrun
      rcases mem_ready_yieldCore.1 hr with ⟨heq, -⟩ | hr
      · exact hb heq
      rcases mem_ready_enqueue.1 hr with ⟨heq, -⟩ | hr
      · exact hb heq
      · exact hb (hhome b r c hr hrun).symm
    · intro q hq hne
      refine hleaves.covered_of_ne hc' (hone' p) hq (harrived _ harr q ?_)
      obtain ⟨r, hr⟩ := List.exists_mem_of_ne_nil _ hne
      rcases mem_ready_yieldCore.1 hr with ⟨heq, -⟩ | hr
      · exact absurd heq hq
      · exact List.ne_nil_of_mem hr
    · -- the new task waits while the other is charged
      intro _
      exact hleaves.covered hc' (hone' p)
        (List.ne_nil_of_mem (mem_ready_enqueue.2 (.inl ⟨rfl, rfl⟩)))
  | expired hts hc hn =>
    have hna : e.type ≠ .arrival := by simp [hts]
    have hc' : (m.pop e).runningTasks e.coreId = some e.task := hc
    have hone' : (m.pop e).places e.task ≤ 1 := (places_pop_eq he hna e.task).trans_le (hone _)
    have hleaves : Leaves (slot e.coreId) e.coreId e.task (m.pop e)
      ((m.pop e).settle (slot e.coreId) e.coreId e.task) := leaves_settle
    have hplaces : ∀ r, ((m.pop e).settle (slot e.coreId) e.coreId e.task).places r
        = m.places r := fun r => (places_settle hc').trans (places_pop_eq he hna r)
    refine hn.keepsUp ?_ (fun r => (hplaces r).trans_le (hone r)) ?_ ?_ ?_ ?_
    · rw [settle_runningTasks, setAt_self]
    · refine hids.of_places_le (fun r => (hplaces r).le) fun r => ?_
      rw [fixed_settle, pop_heap]
    · intro b hb r hr hrun
      rcases mem_ready_settle hr with ⟨heq, -⟩ | hr
      · exact hb heq
      · exact hb (hhome b r _ hr hrun).symm
    · intro q hq hne
      refine hleaves.covered_of_ne hc' hone' hq (hm q ?_)
      obtain ⟨r, hr⟩ := List.exists_mem_of_ne_nil _ hne
      rcases mem_ready_settle hr with ⟨heq, -⟩ | hr
      · exact absurd heq hq
      · exact List.ne_nil_of_mem hr
    · -- with two tasks in the queue now, one was waiting before
      intro hlen
      refine hleaves.covered hc' hone' ?_
      rintro hnil
      have hle : (((m.pop e).settle (slot e.coreId) e.coreId e.task).ready (slot e.coreId)).length
          ≤ ((m.pop e).ready (slot e.coreId)).length + 1 := length_ready_settle_le
      rw [hnil, List.length_nil] at hle
      omega

end Leaves

/-! ## Runs -/

section Runs

variable [Fintype Q] {schedulers : Q → CFSScheduler} {w : Workload}

/-- A new task gets no credit exactly when the scheduler it is added to is covered. -/
theorem noCredit_iff (hnew : (m.heap p).startTime < 0) (hp : m.places p = 0) :
    NoCredit slot m q p ↔ Covered slot m q := by
  have hrecord : ∀ r, Under slot m q r → (m.enqueue q p).heap r = m.heap r := by
    intro r hr
    refine record_enqueue_of_ne ?_
    rintro rfl
    exact hr.places_pos.ne' hp
  rw [NoCredit, Covered, vruntime_enqueue_new hnew]
  constructor
  · rintro ⟨r, hr, hle⟩
    rw [hrecord r hr] at hle
    exact ⟨r, hr, hle⟩
  · rintro ⟨r, hr, hle⟩
    refine ⟨r, hr, ?_⟩
    rwa [hrecord r hr]

variable [NeZero n] (hempty : ∀ q, readyTasks (schedulers q) = [])

include hempty

theorem noCredit_iff_of_reachable (h : Lts.Reachable (Step cfg slot) (init schedulers w) m)
    (he : e ∈ m.events) (harr : e.type = .arrival) :
    NoCredit slot (m.pop e) q e.task ↔ Covered slot m q := by
  have hone : ∀ p, m.places p ≤ 1 := fun p =>
    (places_le_count hempty h p).trans (List.nodup_iff_count_le_one.1 w.nodup p)
  have hmem : e.task ∈ m.events.arrivals := EventQueue.mem_arrivals.2 ⟨e, he, harr, rfl⟩
  exact noCredit_iff (unstarted_of_reachable hempty h e.task hmem) (places_pop_arrival he harr hone)

theorem idsDistinct_of_reachable (hids : w.DistinctIds)
    (h : Lts.Reachable (Step cfg slot) (init schedulers w) m) : m.IdsDistinct := by
  intro p r hp hr hid
  have hmem : ∀ {t}, 0 < m.places t → t ∈ w.added := fun ht =>
    List.count_pos_iff.1 (ht.trans_le (places_le_count hempty h _))
  have hfixed := fun t => congrArg (fun f => f.1.id) (fixed_of_reachable h t)
  exact hids p (hmem hp) r (hmem hr) ((hfixed p).symm.trans (hid.trans (hfixed r)))

/-- As long as no task is stolen, every scheduler with a waiting task is covered. -/
theorem keepsUp_of_reachable (hids : w.DistinctIds)
    (h : Lts.Reachable (fun s e t => Step cfg slot s e t ∧ Homed slot s t) (init schedulers w) m) :
    KeepsUp slot m := by
  refine h.induction (I := KeepsUp slot) ?_ ?_
  · intro q hq
    exact absurd (hempty q) hq
  · intro s e t hs ih hstep
    obtain ⟨⟨hnext, hstop, hmove⟩, hhome⟩ := hstep
    have hs' : Lts.Reachable (Step cfg slot) (init schedulers w) s :=
      hs.simulate (f := id) fun _ _ _ hst => hst.1
    have hone : ∀ p, s.places p ≤ 1 := fun p =>
      (places_le_count hempty hs' p).trans (List.nodup_iff_count_le_one.1 w.nodup p)
    refine hmove.keepsUp hnext hone (idsDistinct_of_reachable hempty hids hs') hhome ?_ ih
    intro harr
    exact unstarted_of_reachable hempty hs' _
      (EventQueue.mem_arrivals.2 ⟨e, hnext.1, harr, rfl⟩)

end Runs

end Machine

/-! ## The two simulators -/

open Machine

/-- **When a late arrival gets no credit**: exactly when some ready or running task of its
scheduler is not above `min_vruntime_`.  With distinct ids a waiting task is enough for that,
in the multi-queue simulator as long as no task is stolen. -/
theorem lateArrival {n : ℕ} [NeZero n] (params : CFSParams) (w : Workload) :
    (∀ (cfg : SimConfig) (s : Simulator CFSScheduler n),
      Lts.Reachable (Simulator.Step cfg) (Simulator.init (.new params) w) s →
      ∀ e s', Simulator.Step cfg s e s' → e.type = .arrival →
      (NoCredit Simulator.slot (s.pop e) () e.task ↔ Covered Simulator.slot s ()) ∧
        (w.DistinctIds → s.ready () ≠ [] → Covered Simulator.slot s ())) ∧
    (∀ (balancer : LoadBalancer) (cfg : MultiConfig) (s : MultiCoreSimulator CFSScheduler n),
      Lts.Reachable (MultiCoreSimulator.Step cfg)
        (MultiCoreSimulator.init (.new params) balancer w) s →
      ∀ e s', MultiCoreSimulator.Step cfg s e s' → e.type = .arrival →
      (NoCredit MultiCoreSimulator.slot (s.pop e) s.target e.task
        ↔ Covered MultiCoreSimulator.slot s.toMachine s.target)) ∧
    (∀ (balancer : LoadBalancer) (cfg : MultiConfig) (s : MultiCoreSimulator CFSScheduler n),
      w.DistinctIds →
      Lts.Reachable (fun s e s' => MultiCoreSimulator.Step cfg s e s' ∧
          Homed MultiCoreSimulator.slot s.toMachine s'.toMachine)
        (MultiCoreSimulator.init (.new params) balancer w) s →
      ∀ c, s.ready c ≠ [] → Covered MultiCoreSimulator.slot s.toMachine c) := by
  refine ⟨?_, ?_, ?_⟩
  · intro cfg s hs e s' hstep harr
    have hs' : Lts.Reachable (Machine.Step cfg Simulator.slot)
        (Machine.init (fun _ => CFSScheduler.new params) w) s :=
      hs.simulate (f := id) fun _ _ _ => Simulator.step_machine
    refine ⟨noCredit_iff_of_reachable (fun _ => rfl) hs' hstep.1.1 harr, fun hids => ?_⟩
    -- with a single queue nothing is ever stolen
    have hhomed : Lts.Reachable (fun s e t => Machine.Step cfg Simulator.slot s e t ∧
        Homed Simulator.slot s t) (Machine.init (fun _ => CFSScheduler.new params) w) s :=
      hs'.simulate (f := id) fun _ _ _ h => ⟨h, fun _ _ _ _ _ => rfl⟩
    exact keepsUp_of_reachable (fun _ => rfl) hids hhomed ()
  · intro balancer cfg s hs e s' hstep harr
    have hs' : Lts.Reachable (Machine.Step cfg.toSimConfig MultiCoreSimulator.slot)
        (Machine.init (fun _ => CFSScheduler.new params) w) s.toMachine :=
      hs.simulate (f := MultiCoreSimulator.toMachine) fun _ _ _ => MultiCoreSimulator.step_machine
    exact noCredit_iff_of_reachable (fun _ => rfl) hs' hstep.1.1 harr
  · intro balancer cfg s hids hs
    have hs' : Lts.Reachable (fun s e t =>
        Machine.Step cfg.toSimConfig MultiCoreSimulator.slot s e t ∧
        Homed MultiCoreSimulator.slot s t) (Machine.init (fun _ => CFSScheduler.new params) w)
        s.toMachine :=
      hs.simulate (f := MultiCoreSimulator.toMachine) fun _ _ _ h =>
        ⟨MultiCoreSimulator.step_machine h.1, h.2⟩
    exact keepsUp_of_reachable (fun _ => rfl) hids hs'

/-- Task 2 arrives at 1.  On one core task 0 runs then and task 1 waits; with a queue for each of
two cores both of them run, and it comes to the core of task 0. -/
theorem lateArrival_three :
    let cfg : MultiConfig := { stopTime := 50 }
    let w := Workload.ofList [⟨0, 0, 10, 0⟩, ⟨1, 0, 10, 0⟩, ⟨2, 1, 4, -5⟩]
    let single := Simulator.turns (n := 1) cfg.toSimConfig 2 (Simulator.init (.new {}) w)
    let multi := MultiCoreSimulator.turns (n := 2) cfg 2
      (MultiCoreSimulator.init (.new {}) (.roundRobin 0) w)
    let later := MultiCoreSimulator.turns (n := 1) cfg 2
      (MultiCoreSimulator.init (CFSScheduler.new {}) .leastLoaded w)
    let e : {n : ℕ} → [NeZero n] → Event n := ⟨.arrival, 1, 2, 0⟩
    NoCredit Simulator.slot (single.pop e) () 2 ∧
      (multi.target = 0 ∧ NoCredit MultiCoreSimulator.slot (multi.pop e) multi.target 2) ∧
      (later.ready 0 = [1] ∧ Covered MultiCoreSimulator.slot later.toMachine 0) := by
  intro cfg w single multi later e
  have hsingle : single.events.IsNext e := EventQueue.isNext_of_getNext (by decide +kernel)
  have hmulti : multi.events.IsNext e := EventQueue.isNext_of_getNext (by decide +kernel)
  have hcredit := ((lateArrival {} w).1 cfg.toSimConfig single (Simulator.reachable_turns _ 2 _) e
    _ ⟨hsingle, by decide +kernel, rfl⟩ rfl).1
  have hcredit' := (lateArrival {} w).2.1 _ cfg multi (MultiCoreSimulator.reachable_turns _ 2 _) e
    _ ⟨hmulti, by decide +kernel, rfl⟩ rfl
  have hrun : single.runningTasks 0 = some 0 := by decide +kernel
  have hrun' : multi.runningTasks multi.target = some 0 := by decide +kernel
  refine ⟨hcredit.2 ⟨0, .inr ⟨0, rfl, hrun⟩, by decide +kernel⟩,
    ⟨by decide +kernel, hcredit'.2 ⟨0, .inr ⟨_, rfl, hrun'⟩, by decide +kernel⟩⟩,
    ⟨by decide +kernel, (lateArrival {} w).2.2 .leastLoaded cfg later (by decide) ?_ 0
      (by decide +kernel)⟩⟩
  exact (MultiCoreSimulator.reachable_turns _ 2 _).simulate (f := id) fun _ _ _ hstep =>
    ⟨hstep, fun _ _ _ _ _ => Subsingleton.elim _ _⟩

/-- **A task that ran alone leaves the minimum behind.**  After 12 ms its virtual runtime is
12, and the task that arrives at 13 ms starts from 0. -/
theorem Simulator.lateArrival_false :
    let cfg : SimConfig := { stopTime := 50 }
    let w := Workload.ofList [⟨0, 0, 100, 0⟩, ⟨1, 13, 10, 0⟩]
    ¬ ∀ s : Simulator CFSScheduler 1,
      Lts.Reachable (Step cfg) (init (.new {}) w) s →
      ∀ e s', Step cfg s e s' → e.type = .arrival → (∃ r, Under slot s () r) →
      NoCredit slot (s.pop e) () e.task := by
  intro cfg w h
  let s : Simulator CFSScheduler 1 := turns cfg 2 (init (.new {}) w)
  let e : Event 1 := ⟨.arrival, 13, 1, 0⟩
  have hnext : s.events.IsNext e := EventQueue.isNext_of_getNext (by decide +kernel)
  have hrun : s.runningTasks 0 = some 0 := by decide +kernel
  obtain ⟨r, hr, hle⟩ := h s (reachable_turns cfg 2 _) e _ ⟨hnext, by decide +kernel, rfl⟩ rfl
    ⟨0, .inr ⟨0, rfl, hrun⟩⟩
  -- only task 0 is under the scheduler
  have hr0 : r = 0 := by
    rcases hr with hr | ⟨c, -, hc⟩
    · have hnil : s.ready () = [] := by decide +kernel
      rw [show ((s.pop e).ready ()) = s.ready () from rfl, hnil] at hr
      cases hr
    · obtain rfl : c = 0 := Subsingleton.elim _ _
      exact Option.some.inj (hc.symm.trans hrun)
  subst hr0
  exact absurd hle (by decide +kernel)

end SchedSim
