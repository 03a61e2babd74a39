import SchedSim.Parts
import SchedSim.Priorities

/-!
# Levels and allotments along a run

What the feedback queue knows about a task is its level and what is left of its allotment.
Every operation says what it does to the two together, which is called the gauge of the task
here; how the parts of a run keep the gauges in order follows from that.

* `MLFQScheduler.gauge_addTask`, `MLFQScheduler.gauge_onCpuUsed` — the methods.
* `Machine.gauge_yieldCore_self` and its companions — the blocks.
* `Machine.Leveled`, `Part.leveled` — every task is in the queue of its level, the level exists,
  and a task that was never started is at the top with a fresh allotment.
* `Next.gauge` — `dispatch_next` changes no gauge.
-/

namespace SchedSim

/-- The level of a task and what is left of its allotment. -/
def Task.gauge (t : Task) : ℤ × ℚ := (t.currentQueue, t.allotmentRemaining)

namespace MLFQScheduler

variable {s s' : MLFQScheduler} {h : Heap} {p r : TaskPtr} {x : ℚ} {level : ℤ}
  {params : MLFQParams}

/-! ## The methods -/

theorem numLevels_of_params (hs : s.params = params) :
    s.numLevels = params.queueConfigs.length := by rw [numLevels, hs]

/-- The allotments depend on the parameters only. -/
theorem allotmentForLevel_of_params (hs : s.params = params) :
    s.allotmentForLevel level = (new params).allotmentForLevel level := by
  subst hs
  rfl

theorem quantumForLevel_of_params (hs : s.params = params) :
    s.quantumForLevel level = (new params).quantumForLevel level := by
  subst hs
  rfl

theorem clampLevel_lt_numLevels (s : MLFQScheduler) (level : ℤ) :
    s.clampLevel level < s.numLevels := by
  have := s.numLevels_pos
  rw [clampLevel]
  omega

/-- A level that exists is not clamped. -/
theorem clampLevel_eq_self (hlow : 0 ≤ level) (hhigh : level < s.numLevels) :
    s.clampLevel level = level := by
  rw [clampLevel]
  omega

/-- A task that has never run starts at the top with a fresh allotment. -/
theorem gauge_addTask (s : MLFQScheduler) (h : Heap) (p : TaskPtr) :
    ((SchedSim.addTask s h p).2 p).gauge
      = if (h p).startTime < 0 then (0, s.allotmentForLevel 0)
        else (s.clampLevel (h p).currentQueue, (h p).allotmentRemaining) := by
  have hlevel := s.level_addTask_self h p
  have hleft : ((SchedSim.addTask s h p).2 p).allotmentRemaining
      = if (h p).startTime < 0 then s.allotmentForLevel 0 else (h p).allotmentRemaining := by
    show ((MLFQScheduler.addTask s h p).2 p).allotmentRemaining = _
    simp only [addTask, enqueue, Heap.modify_self]
    split
    · rw [Heap.modify_self]
    · rfl
  rw [Task.gauge, hleft]
  split
  next hneg => rw [if_pos hneg] at hlevel; exact Prod.ext hlevel rfl
  next hneg => rw [if_neg hneg] at hlevel; exact Prod.ext hlevel rfl

/-- A boost gives every queued task a fresh allotment. -/
theorem allotmentRemaining_performBoost : ((s.performBoost h).2 r).allotmentRemaining
    = if r ∈ readyTasks s then s.allotmentForLevel 0 else (h r).allotmentRemaining := by
  have hkeep : ((s.boostAll h).2 r).allotmentRemaining = (h r).allotmentRemaining :=
    congr_modifyAll Task.allotmentRemaining fun _ => rfl
  have hmem : r ∈ (s.boostAll h).1.queues.flatten ↔ r ∈ readyTasks s :=
    (boostAll_perm s h).mem_iff
  show (((s.boostAll h).2.modifyAll (s.boostAll h).1.queues.flatten fun t =>
    { t with allotmentRemaining := s.allotmentForLevel 0 }) r).allotmentRemaining = _
  split
  next hr => exact modifyAll_eq_of_mem Task.allotmentRemaining (fun _ => rfl) (hmem.2 hr)
  next hr =>
    rw [← hkeep]
    exact congrArg Task.allotmentRemaining (Heap.modifyAll_of_notMem (mt hmem.1 hr))

theorem gauge_performBoost (hs : s.Placed h) : ((s.performBoost h).2 r).gauge
    = if r ∈ readyTasks s then (0, s.allotmentForLevel 0) else (h r).gauge := by
  have hlevel := level_performBoost (r := r) hs
  have hleft := allotmentRemaining_performBoost (s := s) (h := h) (r := r)
  split
  next hr =>
    rw [if_pos hr] at hlevel hleft
    exact Prod.ext hlevel hleft
  next hr =>
    rw [if_neg hr] at hlevel hleft
    exact Prod.ext hlevel hleft

/-- What charging the task `p` does to the gauges. -/
theorem gauge_onCpuUsed (hs : s.Placed h) (hp : p ∉ readyTasks s) :
    ((SchedSim.onCpuUsed s h p x).2 r).gauge
      = if r = p then (s.chargeAllotment x (h p)).gauge
        else if s.BoostDue x ∧ r ∈ readyTasks s then (0, s.allotmentForLevel 0)
        else (h r).gauge := by
  have hcharge : (h.modify p (s.chargeAllotment x) r).gauge
      = if r = p then (s.chargeAllotment x (h p)).gauge else (h r).gauge := by
    rw [Heap.modify_apply]
    split
    next hr => rw [hr]
    next => rfl
  have hplaced : s.Placed (h.modify p (s.chargeAllotment x)) := by
    refine hs.congr fun q hq => ?_
    have hne : q ≠ p := by
      rintro rfl
      exact hp hq
    rw [MLFQScheduler.level, Heap.modify_of_ne hne]
  show ((s.onCpuUsed h p x).2 r).gauge = _
  rw [onCpuUsed]
  by_cases hdue : s.BoostDue x
  · simp only [if_pos hdue.1, if_pos hdue.2, gauge_performBoost hplaced, hcharge]
    by_cases hr : r = p
    · subst hr
      simp only [if_neg hp, if_true]
    · simp only [if_neg hr, hdue, true_and]
  · have hkeep : (if s.params.enableBoost = true then
        if s.params.boostInterval ≤ s.timeSinceLastBoost + x then
          ({ (s.performBoost (h.modify p (s.chargeAllotment x))).1 with timeSinceLastBoost := 0 },
            (s.performBoost (h.modify p (s.chargeAllotment x))).2)
        else ({ s with timeSinceLastBoost := s.timeSinceLastBoost + x },
          h.modify p (s.chargeAllotment x))
        else (s, h.modify p (s.chargeAllotment x))).2 = h.modify p (s.chargeAllotment x) := by
      split
      next hen => rw [if_neg fun hle => hdue ⟨hen, hle⟩]
      next => rfl
    refine (congrArg (fun h : Heap => (h r).gauge) hkeep).trans ?_
    rw [hcharge]
    simp only [hdue, false_and, if_false]

/-- The gauge of a task that is charged: its allotment shrinks, and when it is used up, the task
is demoted and starts a fresh one. -/
theorem gauge_chargeAllotment (s : MLFQScheduler) (x : ℚ) (t : Task) :
    (s.chargeAllotment x t).gauge = if t.allotmentRemaining ≤ x then
        (if t.currentQueue < s.numLevels - 1 then t.currentQueue + 1 else t.currentQueue,
          s.allotmentForLevel
            (if t.currentQueue < s.numLevels - 1 then t.currentQueue + 1 else t.currentQueue))
      else (t.currentQueue, t.allotmentRemaining - x) := by
  rw [chargeAllotment, Task.gauge]
  simp only [sub_nonpos]
  split <;> rfl

end MLFQScheduler

namespace Machine

open MLFQScheduler (BoostDue)

variable {Q : Type} [DecidableEq Q] {n : ℕ} {m m' : Machine MLFQScheduler Q n} {q q' b : Q}
  {c : Fin n} {p r : TaskPtr} {x : ℚ} {e : Event n} {cfg : SimConfig} {slot : Fin n → Q}
  {w : Workload} {params : MLFQParams}

/-- The gauge of a task. -/
abbrev gauge (m : Machine MLFQScheduler Q n) (r : TaskPtr) : ℤ × ℚ := (m.heap r).gauge

/-! ## The blocks -/

theorem gauge_enqueue : (m.enqueue q p).gauge r = if r = p then
      (if (m.heap p).startTime < 0 then (0, (m.schedulers q).allotmentForLevel 0)
        else ((m.schedulers q).clampLevel (m.level p), (m.heap p).allotmentRemaining))
    else m.gauge r := by
  split
  next hr =>
    subst hr
    have h := (m.schedulers q).gauge_addTask (m.heap.modify r (·.markReady m.currentTime)) r
    rw [Heap.modify_self] at h
    exact h
  next hr => exact congrArg Task.gauge (task_enqueue_of_ne hr)

theorem gauge_migrate : (m.migrate b q p).gauge r = if r = p then
      (if (m.heap p).startTime < 0 then
          (0, ((m.removeReady b p).schedulers q).allotmentForLevel 0)
        else (((m.removeReady b p).schedulers q).clampLevel (m.level p),
          (m.heap p).allotmentRemaining))
    else m.gauge r := by
  split
  next hr =>
    subst hr
    exact ((m.removeReady b r).schedulers q).gauge_addTask m.heap r
  next hr => exact congrArg Task.gauge (MLFQScheduler.addTask_of_ne
    (s := (m.removeReady b p).schedulers q) (h := m.heap) hr)

theorem gauge_dispatch : (m.dispatch cfg q c p x).gauge r = m.gauge r :=
  Task.congrPolicy Task.gauge policy_dispatched

omit [DecidableEq Q] in
theorem gauge_finish : (m.finish c p).gauge r = m.gauge r :=
  Task.congrPolicy Task.gauge policy_finish

theorem gauge_charge (hm : m.Placed) (hp : p ∉ m.ready q) : (m.charge q c p).gauge r
    = if r = p then ((m.schedulers q).chargeAllotment (m.elapsed c) (m.heap p)).gauge
      else if (m.schedulers q).BoostDue (m.elapsed c) ∧ r ∈ m.ready q then
        (0, (m.schedulers q).allotmentForLevel 0)
      else m.gauge r := by
  have hplaced : (m.schedulers q).Placed (m.heap.modify p (·.execute (m.elapsed c))) := by
    refine (hm q).congr fun r _ => ?_
    rw [MLFQScheduler.level, Heap.modify_apply]
    split <;> rfl
  refine (MLFQScheduler.gauge_onCpuUsed hplaced hp).trans ?_
  rw [Heap.modify_self]
  split
  next =>
    rw [MLFQScheduler.gauge_chargeAllotment, MLFQScheduler.gauge_chargeAllotment]
    rfl
  next hr =>
    rw [Heap.modify_of_ne hr]
    rfl

/-- Charging a task leaves the parameters alone. -/
theorem sameParams_charge {params : MLFQParams} (hm : ∀ q, (m.schedulers q).params = params) :
    ∀ q', ((m.charge q c p).schedulers q').params = params :=
  forall_setAt (P := fun s : MLFQScheduler => s.params = params) hm
    ((MLFQScheduler.onCpuUsed_params ..).trans (hm q))

theorem gauge_yieldCore_of_ne (hr : r ≠ p) :
    (m.yieldCore q c p).gauge r = (m.charge q c p).gauge r := by
  have h : (m.yieldCore q c p).heap r
      = ((m.charge q c p).heap.modify p Task.incrementPreemptions) r :=
    task_enqueue_of_ne (m := { (m.charge q c p).clearCore c with
      heap := (m.charge q c p).heap.modify p Task.incrementPreemptions
      preemptions := (m.charge q c p).preemptions + 1 }) hr
  rw [gauge, h, Heap.modify_of_ne hr]

/-- The gauge of a task that comes back: a task that was never started, or at a negative time,
is taken for a new one. -/
theorem gauge_yieldCore_self : (m.yieldCore q c p).gauge p
    = if (m.heap p).startTime < 0 then (0, (m.schedulers q).allotmentForLevel 0)
      else ((m.schedulers q).clampLevel ((m.charge q c p).gauge p).1,
        ((m.charge q c p).gauge p).2) := by
  have hsame : ((m.charge q c p).schedulers q).params = (m.schedulers q).params := by
    show (setAt m.schedulers q _ q).params = _
    rw [setAt_self]
    exact MLFQScheduler.onCpuUsed_params ..
  have hclamp : ((m.charge q c p).schedulers q).clampLevel = (m.schedulers q).clampLevel := by
    funext level
    rw [MLFQScheduler.clampLevel, MLFQScheduler.numLevels, hsame]
    rfl
  have h := ((m.charge q c p).schedulers q).gauge_addTask
    (((m.charge q c p).heap.modify p Task.incrementPreemptions).modify p
      (·.markReady m.currentTime)) p
  rw [Heap.modify_self, Heap.modify_self, hclamp, MLFQScheduler.allotmentForLevel_of_params hsame,
    ← MLFQScheduler.allotmentForLevel_of_params rfl] at h
  refine h.trans ?_
  show (if ((m.charge q c p).heap p).startTime < 0 then _ else _) = _
  rw [startTime_charged]
  rfl

/-! ## Runs -/

omit [DecidableEq Q] in
/-- The gauges are in order. -/
structure Leveled (params : MLFQParams) (slot : Fin n → Q) (m : Machine MLFQScheduler Q n) :
    Prop where
  sameParams : ∀ q, (m.schedulers q).params = params
  /-- Every task stands in the queue of its level. -/
  placed : m.Placed
  /-- A task that was never started is at the top and has its whole allotment. -/
  fresh : ∀ q, ∀ r ∈ m.ready q, (m.heap r).startTime < 0 →
    m.gauge r = (0, (MLFQScheduler.new params).allotmentForLevel 0)
  /-- The level of a task exists. -/
  range : ∀ q r, Under slot m q r → 0 ≤ m.level r ∧ m.level r < params.queueConfigs.length

omit [DecidableEq Q] in
/-- A task keeps its gauge, starts afresh, or comes back at a level that exists. -/
theorem Leveled.of_cases (hm : m.Leveled params slot)
    (hparams : ∀ q, (m'.schedulers q).params = params) (hplaced : m'.Placed)
    (h : ∀ q r, Under slot m' q r →
      m'.gauge r = (0, (MLFQScheduler.new params).allotmentForLevel 0) ∨
      (0 ≤ (m'.heap r).startTime ∧ 0 ≤ m'.level r ∧ m'.level r < params.queueConfigs.length) ∨
      (Under slot m q r ∧ m'.gauge r = m.gauge r ∧
        (r ∈ m'.ready q → r ∈ m.ready q ∧ (m'.heap r).startTime = (m.heap r).startTime))) :
    m'.Leveled params slot := by
  refine ⟨hparams, hplaced, fun q r hr hneg => ?_, fun q r hr => ?_⟩
  · rcases h q r (.inl hr) with hfresh | ⟨hstart, -⟩ | ⟨-, hsame, hready⟩
    · exact hfresh
    · exact absurd hneg (not_lt.2 hstart)
    · obtain ⟨hr', hstart⟩ := hready hr
      rw [hstart] at hneg
      exact hsame.trans (hm.fresh q r hr' hneg)
  · rcases h q r hr with hfresh | ⟨-, hrange⟩ | ⟨hunder, hsame, -⟩
    · have hlevel : m'.level r = 0 := congrArg Prod.fst hfresh
      have := List.length_pos_of_ne_nil params.configs_ne
      rw [hlevel]
      omega
    · exact hrange
    · have hlevel : m'.level r = m.level r := congrArg Prod.fst hsame
      rw [hlevel]
      exact hm.range q r hunder

section Parts

variable [Fintype Q]

/-- Every part leaves the tasks in the queues of their levels. -/
theorem Part.placed (h : Part w cfg slot m m') (hroster : m.Roster w) (hm : m.Placed) :
    m'.Placed := by
  cases h with
  | pop => exact hm
  | enter _ hp => exact placed_enqueue hm (places_eq_zero.1 hp).2.1
  | yield hc => exact placed_yieldCore hm hroster.le_one hc
  | finish hc => exact (placed_charge hm hroster.le_one hc).congr rfl fun _ => level_finish
  | countSwitch => exact hm
  | migrate _ _ hs => exact placed_migrate hm (hroster.le_one _) (schedule_mem _ m.heap _ hs)
  | dispatch => exact placed_dispatch hm

theorem placed_of_parts [NeZero n]
    (h : Parts w cfg slot (init (fun _ => MLFQScheduler.new params) w) m) : m.Placed :=
  (Parts.invariant (I := Placed) (fun _ => MLFQScheduler.readyTasks_new params)
    (fun _ => MLFQScheduler.placed_of_empty (MLFQScheduler.readyTasks_new params))
    (fun _ _ hroster hm hpart => hpart.placed hroster hm) h).2

/-- Charging a task boosts the others or leaves them alone. -/
theorem Leveled.gauge_charge (hm : m.Leveled params slot) (hroster : m.Roster w)
    (hc : m.runningTasks c = some p) (hr : r ≠ p) :
    (m.charge (slot c) c p).gauge r = m.gauge r ∨ (m.charge (slot c) c p).gauge r
      = (0, (MLFQScheduler.new params).allotmentForLevel 0) := by
  rw [Machine.gauge_charge hm.placed (not_ready_of_running (hroster.le_one p) hc _), if_neg hr,
    MLFQScheduler.allotmentForLevel_of_params (hm.sameParams (slot c))]
  split
  · exact .inr rfl
  · exact .inl rfl

/-- **Every part keeps the gauges in order.** -/
theorem Part.leveled (h : Part w cfg slot m m') (hroster : m.Roster w)
    (hm : m.Leveled params slot) : m'.Leveled params slot := by
  have hplaced := h.placed hroster hm.placed
  have hA : ∀ q, (m.schedulers q).allotmentForLevel 0
      = (MLFQScheduler.new params).allotmentForLevel 0 := fun q =>
    MLFQScheduler.allotmentForLevel_of_params (hm.sameParams q)
  have hclamp : ∀ (s : MLFQScheduler) level, s.params = params →
      0 ≤ s.clampLevel level ∧ s.clampLevel level < params.queueConfigs.length :=
    fun s level hs => ⟨s.clampLevel_nonneg level,
      MLFQScheduler.numLevels_of_params hs ▸ s.clampLevel_lt_numLevels level⟩
  have hset : ∀ {schedulers : Q → MLFQScheduler} {q : Q} {s : MLFQScheduler},
      (∀ q, (schedulers q).params = params) → s.params = params →
      ∀ q', (setAt schedulers q s q').params = params := fun h hs =>
    forall_setAt (P := fun s : MLFQScheduler => s.params = params) h hs
  cases h with
  | pop => exact ⟨hm.sameParams, hplaced, hm.fresh, hm.range⟩
  | @enter q p _ hp hneg =>
    refine hm.of_cases (hset hm.sameParams (hm.sameParams q)) hplaced fun q' r hr => ?_
    rcases under_of_enqueue hp hr with ⟨-, rfl⟩ | ⟨hrp, hunder⟩
    · left
      rw [gauge_enqueue, if_pos rfl, if_pos hneg, hA]
    · refine .inr (.inr ⟨hunder, ?_, fun hmem => ⟨?_, startTime_enqueued⟩⟩)
      · rw [gauge_enqueue, if_neg hrp]
      · exact (mem_ready_enqueue.1 hmem).resolve_left fun h => hrp h.2
  | @yield c p hc =>
    have hcharged : ∀ q, ((m.charge (slot c) c p).schedulers q).params = params :=
      sameParams_charge hm.sameParams
    refine hm.of_cases (hset hcharged (hcharged (slot c))) hplaced fun q' r hr => ?_
    have hunder := under_of_yieldCore hc hr
    by_cases hrp : r = p
    · subst hrp
      by_cases hneg : (m.heap r).startTime < 0
      · left
        rw [gauge_yieldCore_self, if_pos hneg, hA]
      · right; left
        have hgauge := gauge_yieldCore_self (m := m) (q := slot c) (c := c) (p := r)
        rw [if_neg hneg] at hgauge
        have hlevel : (m.yieldCore (slot c) c r).level r = _ := congrArg Prod.fst hgauge
        rw [startTime_yielded, hlevel]
        exact ⟨not_lt.1 hneg, hclamp _ _ (hm.sameParams (slot c))⟩
    · rw [gauge_yieldCore_of_ne hrp]
      rcases hm.gauge_charge hroster hc hrp with hsame | hboosted
      · refine .inr (.inr ⟨hunder, hsame, fun hmem => ⟨?_, startTime_yielded⟩⟩)
        exact (mem_ready_yieldCore.1 hmem).resolve_left fun h => hrp h.2
      · exact .inl hboosted
  | @finish c p hc =>
    refine hm.of_cases (sameParams_charge hm.sameParams) hplaced fun q' r hr => ?_
    obtain ⟨hrp, hunder⟩ := under_of_finish (hroster.le_one p) hc hr
    rw [gauge_finish]
    rcases hm.gauge_charge hroster hc hrp with hsame | hboosted
    · refine .inr (.inr ⟨hunder, hsame, fun hmem => ⟨mem_ready_charge.1 hmem, ?_⟩⟩)
      rw [Task.congrLedger Task.startTime ledger_finish, if_neg hrp]
      exact startTime_charged
    · exact .inl hboosted
  | countSwitch => exact ⟨hm.sameParams, hplaced, hm.fresh, hm.range⟩
  | @migrate b c p _ _ hs =>
    have hremoved : ∀ q, ((m.removeReady b p).schedulers q).params = params :=
      hset hm.sameParams (hm.sameParams b)
    have hp := schedule_mem _ m.heap p hs
    refine hm.of_cases (hset hremoved (hremoved (slot c))) hplaced fun q' r hr => ?_
    have hstart : ((m.migrate b (slot c) p).heap r).startTime = (m.heap r).startTime :=
      Task.congrLedger Task.startTime ledger_migrate
    rcases under_of_migrate (hroster.le_one p) hp hr with ⟨-, rfl⟩ | ⟨hrp, hunder⟩
    · have hgauge := gauge_migrate (m := m) (b := b) (q := slot c) (p := r) (r := r)
      rw [if_pos rfl] at hgauge
      by_cases hneg : (m.heap r).startTime < 0
      · left
        rw [hgauge, if_pos hneg, MLFQScheduler.allotmentForLevel_of_params (hremoved (slot c))]
      · right; left
        rw [if_neg hneg] at hgauge
        have hlevel : (m.migrate b (slot c) r).level r = _ := congrArg Prod.fst hgauge
        rw [hstart, hlevel]
        exact ⟨not_lt.1 hneg, hclamp _ _ (hremoved (slot c))⟩
    · refine .inr (.inr ⟨hunder, ?_, fun hmem => ⟨?_, hstart⟩⟩)
      · rw [gauge_migrate, if_neg hrp]
      · have hmem' := (mem_ready_migrate.1 hmem).resolve_left fun h => hrp h.2
        exact (mem_ready_removeReady.1 hmem').1
  | @dispatch c p x hc _ hs =>
    have hp := mem_ready_of_schedule hs
    refine hm.of_cases (hset hm.sameParams (hm.sameParams (slot c))) hplaced fun q' r hr => ?_
    refine .inr (.inr ⟨under_of_dispatch hp hr, gauge_dispatch, fun hmem => ?_⟩)
    rw [ready_dispatch] at hmem
    obtain ⟨hready, hid⟩ := mem_ready_removeReady.1 hmem
    refine ⟨hready, ?_⟩
    have hrp : r ≠ p := by
      rintro rfl
      exact hid (ready_unique (hroster.le_one r) hready hp) rfl
    rw [Task.congrLedger Task.startTime (ledger_dispatch cfg x), if_neg hrp]

theorem leveled_of_parts [NeZero n]
    (h : Parts w cfg slot (init (fun _ => MLFQScheduler.new params) w) m) :
    m.Leveled params slot := by
  have hempty := MLFQScheduler.readyTasks_new params
  have hnone : ∀ q r, ¬ Under slot (init (fun _ => MLFQScheduler.new params) w :
      Machine MLFQScheduler Q n) q r := by
    rintro q r (hr | ⟨c, -, hc⟩)
    · rw [ready, init, hempty] at hr
      cases hr
    · cases hc
  refine (Parts.invariant (I := fun m => m.Leveled params slot) (fun _ => hempty) ?_
    (fun m m' hroster hm hpart => hpart.leveled hroster hm) h).2
  exact ⟨fun _ => rfl, fun _ => MLFQScheduler.placed_of_empty hempty,
    fun q r hr _ => absurd (.inl hr) (hnone q r), fun q r hr => absurd hr (hnone q r)⟩

end Parts

/-! ## `dispatch_next` -/

/-- A task that migrates keeps its gauge. -/
theorem Leveled.gauge_migrate (hm : m.Leveled params slot) (hp : p ∈ m.ready b) :
    (m.migrate b q p).gauge r = m.gauge r := by
  have hown : (Scheduler.removeTask (m.schedulers b) m.heap (m.heap p).id :
      MLFQScheduler).params = params := hm.sameParams b
  have hremoved : ((m.removeReady b p).schedulers q).params = params :=
    forall_setAt (P := fun s : MLFQScheduler => s.params = params) hm.sameParams hown q
  rw [Machine.gauge_migrate]
  split
  next hr =>
    subst hr
    obtain ⟨hlow, hhigh⟩ := hm.range b r (.inl hp)
    split
    next hneg =>
      rw [hm.fresh b r hp hneg, MLFQScheduler.allotmentForLevel_of_params hremoved]
    next =>
      rw [MLFQScheduler.clampLevel_eq_self hlow]
      · rfl
      · rwa [MLFQScheduler.numLevels_of_params hremoved]
  next => rfl

/-- `dispatch_next` changes no gauge. -/
theorem Next.gauge (h : Next cfg slot c m m') (hm : m.Leveled params slot) (r : TaskPtr) :
    m'.gauge r = m.gauge r := by
  cases h with
  | idle => rfl
  | own => exact gauge_dispatch
  | @steal b stolen p x _ _ _ hst =>
    exact gauge_dispatch.trans (hm.gauge_migrate (schedule_mem _ m.heap stolen hst))

end Machine

end SchedSim
