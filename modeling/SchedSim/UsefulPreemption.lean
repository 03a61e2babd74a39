import SchedSim.Accounting
import SchedSim.Completion
import SchedSim.EarliestDeadline
import SchedSim.FeedbackRuns

/-!
# A preemption is never wasted

`should_preempt` compares the new task with the one on the core.  Then the one on the core is
charged, which changes its virtual times or its level and may boost the others, and it competes
for the core again.  It must not win.

* `Machine.Preempts` — an arrival takes a core, up to the task that gets it.
* `Machine.Timely`, `Part.timely` — no pending event is due before a dispatch that is still
  current, so that no charge is negative.
* `Preempts.eevdf` — under EEVDF the deadline of the preempted task only gets later.
* `Preempts.mlfq` — under MLFQ the new task stands in the top queue before the other is back.
* `preemption_notWasted` — in both simulators another task gets the core.
-/

namespace SchedSim

/-- What has a negative start time after a dispatch had one before. -/
theorem Task.startTime_neg_of_start {t : Task} {now : ℚ}
    (h : ((t.markDispatched now).start now).startTime < 0) : t.startTime < 0 := by
  have hmark : (t.markDispatched now).startTime = t.startTime := by
    rw [markDispatched]
    split <;> rfl
  rw [start] at h
  split at h
  next hneg => rwa [hmark] at hneg
  next => rwa [hmark] at h

namespace Machine

variable {σ Q : Type} [Scheduler σ] [DecidableEq Q] {n : ℕ} {m m' : Machine σ Q n} {e : Event n}
  {q q' b : Q} {c : Fin n} {p r : TaskPtr} {cfg : SimConfig} {slot : Fin n → Q} {x : ℚ}
  {w : Workload}

/-! ## Preempting a core -/

/-- The new task takes the core from the task `p`. -/
structure Preempts (cfg : SimConfig) (slot : Fin n → Q) (m : Machine σ Q n) (e : Event n)
    (c : Fin n) (p : TaskPtr) (m' : Machine σ Q n) : Prop where
  arrival : e.type = .arrival
  running : m.runningTasks c = some p
  should : shouldPreempt (((m.pop e).enqueue (slot c) e.task).schedulers (slot c))
    ((m.pop e).enqueue (slot c) e.task).heap e.task (some p) = true
  next : Next cfg slot c
    ((((m.pop e).enqueue (slot c) e.task).yieldCore (slot c) c p).countSwitch) m'

variable [LawfulScheduler σ]

/-- What is on the core afterwards is what the scheduler chooses, and it chooses something. -/
theorem Preempts.runs_other (h : Preempts cfg slot m e c p m')
    (hnot : (schedule ((((m.pop e).enqueue (slot c) e.task).yieldCore (slot c) c p).schedulers
      (slot c)) ((((m.pop e).enqueue (slot c) e.task).yieldCore (slot c) c p)).heap).task
        ≠ some p) : ∃ r, r ≠ p ∧ m'.runningTasks c = some r := by
  have hback : p ∈ (((m.pop e).enqueue (slot c) e.task).yieldCore (slot c) c p).countSwitch.ready
      (slot c) := mem_ready_yieldCore.2 (.inl ⟨rfl, rfl⟩)
  generalize hm₂ : ((m.pop e).enqueue (slot c) e.task).yieldCore (slot c) c p = m₂ at *
  have hnext := h.next
  rw [hm₂] at hnext
  cases hnext with
  | idle hempty =>
    rw [hempty] at hback
    cases hback
  | @own u x hs =>
    refine ⟨u, ?_, ?_⟩
    · rintro rfl
      refine hnot ?_
      have hs' : schedule (m₂.schedulers (slot c)) m₂.heap = ⟨some u, x⟩ := hs
      rw [hs']
    · rw [dispatch_runningTasks, setAt_self]
  | steal _ hempty =>
    rw [hempty] at hback
    cases hback

/-! ## Time does not go back under a task -/

/-- Nothing is left to do in the negative, and no pending event is due before a dispatch that
is still current. -/
structure Timely (w : Workload) (m : Machine σ Q n) : Prop where
  remaining : ∀ r ∈ w.added, 0 ≤ (m.heap r).remainingTime
  past : ∀ c p, m.runningTasks c = some p → m.lastEventTime c ≤ m.currentTime
  pending : ∀ c p, m.runningTasks c = some p → ∀ e ∈ m.events, m.lastEventTime c ≤ e.time

theorem remainingTime_charge_nonneg (h : 0 ≤ (m.heap r).remainingTime) :
    0 ≤ ((m.charge q c p).heap r).remainingTime := by
  rw [remainingTime_charge, Task.execute]
  split
  · dsimp only
    split
    next => exact le_rfl
    next hnonneg => exact not_lt.1 hnonneg
  · exact h

omit [Scheduler σ] [DecidableEq Q] [LawfulScheduler σ] in
theorem remainingTime_finish :
    ((m.finish c p).heap r).remainingTime = (m.heap r).remainingTime := by
  rw [Task.congrLedger Task.remainingTime ledger_finish]
  split <;> rfl

omit [LawfulScheduler σ] in
theorem remainingTime_dispatch :
    ((m.dispatch cfg q c p x).heap r).remainingTime = (m.heap r).remainingTime := by
  rw [Task.congrLedger Task.remainingTime (ledger_dispatch cfg x)]
  split
  · rw [Task.remainingTime_start, Task.remainingTime_markDispatched]
  · rfl

omit [Scheduler σ] [DecidableEq Q] [LawfulScheduler σ] in
/-- A core that is cleared has no dispatch that is still current. -/
theorem Timely.release (h : m.Timely w) (hremaining : ∀ r ∈ w.added, 0 ≤ (m'.heap r).remainingTime)
    (hrun : m'.runningTasks = setAt m.runningTasks c none)
    (hlast : m'.lastEventTime = m.lastEventTime) (hnow : m'.currentTime = m.currentTime)
    (hev : m'.events = m.events) : m'.Timely w := by
  have hstill : ∀ d u, m'.runningTasks d = some u → m.runningTasks d = some u := by
    intro d u hd
    rw [hrun, setAt_apply] at hd
    split at hd
    next => cases hd
    next => exact hd
  refine ⟨hremaining, fun d u hd => ?_, fun d u hd => ?_⟩
  · rw [hlast, hnow]
    exact h.past d u (hstill d u hd)
  · rw [hlast, hev]
    exact h.pending d u (hstill d u hd)

/-- **Every part keeps the clock in order.** -/
theorem Part.timely [Fintype Q] (h : Part w cfg slot m m') (hroster : m.Roster w)
    (hm : m.Timely w) : m'.Timely w := by
  cases h with
  | pop he =>
    refine ⟨hm.remaining, fun c p hc => hm.pending c p hc _ he.1, fun c p hc e' he' => ?_⟩
    exact hm.pending c p hc e' (List.mem_of_mem_erase he')
  | enter =>
    refine ⟨fun r hr => ?_, hm.past, hm.pending⟩
    rw [remainingTime_enqueue]
    exact hm.remaining r hr
  | yield =>
    refine hm.release (fun r hr => ?_) rfl rfl rfl rfl
    rw [remainingTime_yieldCore]
    exact remainingTime_charge_nonneg (hm.remaining r hr)
  | finish =>
    refine hm.release (fun r hr => ?_) rfl rfl rfl rfl
    rw [remainingTime_finish]
    exact remainingTime_charge_nonneg (hm.remaining r hr)
  | countSwitch => exact ⟨hm.remaining, hm.past, hm.pending⟩
  | migrate =>
    refine ⟨fun r hr => ?_, hm.past, hm.pending⟩
    rw [Task.congrLedger Task.remainingTime ledger_migrate]
    exact hm.remaining r hr
  | @dispatch c p x hc hclock hs =>
    have hunder : Under slot m (slot c) p := .inl (mem_ready_of_schedule hs)
    have hadded := hroster.mem_of_under hunder
    have hgrant := grant_nonneg cfg x (hm.remaining p hadded)
    -- what runs was there before, or has just been dispatched
    have hpast : ∀ d u, (m.dispatch cfg (slot c) c p x).runningTasks d = some u →
        (m.dispatch cfg (slot c) c p x).lastEventTime d ≤ m.currentTime ∧
        ∀ e ∈ m.events, (m.dispatch cfg (slot c) c p x).lastEventTime d ≤ e.time := by
      intro d u hd
      rw [dispatch_runningTasks, setAt_apply] at hd
      rw [dispatch_lastEventTime, setAt_apply]
      split at hd
      next hdc =>
        rw [if_pos hdc]
        exact ⟨le_rfl, hclock⟩
      next hdc =>
        rw [if_neg hdc]
        exact ⟨hm.past d u hd, hm.pending d u hd⟩
    refine ⟨fun r hr => ?_, fun d u hd => (hpast d u hd).1, fun d u hd e he => ?_⟩
    · rw [remainingTime_dispatch]
      exact hm.remaining r hr
    · obtain ⟨hnow, hevents⟩ := hpast d u hd
      rcases List.mem_append.1 he with he | he
      · exact hevents e he
      · rw [List.mem_singleton.1 he]
        show _ ≤ m.currentTime + grant cfg x (m.heap p).remainingTime
        linarith

theorem timely_of_parts [Fintype Q] [NeZero n] {schedulers : Q → σ}
    (hempty : ∀ q, readyTasks (schedulers q) = [])
    (hexec : ∀ p ∈ w.added, 0 ≤ (w.args p).executionTime)
    (h : Parts w cfg slot (init schedulers w) m) : m.Timely w := by
  refine (Parts.invariant (I := fun m => m.Timely w) hempty ⟨hexec, ?_, ?_⟩ ?_ h).2
  · rintro c p ⟨⟩
  · rintro c p ⟨⟩
  · exact fun m m' hroster hm hpart => hpart.timely hroster hm

end Machine

/-! ## EEVDF -/

section EEVDF

namespace Machine

open EEVDFScheduler (entryTime)

variable {Q : Type} [DecidableEq Q] {n : ℕ} {m m' : Machine EEVDFScheduler Q n} {e : Event n}
  {q q' b : Q} {c : Fin n} {p r : TaskPtr} {cfg : SimConfig} {slot : Fin n → Q} {x : ℚ}
  {w : Workload} {params : EEVDFParams}

/-- The virtual time of a scheduler. -/
abbrev virtualTime (m : Machine EEVDFScheduler Q n) (q : Q) : ℚ := (m.schedulers q).virtualTime

theorem virtualTime_enqueue : (m.enqueue q p).virtualTime q' = m.virtualTime q' := by
  rw [virtualTime, enqueue]
  simp only [setAt_apply]
  split
  next h =>
    subst h
    rfl
  next => rfl

theorem virtualTime_removeReady : (m.removeReady q p).virtualTime q' = m.virtualTime q' := by
  rw [virtualTime, removeReady]
  simp only [setAt_apply]
  split
  next h =>
    subst h
    rfl
  next => rfl

theorem virtualTime_migrate : (m.migrate b q p).virtualTime q' = m.virtualTime q' := by
  rw [← virtualTime_removeReady (m := m) (q := b) (p := p), virtualTime, migrate]
  simp only [setAt_apply]
  split
  next h =>
    subst h
    rfl
  next => rfl

theorem virtualTime_dispatch : (m.dispatch cfg q c p x).virtualTime q' = m.virtualTime q' :=
  virtualTime_removeReady

/-- Virtual time does not go back when time does not. -/
theorem le_virtualTime_charge (hx : 0 ≤ m.elapsed c) :
    m.virtualTime q' ≤ (m.charge q c p).virtualTime q' := by
  have hadvance : ∀ (s : EEVDFScheduler) (h : Heap),
      s.virtualTime ≤ (s.onCpuUsed h p (m.elapsed c)).1.virtualTime := by
    intro s h
    simp only [EEVDFScheduler.onCpuUsed, EEVDFScheduler.advanceVirtualTime]
    refine le_add_of_nonneg_right (div_nonneg (mul_nonneg hx (by norm_num [nice0Load])) ?_)
    split
    next => norm_num [nice0Load]
    next hlt => linarith [not_lt.1 hlt]
  show m.virtualTime q' ≤ (setAt m.schedulers q (onCpuUsed (m.schedulers q)
    (m.heap.modify p (·.execute (m.elapsed c))) p (m.elapsed c)).1 q').virtualTime
  rw [setAt_apply]
  split
  next h =>
    subst h
    exact hadvance _ _
  next => exact le_rfl

theorem virtualTime_yieldCore :
    (m.yieldCore q c p).virtualTime q' = (m.charge q c p).virtualTime q' :=
  virtualTime_enqueue (m := { (m.charge q c p).clearCore c with
    heap := (m.charge q c p).heap.modify p Task.incrementPreemptions
    preemptions := (m.charge q c p).preemptions + 1 })

/-- The virtual runtime with which a charged task comes back. -/
theorem vruntime_yieldCore_self : ((m.yieldCore q c p).heap p).vruntime
    = if (m.heap p).startTime < 0 then (m.charge q c p).virtualTime q
      else max ((m.heap p).vruntime + m.elapsed c * nice0Load / (m.heap p).weight.toNat)
        ((m.charge q c p).virtualTime q) := by
  have hcharged : ((m.charge q c p).heap p).vruntime
      = (m.heap p).vruntime + m.elapsed c * nice0Load / (m.heap p).weight.toNat := by
    have h := EEVDFScheduler.vruntime_onCpuUsed (m.schedulers q)
      (m.heap.modify p (·.execute (m.elapsed c))) p (m.elapsed c)
    rw [Heap.modify_self] at h
    exact h
  have hback := EEVDFScheduler.vruntime_addTask ((m.charge q c p).schedulers q)
    (((m.charge q c p).heap.modify p Task.incrementPreemptions).modify p
      (·.markReady m.currentTime)) p
  rw [Heap.modify_self, Heap.modify_self] at hback
  refine hback.trans ?_
  show (if ((m.charge q c p).heap p).startTime < 0 then _
    else max ((m.charge q c p).heap p).vruntime _) = _
  rw [startTime_charged, hcharged]

/-- A task that has not been started, or was started at a negative time, is not ahead of the
virtual time of its scheduler. -/
def NotAhead (slot : Fin n → Q) (m : Machine EEVDFScheduler Q n) : Prop :=
  ∀ q r, Under slot m q r → (m.heap r).startTime < 0 → (m.heap r).vruntime ≤ m.virtualTime q

/-- No part puts such a task ahead. -/
theorem Part.notAhead [Fintype Q] (h : Part w cfg slot m m') (hroster : m.Roster w)
    (htimely : m.Timely w) (hm : NotAhead slot m) : NotAhead slot m' := by
  have helapsed : ∀ {c p}, m.runningTasks c = some p → 0 ≤ m.elapsed c := fun {c p} hc =>
    sub_nonneg.2 (htimely.past c p hc)
  cases h with
  | pop => exact hm
  | @enter q p _ hp =>
    intro q' r hr hneg
    rw [virtualTime_enqueue]
    rw [startTime_enqueued] at hneg
    rcases under_of_enqueue hp hr with ⟨rfl, rfl⟩ | ⟨hrp, hr⟩
    · have hentry := EEVDFScheduler.vruntime_addTask (m.schedulers q')
        (m.heap.modify r (·.markReady m.currentTime)) r
      rw [Heap.modify_self, entryTime] at hentry
      exact (hentry.trans (if_pos hneg)).le
    · rw [record_enqueue_of_ne hrp]
      exact hm q' r hr hneg
  | @yield c p hc =>
    intro q' r hr hneg
    rw [startTime_yielded] at hneg
    have hunder := under_of_yieldCore hc hr
    rw [virtualTime_yieldCore]
    by_cases hrp : r = p
    · subst hrp
      rw [hunder.slot_eq (hroster.le_one r) hc, vruntime_yieldCore_self, if_pos hneg]
    · rw [record_yieldCore_of_ne hrp]
      exact (hm q' r hunder hneg).trans (le_virtualTime_charge (helapsed hc))
  | @finish c p hc =>
    intro q' r hr hneg
    obtain ⟨hrp, hunder⟩ := under_of_finish (hroster.le_one p) hc hr
    have hrecord : ((m.charge (slot c) c p).finish c p).heap r = m.heap r :=
      (Heap.modify_of_ne hrp (m.charge (slot c) c p).heap
        (·.complete m.currentTime)).trans (record_charge_of_ne hrp)
    rw [hrecord] at hneg ⊢
    exact (hm q' r hunder hneg).trans (le_virtualTime_charge (helapsed hc))
  | countSwitch => exact hm
  | @migrate b c p _ _ hs =>
    intro q' r hr hneg
    rw [virtualTime_migrate]
    rw [Task.congrLedger Task.startTime ledger_migrate] at hneg
    rcases under_of_migrate (hroster.le_one p) (schedule_mem _ m.heap p hs) hr with
      ⟨rfl, rfl⟩ | ⟨hrp, hr⟩
    · have hentry := EEVDFScheduler.vruntime_addTask ((m.removeReady b r).schedulers (slot c))
        m.heap r
      rw [entryTime, if_pos hneg] at hentry
      exact (hentry.trans virtualTime_removeReady).le
    · rw [record_migrate_of_ne hrp]
      exact hm q' r hr hneg
  | @dispatch c p x _ _ hs =>
    intro q' r hr hneg
    rw [virtualTime_dispatch, Task.congrPolicy Task.vruntime policy_dispatched]
    refine hm q' r (under_of_dispatch (mem_ready_of_schedule hs) hr) ?_
    rw [Task.congrLedger Task.startTime (ledger_dispatch cfg x)] at hneg
    split at hneg
    next => exact Task.startTime_neg_of_start hneg
    next => exact hneg

theorem notAhead_of_parts [Fintype Q] [NeZero n]
    (hexec : ∀ p ∈ w.added, 0 ≤ (w.args p).executionTime)
    (h : Parts w cfg slot (init (fun _ => EEVDFScheduler.new params) w) m) : NotAhead slot m := by
  have hinit : NotAhead slot (init (fun _ => EEVDFScheduler.new params) w : Machine _ Q n) := by
    rintro q r (hr | ⟨c, -, hc⟩)
    · cases hr
    · cases hc
  have hnil : Parts w cfg slot (init (fun _ => EEVDFScheduler.new params) w)
      (init (fun _ => EEVDFScheduler.new params) w : Machine _ Q n) := .refl
  have htimely := timely_of_parts (fun _ => rfl) hexec hnil
  refine (Parts.invariant (I := fun m => m.Timely w ∧ NotAhead slot m) (fun _ => rfl)
    ⟨htimely, hinit⟩ ?_ h).2.2
  exact fun m m' hroster hm hpart =>
    ⟨hpart.timely hroster hm.1, hpart.notAhead hroster hm.1 hm.2⟩

section Preempted

variable [Fintype Q] {a : TaskPtr} (hm : m.Tied params slot) (hroster : m.Roster w)
  (htimely : m.Timely w) (hahead : NotAhead slot m) (hc : m.runningTasks c = some p)

include hm hroster htimely hahead hc

omit [Fintype Q] hroster in
/-- The deadline of a task that is taken off its core only gets later. -/
theorem deadline_le_yieldCore :
    (m.heap p).deadline ≤ ((m.yieldCore (slot c) c p).heap p).deadline := by
  have hx : 0 ≤ m.elapsed c := sub_nonneg.2 (htimely.past c p hc)
  have hunder : Under slot m (slot c) p := .inr ⟨c, rfl, hc⟩
  have htied : params.Tied ((m.yieldCore (slot c) c p).heap p) := tied_yieldCore hm.sameParams
  have hweight : ((m.yieldCore (slot c) c p).heap p).weight = (m.heap p).weight :=
    congrArg Prod.snd fixed_yieldCore
  have hvruntime : (m.heap p).vruntime ≤ ((m.yieldCore (slot c) c p).heap p).vruntime := by
    rw [vruntime_yieldCore_self]
    split
    next hneg => exact (hahead _ p hunder hneg).trans (le_virtualTime_charge hx)
    next =>
      refine le_max_of_le_left (le_add_of_nonneg_right (div_nonneg (mul_nonneg hx ?_) ?_))
      · norm_num [nice0Load]
      · exact Nat.cast_nonneg _
  rw [(hm.under _ p hunder).2, htied.2, EEVDFParams.request, EEVDFParams.request, hweight]
  linarith

/-- A task for which `should_preempt` has decided is ahead of the one that gives way. -/
theorem schedule_yieldCore_ne (ha : a ∈ m.ready (slot c))
    (hshould : shouldPreempt (m.schedulers (slot c)) m.heap a (some p) = true) :
    (schedule ((m.yieldCore (slot c) c p).schedulers (slot c))
      (m.yieldCore (slot c) c p).heap).task ≠ some p := by
  have hx : 0 ≤ m.elapsed c := sub_nonneg.2 (htimely.past c p hc)
  have hap : a ≠ p := by
    rintro rfl
    exact not_ready_of_running (hroster.le_one a) hc _ ha
  obtain ⟨heligible, hearlier⟩ :
      (m.heap a).eligibleTime ≤ m.virtualTime (slot c) + EEVDFScheduler.tolerance ∧
        (m.heap a).deadline < (m.heap p).deadline := by
    have h : ((m.schedulers (slot c)).isEligible (m.heap a) &&
        ((m.heap a).deadline < (m.heap p).deadline : Bool)) = true := hshould
    rw [Bool.and_eq_true, decide_eq_true_iff] at h
    exact ⟨EEVDFScheduler.isEligible_iff.1 h.1, h.2⟩
  intro hs
  have hchoice := earliest_of_schedule hs
  -- the new task is still eligible, and its deadline has not changed
  have hrecord : (m.yieldCore (slot c) c p).heap a = m.heap a := record_yieldCore_of_ne hap
  have hready : a ∈ (m.yieldCore (slot c) c p).ready (slot c) :=
    mem_ready_yieldCore.2 (.inr ha)
  have hstill : ((m.yieldCore (slot c) c p).heap a).eligibleTime
      ≤ (m.yieldCore (slot c) c p).virtualTime (slot c) + EEVDFScheduler.tolerance := by
    rw [hrecord, virtualTime_yieldCore]
    have hvirtual : m.virtualTime (slot c) ≤ (m.charge (slot c) c p).virtualTime (slot c) :=
      le_virtualTime_charge hx
    linarith
  have hle := ((hchoice.eligible ⟨a, hready, hstill⟩).2 a hready hstill).1
  rw [hrecord] at hle
  have := deadline_le_yieldCore hm htimely hahead hc
  linarith

end Preempted

/-- **Under EEVDF another task gets the core.** -/
theorem Preempts.eevdf [Fintype Q] [NeZero n]
    (hexec : ∀ p ∈ w.added, 0 ≤ (w.args p).executionTime)
    (hr : Lts.Reachable (Step cfg slot) (init (fun _ => EEVDFScheduler.new params) w) m)
    (he : m.events.IsNext e) (h : Preempts cfg slot m e c p m') :
    ∃ r, r ≠ p ∧ m'.runningTasks c = some r := by
  have hparts : Parts w cfg slot (init (fun _ => EEVDFScheduler.new params) w)
      ((m.pop e).enqueue (slot c) e.task) :=
    parts_arrived_of_reachable (fun _ => rfl) hr he h.arrival
  have hready : e.task ∈ ((m.pop e).enqueue (slot c) e.task).ready (slot c) :=
    mem_ready_enqueue.2 (.inl ⟨rfl, rfl⟩)
  exact h.runs_other (schedule_yieldCore_ne (tied_of_parts hparts)
    (roster_of_parts (fun _ => rfl) hparts) (timely_of_parts (fun _ => rfl) hexec hparts)
    (notAhead_of_parts hexec hparts) h.running hready h.should)

end Machine

end EEVDF

/-! ## MLFQ -/

section MLFQ

namespace MLFQScheduler

variable {s : MLFQScheduler} {h h' : Heap} {a p : TaskPtr}

/-- While a task stands in the top queue, one that comes back is not the next to run. -/
theorem schedule_addTask_ne (ha : a ∈ s.queues.getD 0 []) (hp : p ∉ readyTasks s) :
    (SchedSim.schedule (SchedSim.addTask s h p).1 h').task ≠ some p := by
  obtain ⟨h'', -, heq⟩ := exists_enqueue s h p
  rw [heq]
  intro hs
  have hhead : (s.queues.modify (s.clampLevel (level h'' p)).toNat (· ++ [p])).flatten.head?
      = some p := (schedule_task (s.enqueue h'' p).1 h').symm.trans hs
  refine hp ?_
  show p ∈ s.queues.flatten
  cases hq : s.queues with
  | nil =>
    rw [hq] at ha
    cases ha
  | cons first rest =>
    rw [hq] at ha hhead
    cases hf : first with
    | nil =>
      rw [hf] at ha
      cases ha
    | cons u us =>
      rw [hf] at hhead
      have hup : u = p := by
        cases hk : (s.clampLevel (level h'' p)).toNat with
        | zero => simpa [hk] using hhead
        | succ k => simpa [hk] using hhead
      simp [hup]

end MLFQScheduler

namespace Machine

variable {Q : Type} [DecidableEq Q] {n : ℕ} {m m' : Machine MLFQScheduler Q n} {e : Event n}
  {q b : Q} {c : Fin n} {p r : TaskPtr} {cfg : SimConfig} {slot : Fin n → Q} {x : ℚ}
  {w : Workload} {params : MLFQParams}

/-- **Under MLFQ another task gets the core.** -/
theorem Preempts.mlfq [Fintype Q] [NeZero n]
    (hr : Lts.Reachable (Step cfg slot) (init (fun _ => MLFQScheduler.new params) w) m)
    (he : m.events.IsNext e) (h : Preempts cfg slot m e c p m') :
    ∃ r, r ≠ p ∧ m'.runningTasks c = some r := by
  have hempty := MLFQScheduler.readyTasks_new params
  have hfresh : (m.heap e.task).startTime < 0 := unstarted_of_reachable (fun _ => hempty) hr _
    (EventQueue.mem_arrivals.2 ⟨e, he.1, h.arrival, rfl⟩)
  have hparts : Parts w cfg slot (init (fun _ => MLFQScheduler.new params) w)
      ((m.pop e).enqueue (slot c) e.task) :=
    parts_arrived_of_reachable (fun _ => hempty) hr he h.arrival
  have hroster := roster_of_parts (fun _ => hempty) hparts
  have hplaced := placed_of_parts hparts
  have hc : ((m.pop e).enqueue (slot c) e.task).runningTasks c = some p := h.running
  have hready : e.task ∈ ((m.pop e).enqueue (slot c) e.task).ready (slot c) :=
    mem_ready_enqueue.2 (.inl ⟨rfl, rfl⟩)
  have htop : ((m.pop e).enqueue (slot c) e.task).level e.task = 0 := by
    refine (MLFQScheduler.level_addTask_self _ _ _).trans (if_pos ?_)
    rw [Heap.modify_self]
    exact hfresh
  refine h.runs_other ?_
  generalize (m.pop e).enqueue (slot c) e.task = m₁ at *
  have hp : p ∉ m₁.ready (slot c) := not_ready_of_running (hroster.le_one p) hc _
  -- the new task is at the top when the other one is charged, and stays there
  have hne : e.task ≠ p := by
    rintro rfl
    exact hp hready
  have hlevel : (m₁.charge (slot c) c p).level e.task = 0 := by
    rw [level_charge hplaced hp, if_neg hne]
    split
    · rfl
    · exact htop
  obtain ⟨k, hk⟩ := MLFQScheduler.mem_readyTasks.1
    (mem_ready_charge.2 hready : e.task ∈ (m₁.charge (slot c) c p).ready (slot c))
  have hk0 : k = 0 := by
    have := placed_charge (q := slot c) hplaced hroster.le_one hc (slot c) k e.task hk
    have hz : (k : ℤ) = 0 := this.symm.trans hlevel
    exact_mod_cast hz
  subst hk0
  have hsched : (m₁.yieldCore (slot c) c p).schedulers (slot c)
      = (addTask ((m₁.charge (slot c) c p).schedulers (slot c))
        (((m₁.charge (slot c) c p).heap.modify p Task.incrementPreemptions).modify p
          (·.markReady m₁.currentTime)) p).1 := setAt_self _ _ _
  rw [hsched]
  exact MLFQScheduler.schedule_addTask_ne hk fun hmem => hp (mem_ready_charge.1 hmem)

end Machine

end MLFQ

/-! ## The two simulators -/

/-- The preemption of a victim. -/
theorem Simulator.preempts_of_victim {σ : Type} [Scheduler σ] [LawfulScheduler σ] {n : ℕ}
    {cfg : SimConfig} {s s' : Simulator σ n} {e : Event n} {c : Fin n} {p : TaskPtr}
    (h : Simulator.Step cfg s e s') (hv : s.victim e = some c) (hc : s.runningTasks c = some p) :
    Machine.Preempts cfg Simulator.slot s e c p s' := by
  rw [victim] at hv
  split at hv
  next hbusy =>
    have hshould : s.shouldTake e c = true := List.find?_some hv
    rw [shouldTake, hc] at hshould
    refine ⟨hbusy.1, hc, hshould, ?_⟩
    cases Simulator.turn_of_step h with
    | skip hna => exact absurd hbusy.1 hna
    | queued _ _ hno =>
      have hyes := List.find?_some hv
      rw [hno c] at hyes
      cases hyes
    | @woken d _ _ hidle => exact absurd hidle (hbusy.2 d)
    | preempted _ _ hrun hfind hn =>
      obtain rfl := Option.some.inj (hfind.symm.trans hv)
      obtain rfl := Option.some.inj (hrun.symm.trans hc)
      exact hn
    | expired hts => exact absurd (hts.symm.trans hbusy.1) (by decide)
  next => cases hv

theorem MultiCoreSimulator.preempts_of_victim {σ : Type} [Scheduler σ] [LawfulScheduler σ] {n : ℕ}
    [NeZero n] {cfg : MultiConfig} {s s' : MultiCoreSimulator σ n} {e : Event n} {c : Fin n}
    {p : TaskPtr} (h : MultiCoreSimulator.Step cfg s e s') (hv : s.victim e = some c)
    (hc : s.runningTasks c = some p) :
    Machine.Preempts cfg.toSimConfig MultiCoreSimulator.slot s.toMachine e c p s'.toMachine := by
  rw [victim] at hv
  split at hv
  next hbusy =>
    obtain ⟨harr, hne, hshould⟩ := hbusy
    obtain rfl := Option.some.inj hv
    rw [hc] at hshould
    refine ⟨harr, hc, hshould, ?_⟩
    cases MultiCoreSimulator.turn_of_step h with
    | skip hna => exact absurd harr hna
    | queued _ hrun hno =>
      obtain rfl := Option.some.inj (hrun.symm.trans hc)
      rw [hshould] at hno
      cases hno
    | woken _ hidle => exact absurd hidle hne
    | preempted _ hrun _ hres =>
      obtain rfl := Option.some.inj (hrun.symm.trans hc)
      exact hres.next
    | expired hts => exact absurd (hts.symm.trans harr) (by decide)
  next => cases hv

/-- **A preemption is never wasted**, in any run of either simulator under EEVDF, on tasks whose
execution times are not negative, or under MLFQ: when an arrival preempts the task of a core,
the core runs another task afterwards. -/
theorem preemption_notWasted {n : ℕ} [NeZero n] (w : Workload) :
    (∀ params : EEVDFParams, (∀ p ∈ w.added, 0 ≤ (w.args p).executionTime) →
      (∀ (cfg : SimConfig) (s : Simulator EEVDFScheduler n),
        Lts.Reachable (Simulator.Step cfg) (Simulator.init (EEVDFScheduler.new params) w) s →
        ∀ e s' c p, Simulator.Step cfg s e s' → s.victim e = some c →
          s.runningTasks c = some p → ∃ r, r ≠ p ∧ s'.runningTasks c = some r) ∧
      (∀ (balancer : LoadBalancer) (cfg : MultiConfig) (s : MultiCoreSimulator EEVDFScheduler n),
        Lts.Reachable (MultiCoreSimulator.Step cfg)
          (MultiCoreSimulator.init (EEVDFScheduler.new params) balancer w) s →
        ∀ e s' c p, MultiCoreSimulator.Step cfg s e s' → s.victim e = some c →
          s.runningTasks c = some p → ∃ r, r ≠ p ∧ s'.runningTasks c = some r)) ∧
    (∀ params : MLFQParams,
      (∀ (cfg : SimConfig) (s : Simulator MLFQScheduler n),
        Lts.Reachable (Simulator.Step cfg) (Simulator.init (MLFQScheduler.new params) w) s →
        ∀ e s' c p, Simulator.Step cfg s e s' → s.victim e = some c →
          s.runningTasks c = some p → ∃ r, r ≠ p ∧ s'.runningTasks c = some r) ∧
      (∀ (balancer : LoadBalancer) (cfg : MultiConfig) (s : MultiCoreSimulator MLFQScheduler n),
        Lts.Reachable (MultiCoreSimulator.Step cfg)
          (MultiCoreSimulator.init (MLFQScheduler.new params) balancer w) s →
        ∀ e s' c p, MultiCoreSimulator.Step cfg s e s' → s.victim e = some c →
          s.runningTasks c = some p → ∃ r, r ≠ p ∧ s'.runningTasks c = some r)) := by
  refine ⟨fun params hexec => ⟨?_, ?_⟩, fun params => ⟨?_, ?_⟩⟩
  · intro cfg s hs e s' c p hstep hv hc
    have hmachine := hs.simulate (f := id) fun _ _ _ => Simulator.step_machine
    exact (Simulator.preempts_of_victim hstep hv hc).eevdf hexec hmachine hstep.1
  · intro balancer cfg s hs e s' c p hstep hv hc
    have hmachine := hs.simulate (f := MultiCoreSimulator.toMachine) fun _ _ _ =>
      MultiCoreSimulator.step_machine
    exact (MultiCoreSimulator.preempts_of_victim hstep hv hc).eevdf hexec hmachine hstep.1
  · intro cfg s hs e s' c p hstep hv hc
    have hmachine := hs.simulate (f := id) fun _ _ _ => Simulator.step_machine
    exact (Simulator.preempts_of_victim hstep hv hc).mlfq hmachine hstep.1
  · intro balancer cfg s hs e s' c p hstep hv hc
    have hmachine := hs.simulate (f := MultiCoreSimulator.toMachine) fun _ _ _ =>
      MultiCoreSimulator.step_machine
    exact (MultiCoreSimulator.preempts_of_victim hstep hv hc).mlfq hmachine hstep.1

/-- Under EEVDF the second task of the workload preempts the first. -/
theorem preemption_notWasted_pair :
    let cfg : SimConfig := { stopTime := 50 }
    let s : Simulator EEVDFScheduler 1 :=
      Simulator.turns cfg 1 (Simulator.init (EEVDFScheduler.new {}) .pair)
    s.runningTasks 0 = some 0 ∧
      ∃ r, r ≠ 0 ∧ (Simulator.handle cfg s ⟨.arrival, 1, 1, 0⟩).runningTasks 0 = some r := by
  intro cfg s
  have hrun : s.runningTasks 0 = some 0 := by decide +kernel
  exact ⟨hrun, ((preemption_notWasted .pair).1 {} (by decide)).1 cfg s
    (Simulator.reachable_turns cfg 1 _) ⟨.arrival, 1, 1, 0⟩ _ 0 0
    ⟨by decide +kernel, by decide +kernel, rfl⟩ (by decide +kernel) hrun⟩

end SchedSim
