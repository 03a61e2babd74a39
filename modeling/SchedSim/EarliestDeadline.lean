import SchedSim.DispatchCalls
import Mathlib.Data.List.Find

/-!
# EEVDF runs the earliest eligible deadline

What `schedule` looks at are the eligible times and the deadlines of the ready tasks, and it
takes the first best one in the order of the queue.  That this is the policy needs two facts
about runs: the three virtual times of a task stay tied to each other, through the clamp of
`add_task` and through migrations, and the queue is in the order in which the tasks entered it.

* `EEVDFScheduler.Earliest` — the task the policy wants to run.
* `EEVDFScheduler.earliest_of_pick` — the two loops of `schedule` find it.
* `Machine.Tied`, `Part.tied` — eligible times and deadlines follow from the virtual runtimes.
* `Machine.FirstCome`, `Move.firstCome` — tasks enter the queue at its end.
* `earliestDeadline` — every dispatch of either simulator is the one the policy wants.
-/

namespace SchedSim

/-! ## The policy -/

section Lists

variable {α : Type*} [DecidableEq α] {l : List α} {P : α → Bool} {a b : α}

/-- Whatever comes first in a part of a list comes first in the list. -/
theorem idxOf_le_of_filter (hb : P b = true)
    (h : (l.filter P).idxOf a ≤ (l.filter P).idxOf b) : l.idxOf a ≤ l.idxOf b := by
  induction l with
  | nil => exact le_rfl
  | cons c l ih =>
    by_cases hca : c = a
    · rw [hca, List.idxOf_cons_self]
      exact Nat.zero_le _
    by_cases hcb : c = b
    · subst hcb
      rw [List.filter_cons_of_pos hb, List.idxOf_cons_ne _ hca, List.idxOf_cons_self] at h
      exact absurd h (Nat.not_succ_le_zero _)
    rw [List.idxOf_cons_ne _ hca, List.idxOf_cons_ne _ hcb]
    refine Nat.succ_le_succ (ih ?_)
    by_cases hc : P c = true
    · rw [List.filter_cons_of_pos hc, List.idxOf_cons_ne _ hca, List.idxOf_cons_ne _ hcb] at h
      exact Nat.succ_le_succ_iff.1 h
    · rwa [List.filter_cons_of_neg hc] at h

end Lists

/-- The virtual length of the next request of a task. -/
def EEVDFParams.request (params : EEVDFParams) (t : Task) : ℚ :=
  params.baseSlice * nice0Load / t.weight.toNat

/-- The eligible time and the deadline of the task follow from its virtual runtime. -/
def EEVDFParams.Tied (params : EEVDFParams) (t : Task) : Prop :=
  t.eligibleTime = t.vruntime ∧ t.deadline = t.vruntime + params.request t

/-- Tied are the policy fields, and the weight does not change. -/
theorem EEVDFParams.Tied.congr {params : EEVDFParams} {t u : Task} (h : params.Tied t)
    (hpolicy : u.policy = t.policy) (hfixed : u.fixed = t.fixed) : params.Tied u := by
  have hweight : u.weight = t.weight := congrArg Prod.snd hfixed
  rw [Tied, request, Task.congrPolicy Task.eligibleTime hpolicy,
    Task.congrPolicy Task.vruntime hpolicy, Task.congrPolicy Task.deadline hpolicy, hweight]
  exact h

namespace EEVDFScheduler

variable {s : EEVDFScheduler} {h : Heap} {p q : TaskPtr} {x : ℚ}

/-- The task the policy wants to run: among the ready tasks whose eligible time has come the
one with the earliest deadline, and if there is none, the ready task that becomes eligible
first.  The task that stands first in the queue wins a tie. -/
structure Earliest (s : EEVDFScheduler) (h : Heap) (p : TaskPtr) : Prop where
  ready : p ∈ s.readyQueue
  eligible : (∃ q ∈ s.readyQueue, (h q).eligibleTime ≤ s.virtualTime + tolerance) →
    (h p).eligibleTime ≤ s.virtualTime + tolerance ∧
    ∀ q ∈ s.readyQueue, (h q).eligibleTime ≤ s.virtualTime + tolerance →
      (h p).deadline ≤ (h q).deadline ∧
      ((h q).deadline = (h p).deadline → s.readyQueue.idxOf p ≤ s.readyQueue.idxOf q)
  waiting : (∀ q ∈ s.readyQueue, s.virtualTime + tolerance < (h q).eligibleTime) →
    ∀ q ∈ s.readyQueue, (h p).eligibleTime ≤ (h q).eligibleTime ∧
      ((h q).eligibleTime = (h p).eligibleTime → s.readyQueue.idxOf p ≤ s.readyQueue.idxOf q)

theorem isEligible_iff {t : Task} :
    s.isEligible t = true ↔ t.eligibleTime ≤ s.virtualTime + tolerance := decide_eq_true_iff

/-- The two loops of `schedule` find the task the policy wants. -/
theorem earliest_of_pick (hp : s.pick h = some p) : s.Earliest h p := by
  obtain ⟨hmem, hcase⟩ := pick_spec hp
  rw [pick] at hp
  refine ⟨hmem, ?_, ?_⟩
  · rintro ⟨u, hu, hle⟩
    have hue := isEligible_iff.2 hle
    rcases hcase with ⟨hpe, hmin⟩ | ⟨hnone, -⟩
    · refine ⟨isEligible_iff.1 hpe, fun q hq hqle => ?_⟩
      have hqe := isEligible_iff.2 hqle
      refine ⟨hmin q hq hqe, fun hd => ?_⟩
      split at hp
      next best hbest =>
        obtain rfl := Option.some.inj hp
        refine idxOf_le_of_filter (P := fun p => s.isEligible (h p)) hqe ?_
        exact List.index_of_argmin hbest (List.mem_filter.2 ⟨hq, hqe⟩) hd.le
      next hempty =>
        have hnil := List.argmin_eq_none.1 hempty
        exact absurd hqe (by simpa using List.filter_eq_nil_iff.1 hnil q hq)
    · rw [hnone u hu] at hue
      cases hue
  · intro hlate q hq
    have hnot : ∀ u ∈ s.readyQueue, s.isEligible (h u) ≠ true := fun u hu hue =>
      absurd (isEligible_iff.1 hue) (not_le.2 (hlate u hu))
    rcases hcase with ⟨hpe, -⟩ | ⟨-, hmin⟩
    · exact absurd hpe (hnot p hmem)
    · refine ⟨hmin q hq, fun heq => ?_⟩
      split at hp
      next best hbest =>
        have hmem := List.mem_filter.1 (List.argmin_mem hbest)
        exact absurd hmem.2 (hnot best hmem.1)
      next => exact List.index_of_argmin hp hq heq.le

/-- A task that is alone in the queue is the one the policy wants. -/
theorem Earliest.unique (hp : s.Earliest h p) (hq : s.readyQueue = [q]) : p = q := by
  have := hp.ready
  rwa [hq, List.mem_singleton] at this

/-! ## The virtual times of a task -/

/-- The virtual time at which `add_task` lets a task in. -/
def entryTime (s : EEVDFScheduler) (t : Task) : ℚ :=
  if t.startTime < 0 then s.virtualTime else max t.vruntime s.virtualTime

theorem vruntime_addTask (s : EEVDFScheduler) (h : Heap) (p : TaskPtr) :
    ((SchedSim.addTask s h p).2 p).vruntime = s.entryTime (h p) := by
  show ((s.addTask h p).2 p).vruntime = _
  simp only [addTask, Heap.modify_self, entryTime]

/-- Letting a task in ties its virtual times. -/
theorem tied_addTask (heq : (h p).eligibleTime = (h p).vruntime) :
    s.params.Tied ((SchedSim.addTask s h p).2 p) := by
  show s.params.Tied ((s.addTask h p).2 p)
  simp only [addTask, Heap.modify_self, heq]
  exact ⟨rfl, rfl⟩

theorem vruntime_onCpuUsed (s : EEVDFScheduler) (h : Heap) (p : TaskPtr) (x : ℚ) :
    ((SchedSim.onCpuUsed s h p x).2 p).vruntime
      = (h p).vruntime + x * nice0Load / (h p).weight.toNat := by
  show ((s.onCpuUsed h p x).2 p).vruntime = _
  simp only [onCpuUsed, Heap.modify_self]

/-- Charging a task ties its virtual times. -/
theorem tied_onCpuUsed : s.params.Tied ((SchedSim.onCpuUsed s h p x).2 p) := by
  show s.params.Tied ((s.onCpuUsed h p x).2 p)
  simp only [onCpuUsed, Heap.modify_self]
  exact ⟨rfl, rfl⟩

end EEVDFScheduler

instance : SingleRecord EEVDFScheduler where
  addTask_of_ne s h p q hq := by
    change (EEVDFScheduler.addTask s h p).2 q = h q
    rw [EEVDFScheduler.addTask]
    simp only [Heap.modify_of_ne hq]
  onCpuUsed_of_ne s h p x q hq := by
    change (EEVDFScheduler.onCpuUsed s h p x).2 q = h q
    rw [EEVDFScheduler.onCpuUsed]
    simp only [Heap.modify_of_ne hq]

namespace Machine

variable {Q : Type} [DecidableEq Q] {n : ℕ} {m m' : Machine EEVDFScheduler Q n} {e : Event n}
  {q q' b : Q} {c : Fin n} {p r : TaskPtr} {cfg : SimConfig} {slot : Fin n → Q} {x : ℚ}
  {params : EEVDFParams} {w : Workload}

omit [DecidableEq Q] in
/-- The virtual times of the tasks of all schedulers are tied. -/
structure Tied (params : EEVDFParams) (slot : Fin n → Q) (m : Machine EEVDFScheduler Q n) :
    Prop where
  sameParams : ∀ q, (m.schedulers q).params = params
  eligible : ∀ r, (m.heap r).eligibleTime = (m.heap r).vruntime
  under : ∀ q r, Under slot m q r → params.Tied (m.heap r)

omit [DecidableEq Q] in
/-- Nothing changes but the record of one task, and that is tied afterwards. -/
theorem Tied.update (hm : m.Tied params slot) (hparams : ∀ q, (m'.schedulers q).params = params)
    (hother : ∀ r, r ≠ p → m'.heap r = m.heap r) (hself : params.Tied (m'.heap p))
    (hunder : ∀ q r, r ≠ p → Under slot m' q r → Under slot m q r) : m'.Tied params slot := by
  refine ⟨hparams, fun r => ?_, fun q r hr => ?_⟩
  · by_cases hrp : r = p
    · rw [hrp]
      exact hself.1
    · rw [hother r hrp]
      exact hm.eligible r
  · by_cases hrp : r = p
    · rw [hrp]
      exact hself
    · rw [hother r hrp]
      exact hm.under q r (hunder q r hrp hr)

/-- A task that is charged and put back has its virtual times tied again. -/
theorem tied_yieldCore (hm : ∀ q, (m.schedulers q).params = params) :
    params.Tied ((m.yieldCore q c p).heap p) := by
  have hparams : ((m.charge q c p).schedulers q).params = params :=
    grants_charge (EEVDFScheduler.grantsAtLeast params) hm q
  have hcharged := EEVDFScheduler.tied_onCpuUsed (s := m.schedulers q)
    (h := m.heap.modify p (·.execute (m.elapsed c))) (p := p) (x := m.elapsed c)
  have hadded := EEVDFScheduler.tied_addTask (s := (m.charge q c p).schedulers q)
    (h := ((m.charge q c p).heap.modify p Task.incrementPreemptions).modify p
      (·.markReady m.currentTime)) (p := p)
    (by rw [Heap.modify_self, Heap.modify_self]; exact hcharged.1)
  rwa [hparams] at hadded

/-- **No part unties the virtual times.** -/
theorem Part.tied [Fintype Q] (h : Part w cfg slot m m') (hroster : m.Roster w)
    (hm : m.Tied params slot) : m'.Tied params slot := by
  have hgrants := EEVDFScheduler.grantsAtLeast params
  cases h with
  | pop => exact ⟨hm.sameParams, hm.eligible, hm.under⟩
  | @enter q p _ hp =>
    refine hm.update (p := p) (grants_enqueue hgrants hm.sameParams)
      (fun r hr => record_enqueue_of_ne hr) ?_ fun q' r hr hu =>
        ((under_of_enqueue hp hu).resolve_left fun h => hr h.2).2
    have hadded := EEVDFScheduler.tied_addTask (s := m.schedulers q)
      (h := m.heap.modify p (·.markReady m.currentTime)) (p := p)
      (by rw [Heap.modify_self]; exact hm.eligible p)
    rwa [hm.sameParams] at hadded
  | @yield c p hc =>
    exact hm.update (p := p) (grants_yieldCore hgrants hm.sameParams)
      (fun r hr => record_yieldCore_of_ne hr) (tied_yieldCore hm.sameParams) fun q' r _ hu =>
        under_of_yieldCore hc hu
  | @finish c p hc =>
    refine hm.update (p := p) (grants_charge hgrants hm.sameParams) (fun r hr => ?_) ?_
      fun q' r _ hu =>
      (under_of_finish (hroster.le_one p) hc hu).2
    · exact (Heap.modify_of_ne hr (m.charge (slot c) c p).heap
        (·.complete m.currentTime)).trans (record_charge_of_ne hr)
    · have hcharged := EEVDFScheduler.tied_onCpuUsed (s := m.schedulers (slot c))
        (h := m.heap.modify p (·.execute (m.elapsed c))) (p := p) (x := m.elapsed c)
      rw [hm.sameParams] at hcharged
      have hself : ((m.charge (slot c) c p).finish c p).heap p
          = ((m.charge (slot c) c p).heap p).complete m.currentTime :=
        Heap.modify_self (m.charge (slot c) c p).heap p (·.complete m.currentTime)
      rw [hself]
      exact hcharged
  | countSwitch => exact ⟨hm.sameParams, hm.eligible, hm.under⟩
  | @migrate b c p hb _ hs =>
    refine hm.update (p := p) (grants_migrate hgrants hm.sameParams)
      (fun r hr => record_migrate_of_ne hr) ?_ fun q' r hr hu =>
        ((under_of_migrate (hroster.le_one p) (schedule_mem _ m.heap p hs) hu).resolve_left
          fun h => hr h.2).2
    have hadded := EEVDFScheduler.tied_addTask (s := (m.removeReady b p).schedulers (slot c))
      (h := (m.removeReady b p).heap) (p := p) (hm.eligible p)
    rwa [grants_removeReady hgrants hm.sameParams (slot c)] at hadded
  | @dispatch c p x hc _ hs =>
    have hp := mem_ready_of_schedule hs
    have hpolicy : ∀ r, ((m.dispatch cfg (slot c) c p x).heap r).policy = (m.heap r).policy :=
      fun r => policy_dispatched
    refine ⟨grants_removeReady hgrants hm.sameParams, fun r => ?_, fun q' r hu => ?_⟩
    · rw [Task.congrPolicy Task.eligibleTime (hpolicy r),
        Task.congrPolicy Task.vruntime (hpolicy r), hm.eligible]
    · exact (hm.under q' r (under_of_dispatch hp hu)).congr (hpolicy r) fixed_dispatch

theorem tied_of_parts [Fintype Q] [NeZero n]
    (h : Parts w cfg slot (init (fun _ => EEVDFScheduler.new params) w) m) :
    m.Tied params slot := by
  refine (Parts.invariant (I := fun m => m.Tied params slot) (fun _ => rfl) ?_ ?_ h).2
  · refine ⟨fun _ => rfl, fun _ => rfl, fun q r hr => ?_⟩
    rcases hr with hr | ⟨c, -, hc⟩
    · cases hr
    · cases hc
  · exact fun m m' hroster hm hpart => hpart.tied hroster hm

/-! ## The order of the queue -/

omit [DecidableEq Q] in
/-- Tasks enter a queue at its end, and those that stay in it keep their order. -/
def FirstCome (m m' : Machine EEVDFScheduler Q n) : Prop :=
  ∀ q, ∃ entered, (m'.ready q).Sublist (m.ready q ++ entered) ∧ ∀ r ∈ entered, r ∉ m.ready q

theorem ready_enqueue_append :
    (m.enqueue q p).ready q' = m.ready q' ++ if q' = q then [p] else [] := by
  rw [enqueue, ready_setAt]
  split
  next h =>
    subst h
    rfl
  next => rw [List.append_nil]

theorem ready_charge_eq : (m.charge q c p).ready q' = m.ready q' := by
  rw [charge, ready]
  simp only [setAt_apply]
  split
  next h =>
    subst h
    rfl
  next => rfl

theorem ready_yieldCore_append :
    (m.yieldCore q c p).ready q' = m.ready q' ++ if q' = q then [p] else [] := by
  have h : (m.yieldCore q c p).ready q'
      = (m.charge q c p).ready q' ++ if q' = q then [p] else [] := ready_enqueue_append
  rw [h, ready_charge_eq]

theorem ready_migrate_append : (m.migrate b q p).ready q'
    = (m.removeReady b p).ready q' ++ if q' = q then [p] else [] := by
  rw [migrate, ready_setAt]
  split
  next h =>
    subst h
    rfl
  next => rw [List.append_nil]

theorem ready_removeReady_sublist : ((m.removeReady q p).ready q').Sublist (m.ready q') := by
  rw [ready_removeReady]
  split
  next h =>
    subst h
    exact List.filter_sublist
  next => exact List.Sublist.refl _

/-- `dispatch_next` only takes tasks away; a task that is stolen does not stay in the queue. -/
theorem Next.ready_sublist (h : Next cfg slot c m m') (q : Q) :
    (m'.ready q).Sublist (m.ready q) := by
  cases h with
  | idle => exact List.Sublist.refl _
  | own => exact ready_removeReady_sublist
  | @steal b stolen p x hb hempty _ _ hs =>
    have hp := mem_ready_of_schedule hs
    rw [ready_dispatch, ready_removeReady]
    have hown : (m.migrate b (slot c) stolen).ready (slot c) = [stolen] := by
      rw [ready_migrate_append, ready_removeReady, if_neg (Ne.symm hb), hempty, if_pos rfl,
        List.nil_append]
    split
    next hq =>
      rw [hown] at hp ⊢
      obtain rfl := List.mem_singleton.1 hp
      simp
    next hq =>
      rw [ready_migrate_append, if_neg hq, List.append_nil]
      exact ready_removeReady_sublist

theorem FirstCome.next {m₁ : Machine EEVDFScheduler Q n} (h : FirstCome m m₁)
    (hn : Next cfg slot c m₁ m') : FirstCome m m' := by
  intro q
  obtain ⟨entered, hsub, hnew⟩ := h q
  exact ⟨entered, (hn.ready_sublist q).trans hsub, hnew⟩

omit [DecidableEq Q] in
/-- Tasks that were not ready may enter one of the queues. -/
theorem FirstCome.append [DecidableEq Q] (q : Q) (entered : List TaskPtr)
    (h : ∀ q', m'.ready q' = m.ready q' ++ if q' = q then entered else [])
    (hnew : ∀ r ∈ entered, r ∉ m.ready q) : FirstCome m m' := by
  intro q'
  refine ⟨_, by rw [h q'], fun r hr => ?_⟩
  split at hr
  next hq =>
    subst hq
    exact hnew r hr
  next => cases hr

section Turns

variable [Fintype Q] {m₁ : Machine EEVDFScheduler Q n}

omit [DecidableEq Q] in
/-- A task whose arrival is pending is not ready. -/
theorem Roster.not_ready_of_arrival (hm : m.Roster w) (he : e ∈ m.events)
    (harr : e.type = .arrival) (q : Q) : e.task ∉ m.ready q :=
  (places_eq_zero.1 (places_pop_arrival he harr hm.le_one)).2.1 q

theorem firstCome_arrived (hm : m.Roster w) (he : e ∈ m.events) (harr : e.type = .arrival) :
    FirstCome m ((m.pop e).enqueue q e.task) := by
  refine FirstCome.append q [e.task] (fun q' => ready_enqueue_append) ?_
  intro r hr
  rw [List.mem_singleton.1 hr]
  exact hm.not_ready_of_arrival he harr q

theorem Calls.firstCome (h : Calls slot m e c m₁) (hm : m.Roster w) (he : e ∈ m.events) :
    FirstCome m m₁ := by
  cases h with
  | woken harr => exact firstCome_arrived hm he harr
  | @preempted p harr hc =>
    refine FirstCome.append (slot c) [e.task, p] (fun q' => ?_) ?_
    · rw [ready_countSwitch, ready_yieldCore_append, ready_enqueue_append, ready_pop]
      split <;> simp
    · intro r hr
      rcases List.mem_cons.1 hr with rfl | hr
      · exact hm.not_ready_of_arrival he harr _
      · rw [List.mem_singleton.1 hr]
        exact not_ready_of_running (hm.le_one p) hc _
  | expired hts hc =>
    rw [settle_eq]
    split
    · refine FirstCome.append (slot c) [] (fun q' => ?_) (by simp)
      rw [ready_finish, ready_charge_eq, ready_pop, ite_self, List.append_nil]
    · refine FirstCome.append (slot c) [e.task]
        (fun q' => ready_yieldCore_append) fun r hr => ?_
      rw [List.mem_singleton.1 hr]
      exact not_ready_of_running (hm.le_one _) hc _

/-- **Handling an event keeps the queues in the order of entry.** -/
theorem Move.firstCome (h : Move cfg slot m e m') (hm : m.Roster w) (he : e ∈ m.events) :
    FirstCome m m' := by
  cases h with
  | skip => exact FirstCome.append (slot e.coreId) [] (by simp) (by simp)
  | queued harr => exact firstCome_arrived hm he harr
  | woken harr hc hn => exact (Calls.firstCome (.woken harr hc) hm he).next hn
  | preempted harr hc _ _ hn => exact (Calls.firstCome (.preempted harr hc) hm he).next hn
  | expired hts hc hn => exact (Calls.firstCome (.expired hts hc) hm he).next hn

end Turns

/-! ## What a dispatch chooses -/

section Choice

variable {m₁ : Machine EEVDFScheduler Q n}

omit [DecidableEq Q] in
theorem earliest_of_schedule (h : (schedule (m.schedulers q) m.heap).task = some p) :
    (m.schedulers q).Earliest m.heap p :=
  EEVDFScheduler.earliest_of_pick ((EEVDFScheduler.schedule_task _ m.heap).symm.trans h)

/-- While tasks are waiting for the core, the one the policy wants gets it. -/
theorem Next.earliest (hn : Next cfg slot c m₁ m') (hne : m₁.ready (slot c) ≠ []) :
    ∃ p, m'.runningTasks c = some p ∧ (m₁.schedulers (slot c)).Earliest m₁.heap p := by
  cases hn with
  | idle hempty => exact absurd hempty hne
  | @own p x hs =>
    refine ⟨p, ?_, earliest_of_schedule (by rw [hs])⟩
    rw [dispatch_runningTasks, setAt_self]
  | steal _ hempty => exact absurd hempty hne

/-- Otherwise it gets the one the policy wants at another scheduler, if any. -/
theorem Next.earliest_stolen (hn : Next cfg slot c m₁ m') (hempty : m₁.ready (slot c) = [])
    (hrun : m'.runningTasks c = some p) :
    ∃ b, b ≠ slot c ∧ (m₁.schedulers b).Earliest m₁.heap p ∧
      ((m₁.migrate b (slot c) p).schedulers (slot c)).Earliest
        (m₁.migrate b (slot c) p).heap p := by
  cases hn with
  | idle =>
    rw [clearCore_runningTasks, setAt_self] at hrun
    cases hrun
  | own hs =>
    have hp := mem_ready_of_schedule hs
    rw [hempty] at hp
    cases hp
  | @steal b stolen u x hb _ _ hst hs =>
    rw [dispatch_runningTasks, setAt_self] at hrun
    obtain rfl := Option.some.inj hrun
    have hchoice := earliest_of_schedule (q := slot c) (m := m₁.migrate b (slot c) stolen)
      (p := u) (by rw [hs])
    have halone : (m₁.migrate b (slot c) stolen).ready (slot c) = [stolen] := by
      rw [ready_migrate_append, ready_removeReady, if_neg (Ne.symm hb), hempty, if_pos rfl,
        List.nil_append]
    obtain rfl : u = stolen := hchoice.unique halone
    exact ⟨b, hb, earliest_of_schedule hst, hchoice⟩

end Choice

end Machine

/-! ## The two simulators -/

/-- **EEVDF dispatches the earliest eligible deadline**, in every run of either simulator: when
`dispatch_next` is called for a core and tasks are waiting for it, the one the policy wants gets
the core, and a task that is stolen is the one the policy wants where it waited.  The deadline
of the task on the core follows from its virtual runtime.  The queues are in the order in which
the tasks entered them, so that ties go to the one that entered first. -/
theorem earliestDeadline {n : ℕ} [NeZero n] (params : EEVDFParams) (w : Workload) :
    (∀ (cfg : SimConfig) (s : Simulator EEVDFScheduler n),
      Lts.Reachable (Simulator.Step cfg) (Simulator.init (EEVDFScheduler.new params) w) s →
      ∀ e s', Simulator.Step cfg s e s' → s.FirstCome s' ∧
        ∀ c s₁, s.dispatchCall e = some (c, s₁) → s₁.ready () ≠ [] →
          s.FirstCome s₁ ∧
          ∃ p, s'.runningTasks c = some p ∧ (s₁.schedulers ()).Earliest s₁.heap p ∧
            (s'.heap p).deadline = (s'.heap p).vruntime
              + params.baseSlice * 1024 / (s'.heap p).weight.toNat) ∧
    (∀ (balancer : LoadBalancer) (cfg : MultiConfig) (s : MultiCoreSimulator EEVDFScheduler n),
      Lts.Reachable (MultiCoreSimulator.Step cfg)
        (MultiCoreSimulator.init (EEVDFScheduler.new params) balancer w) s →
      ∀ e s', MultiCoreSimulator.Step cfg s e s' → s.FirstCome s'.toMachine ∧
        ∀ c s₁, s.dispatchCall e = some (c, s₁) →
          s.FirstCome s₁.toMachine ∧
          (s₁.ready c ≠ [] → ∃ p, s'.runningTasks c = some p ∧
            (s₁.schedulers c).Earliest s₁.heap p) ∧
          (s₁.ready c = [] → ∀ p, s'.runningTasks c = some p →
            ∃ b, b ≠ c ∧ (s₁.schedulers b).Earliest s₁.heap p ∧
              ((s₁.migrate b c p).schedulers c).Earliest (s₁.migrate b c p).heap p) ∧
          ∀ p, s'.runningTasks c = some p → (s'.heap p).deadline = (s'.heap p).vruntime
            + params.baseSlice * 1024 / (s'.heap p).weight.toNat) := by
  constructor
  · intro cfg s hs e s' hstep
    have hmachine := hs.simulate (f := id) fun _ _ _ => Simulator.step_machine
    have hmachine' := (hs.tail hstep).simulate (f := id) fun _ _ _ => Simulator.step_machine
    have hroster := Machine.roster_of_reachable (fun _ => rfl) hmachine
    have htied := Machine.tied_of_parts (Machine.parts_of_reachable (fun _ => rfl) hmachine')
    refine ⟨(Simulator.step_machine hstep).2.2.firstCome hroster hstep.1.1, ?_⟩
    intro c s₁ hcall hne
    have hnext : Machine.Next cfg Simulator.slot c s₁ (Simulator.dispatchNext cfg s₁ c) :=
      Simulator.next_dispatchNext s₁ c
    rw [← Simulator.handle_of_dispatchCall hcall, ← hstep.2.2] at hnext
    obtain ⟨p, hrun, hchoice⟩ := hnext.earliest hne
    exact ⟨(Simulator.calls_of_dispatchCall hcall).firstCome hroster hstep.1.1, p, hrun, hchoice,
      (htied.under () p (.inr ⟨c, rfl, hrun⟩)).2⟩
  · intro balancer cfg s hs e s' hstep
    have hmachine := hs.simulate (f := MultiCoreSimulator.toMachine) fun _ _ _ =>
      MultiCoreSimulator.step_machine
    have hmachine' := (hs.tail hstep).simulate (f := MultiCoreSimulator.toMachine) fun _ _ _ =>
      MultiCoreSimulator.step_machine
    have hroster := Machine.roster_of_reachable (fun _ => rfl) hmachine
    have htied := Machine.tied_of_parts (Machine.parts_of_reachable (fun _ => rfl) hmachine')
    refine ⟨(MultiCoreSimulator.step_machine hstep).2.2.firstCome hroster hstep.1.1, ?_⟩
    intro c s₁ hcall
    have hnext : Machine.Next cfg.toSimConfig MultiCoreSimulator.slot c s₁.toMachine
        (MultiCoreSimulator.dispatchNext cfg s₁ c).toMachine :=
      MultiCoreSimulator.next_dispatchNext rfl
    rw [← MultiCoreSimulator.handle_of_dispatchCall hcall, ← hstep.2.2] at hnext
    refine ⟨(MultiCoreSimulator.calls_of_dispatchCall hcall).firstCome hroster hstep.1.1,
      fun hne => hnext.earliest hne, fun hempty p hrun => hnext.earliest_stolen hempty hrun,
      fun p hrun => (htied.under c p (.inr ⟨c, rfl, hrun⟩)).2⟩

/-- A task of higher priority arrives while another one runs: both are ready then, and the new
one has the earlier deadline. -/
theorem earliestDeadline_pair :
    let cfg : SimConfig := { stopTime := 50 }
    let s : Simulator EEVDFScheduler 1 :=
      Simulator.turns cfg 1 (Simulator.init (EEVDFScheduler.new {}) .pair)
    let e : Event 1 := ⟨.arrival, 1, 1, 0⟩
    let s₁ := Simulator.preemptCore (s.receive e) 0
    s₁.ready () = [1, 0] ∧
      ∃ p, (Simulator.handle cfg s e).runningTasks 0 = some p ∧
        (s₁.schedulers ()).Earliest s₁.heap p ∧
        ((Simulator.handle cfg s e).heap p).deadline = ((Simulator.handle cfg s e).heap p).vruntime
          + ({} : EEVDFParams).baseSlice * 1024
            / ((Simulator.handle cfg s e).heap p).weight.toNat := by
  intro cfg s e s₁
  have hready : s₁.ready () = [1, 0] := by decide +kernel
  have hbusy : ((List.finRange 1).find? fun c => (s.runningTasks c).isNone) = none := by
    decide +kernel
  have hfind : (List.finRange 1).find? (s.shouldTake e) = some 0 := by decide +kernel
  have hcall : s.dispatchCall e = some (0, s₁) := by
    simp only [Simulator.dispatchCall, e, hbusy]
    exact congrArg (Option.map fun c => (c, Simulator.preemptCore (s.receive e) c)) hfind
  have hstep : Simulator.Step cfg s e (Simulator.handle cfg s e) :=
    ⟨by decide +kernel, by decide +kernel, rfl⟩
  have h := ((earliestDeadline {} .pair).1 cfg s (Simulator.reachable_turns cfg 1 _) e _ hstep).2
    0 s₁ hcall (by rw [hready]; simp)
  exact ⟨hready, h.2⟩

end SchedSim
