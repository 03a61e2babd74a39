import SchedSim.Accounting

/-!
# Properties of single tasks

Many invariants are about one task at a time and do not look at what the scheduling
policies write.  Such a property holds in every run as soon as the timing methods keep it,
and this is shown once here.

* `Task.Rule` — what the timing methods have to keep: one property of all tasks, and one
  of the tasks that are on a core.
* `Machine.Obeys` — every task has the first property, every running task the second.
* `Move.obeys`, `obeys_of_reachable` — every step and every run keep it.
-/

namespace SchedSim

/-- The timing methods keep the property `P` of tasks and the property `R` of running tasks,
and the policies cannot touch them. -/
structure Task.Rule (P R : Task → Prop) : Prop where
  congr : ∀ t u : Task, u.ledger = t.ledger → P t → P u
  congrRuns : ∀ t u : Task, u.ledger = t.ledger → R t → R u
  markReady : ∀ (t : Task) (now : ℚ), P t → P (t.markReady now)
  execute : ∀ (t : Task) (x : ℚ), P t → R t → 0 ≤ x → x ≤ t.remainingTime → P (t.execute x)
  incrementPreemptions : ∀ t : Task, P t → P t.incrementPreemptions
  complete : ∀ (t : Task) (now : ℚ), P t → P (t.complete now)
  dispatch : ∀ (t : Task) (now : ℚ), 0 ≤ now → t.Waits now → P t →
    P ((t.markDispatched now).start now) ∧ R ((t.markDispatched now).start now)

namespace Machine

variable {σ Q : Type} [Scheduler σ] [DecidableEq Q] [LawfulScheduler σ] {n : ℕ}
  {m m' : Machine σ Q n} {e : Event n} {q b : Q} {c : Fin n} {p r : TaskPtr} {cfg : SimConfig}
  {slot : Fin n → Q} {x : ℚ} {P R : Task → Prop}

omit [Scheduler σ] [DecidableEq Q] [LawfulScheduler σ] in
/-- Every task has the property `P`, and the running ones have the property `R`. -/
structure Obeys (P R : Task → Prop) (m : Machine σ Q n) : Prop where
  all : ∀ r, P (m.heap r)
  running : ∀ c r, m.runningTasks c = some r → R (m.heap r)

/-! ## The blocks -/

/-- A task that is on no core may become ready. -/
theorem obeys_enqueue (rule : Task.Rule P R) (h : m.Obeys P R)
    (hp : ∀ c, m.runningTasks c ≠ some p) : (m.enqueue q p).Obeys P R := by
  refine ⟨fun r => ?_, fun c r hc => ?_⟩
  · refine rule.congr _ _ ledger_enqueue ?_
    split
    · exact rule.markReady _ _ (h.all r)
    · exact h.all r
  · have hr : r ≠ p := by
      rintro rfl
      exact hp c hc
    have hl := ledger_enqueue (m := m) (q := q) (p := p) (r := r)
    rw [if_neg hr] at hl
    exact rule.congrRuns _ _ hl (h.running c r hc)

theorem obeys_charge (rule : Task.Rule P R) (h : m.Obeys P R) (hc : m.runningTasks c = some p)
    (hx : 0 ≤ m.elapsed c) (hle : m.elapsed c ≤ (m.heap p).remainingTime) (r : TaskPtr) :
    P ((m.charge q c p).heap r) := by
  refine rule.congr _ _ ledger_charge ?_
  split
  next hr =>
    subst hr
    exact rule.execute _ _ (h.all r) (h.running c r hc) hx hle
  next => exact h.all r

omit [DecidableEq Q] [LawfulScheduler σ] in
/-- A task that stands in one place runs on one core: once it is taken off, it is on none. -/
theorem running_of_release [Fintype Q] (hc : m.runningTasks c = some p) (hone : m.places p ≤ 1)
    {d : Fin n} (hd : setAt m.runningTasks c none d = some r) :
    r ≠ p ∧ m.runningTasks d = some r := by
  have hdc : d ≠ c := by
    rintro rfl
    rw [setAt_self] at hd
    cases hd
  rw [setAt_of_ne _ _ _ hdc] at hd
  refine ⟨?_, hd⟩
  rintro rfl
  exact hdc (core_unique hone hd hc)

theorem obeys_yieldCore [Fintype Q] (rule : Task.Rule P R) (h : m.Obeys P R)
    (hc : m.runningTasks c = some p) (hone : m.places p ≤ 1) (hx : 0 ≤ m.elapsed c)
    (hle : m.elapsed c ≤ (m.heap p).remainingTime) : (m.yieldCore q c p).Obeys P R := by
  have hcharge := obeys_charge (q := q) rule h hc hx hle
  refine ⟨fun r => ?_, fun d r hd => ?_⟩
  · refine rule.congr _ _ ledger_requeue ?_
    split
    · exact rule.markReady _ _ (rule.incrementPreemptions _ (hcharge r))
    · exact hcharge r
  · obtain ⟨hr, hrun⟩ := running_of_release hc hone hd
    have hl := ledger_requeue (m := m.charge q c p) (q := q) (c := c) (p := p) (r := r)
    have hl' := ledger_charge (m := m) (q := q) (c := c) (p := p) (r := r)
    rw [if_neg hr] at hl hl'
    exact rule.congrRuns _ _ (hl.trans hl') (h.running d r hrun)

theorem obeys_settle [Fintype Q] (rule : Task.Rule P R) (h : m.Obeys P R)
    (hc : m.runningTasks c = some p) (hone : m.places p ≤ 1) (hx : 0 ≤ m.elapsed c)
    (hle : m.elapsed c ≤ (m.heap p).remainingTime) : (m.settle q c p).Obeys P R := by
  rw [settle_eq]
  split
  · have hcharge := obeys_charge (q := q) rule h hc hx hle
    refine ⟨fun r => ?_, fun d r hd => ?_⟩
    · refine rule.congr _ _ ledger_finish ?_
      split
      · exact rule.complete _ _ (hcharge r)
      · exact hcharge r
    · obtain ⟨hr, hrun⟩ := running_of_release hc hone hd
      have hl := ledger_finish (m := m.charge q c p) (c := c) (p := p) (r := r)
      have hl' := ledger_charge (m := m) (q := q) (c := c) (p := p) (r := r)
      rw [if_neg hr] at hl hl'
      exact rule.congrRuns _ _ (hl.trans hl') (h.running d r hrun)
  · exact obeys_yieldCore rule h hc hone hx hle

omit [LawfulScheduler σ] in
theorem obeys_dispatch (rule : Task.Rule P R) (h : m.Obeys P R) (hnow : 0 ≤ m.currentTime)
    (hw : (m.heap p).Waits m.currentTime) : (m.dispatch cfg q c p x).Obeys P R := by
  have hstart := rule.dispatch _ _ hnow hw (h.all p)
  refine ⟨fun r => ?_, fun d r hd => ?_⟩
  · refine rule.congr _ _ (ledger_dispatch cfg x) ?_
    split
    next hr =>
      subst hr
      exact hstart.1
    next => exact h.all r
  · refine rule.congrRuns _ _ (ledger_dispatch cfg x) ?_
    split
    next hr =>
      subst hr
      exact hstart.2
    next hr =>
      have hdc : d ≠ c := by
        rintro rfl
        rw [dispatch_runningTasks, setAt_self, Option.some.injEq] at hd
        exact hr hd.symm
      rw [dispatch_runningTasks, setAt_of_ne _ _ _ hdc] at hd
      exact h.running d r hd

theorem obeys_migrate (rule : Task.Rule P R) (h : m.Obeys P R) : (m.migrate b q p).Obeys P R :=
  ⟨fun r => rule.congr _ _ ledger_migrate (h.all r),
    fun c r hc => rule.congrRuns _ _ ledger_migrate (h.running c r hc)⟩

/-! ## One step -/

theorem Next.obeys (rule : Task.Rule P R) (hn : Next cfg slot c m m') (h : m.Obeys P R)
    (hc : m.runningTasks c = none) (hnow : 0 ≤ m.currentTime) (hm : m.Books) : m'.Obeys P R := by
  cases hn with
  | idle => rwa [clearCore_eq_self m c hc]
  | own hs => exact obeys_dispatch rule h hnow ((hm.booked _).waiting _ (mem_ready_of_schedule hs))
  | @steal b stolen p x _ _ _ hst hs =>
    have hstolen : stolen ∈ m.ready b := schedule_mem _ m.heap stolen hst
    have hw : ((m.migrate b (slot c) stolen).heap p).Waits m.currentTime :=
      (booked_migrate (hm.booked p) hstolen).waiting _ (mem_ready_of_schedule hs)
    exact obeys_dispatch rule (obeys_migrate rule h) hnow hw

/-- Every step keeps a property that the timing methods keep. -/
theorem Move.obeys [Fintype Q] (rule : Task.Rule P R) (hmove : Move cfg slot m e m')
    (he : m.events.IsNext e) (hone : ∀ p, m.places p ≤ 1) (hslice : m.SlicePending)
    (hm : m.Books) (hnow : 0 ≤ e.time) (h : m.Obeys P R) : m'.Obeys P R := by
  have hpop : (m.pop e).Obeys P R := ⟨h.all, h.running⟩
  have harrive : e.type = .arrival → ∀ q, ((m.pop e).enqueue q e.task).Obeys P R := by
    intro harr q
    have hzero := places_pop_arrival he.1 harr hone
    exact obeys_enqueue rule hpop (places_eq_zero.1 hzero).2.2.1
  cases hmove with
  | skip => exact hpop
  | queued harr => exact harrive harr _
  | woken harr hidle hn =>
    exact hn.obeys rule (harrive harr _) hidle hnow (books_arrived he hone hm harr)
  | @preempted c p _ harr hc hbusy _ hn =>
    have hrun : ((m.pop e).enqueue (slot c) e.task).runningTasks c = some p := hc
    have hpast : 0 ≤ ((m.pop e).enqueue (slot c) e.task).elapsed c :=
      sub_nonneg.2 (((hm.booked p).running c hc).past.trans (hm.clock e he.1))
    have hle : ((m.pop e).enqueue (slot c) e.task).elapsed c
        ≤ (((m.pop e).enqueue (slot c) e.task).heap p).remainingTime := by
      have hle := charged_le_remaining he hm hslice hc
      rw [Task.congrLedger Task.remainingTime ledger_enqueue]
      split <;> exact hle
    have hyield := obeys_yieldCore (q := slot c) rule (harrive harr (slot c)) hrun
      (places_arrived_le he hone harr p) hpast hle
    refine hn.obeys rule ⟨hyield.all, hyield.running⟩ ?_ hnow
      (books_preempted he hone hm harr hslice hc)
    rw [countSwitch_runningTasks, yieldCore_runningTasks, setAt_self]
  | expired hts hc hn =>
    have hpast : 0 ≤ (m.pop e).elapsed e.coreId :=
      sub_nonneg.2 (((hm.booked e.task).running e.coreId hc).past.trans (hm.clock e he.1))
    have hle : e.time - m.lastEventTime e.coreId ≤ (m.heap e.task).remainingTime :=
      charged_le_remaining he hm hslice hc
    have hsettle := obeys_settle (q := slot e.coreId) rule hpop hc (places_pop_le he.1 hone _) hpast
      hle
    refine hn.obeys rule hsettle ?_ ?_ (books_expired he hone hm hslice hc)
    · rw [settle_runningTasks, setAt_self]
    · rwa [settle_currentTime]

/-! ## Runs -/

section Runs

variable [Fintype Q] [NeZero n] {schedulers : Q → σ} {w : Workload}

/-- The clock starts at zero and never goes back. -/
theorem currentTime_nonneg (hempty : ∀ q, readyTasks (schedulers q) = []) (hvalid : w.Valid)
    (h : Lts.Reachable (Step cfg slot) (init schedulers w) m) : 0 ≤ m.currentTime := by
  refine h.induction (I := fun m : Machine σ Q n => 0 ≤ m.currentTime) le_rfl ?_
  intro s e t hs ih hstep
  rw [hstep.2.2.currentTime]
  exact ih.trans ((books_of_reachable hempty hvalid hs).clock e hstep.1.1)

theorem obeys_of_reachable (rule : Task.Rule P R) (hempty : ∀ q, readyTasks (schedulers q) = [])
    (hvalid : w.Valid) (hinit : ∀ p, P (w.heap p))
    (h : Lts.Reachable (Step cfg slot) (init schedulers w) m) : m.Obeys P R := by
  refine h.induction (I := Obeys P R) ⟨hinit, ?_⟩ ?_
  · rintro c r ⟨⟩
  · intro s e t hs ih hstep
    have hone : ∀ p, s.places p ≤ 1 := fun p =>
      (places_le_count hempty hs p).trans (List.nodup_iff_count_le_one.1 w.nodup p)
    have hbooks := books_of_reachable hempty hvalid hs
    have hnow : 0 ≤ e.time :=
      (currentTime_nonneg hempty hvalid hs).trans (hbooks.clock e hstep.1.1)
    exact hstep.2.2.obeys rule hstep.1 hone (slicePending_of_reachable hs) hbooks hnow ih

end Runs

end Machine

end SchedSim
