import SchedSim.Accounting
import SchedSim.WorkConserving

/-!
# The event loop ends, and nothing is left behind

A slice event stands for the turns that may still come out of it: one for each
microsecond up to the stop time, since a task that is not completed needs more
than a microsecond.  Slices of no length at all come from tasks that were
preempted with nothing left to do, and each preemption makes at most one.
`Machine.potential` adds this up, and every turn lowers it.

* `Move.potential_lt` — one turn lowers the potential.
* `eventLoop_terminates` — with the default parameters of any scheduler, both
  simulators handle a bounded number of events, in the order of their times and
  none of them past the stop time.
* `drained` — when the events run out, every added task is completed exactly
  once, every core is idle and every ready queue is empty.
-/

namespace SchedSim

namespace Machine

variable {σ Q : Type} [Scheduler σ] {n : ℕ}

/-! ## The potential -/

/-- How many turns may come out of an event at a time: one for each microsecond
that is left, and the one it takes to handle the event itself. -/
def turnsAt (cfg : SimConfig) (time : ℚ) : ℕ :=
  if time ≤ cfg.stopTime then ⌊1000 * (cfg.stopTime - time)⌋₊ + 1 else 0

/-- How often a task stands in a ready queue with nothing left to do. -/
def exhaustedAt [Fintype Q] (m : Machine σ Q n) (p : TaskPtr) : ℕ :=
  if (m.heap p).isCompleted then m.waiting p else 0

/-- The ready tasks with nothing left to do. -/
def exhausted [Fintype Q] (m : Machine σ Q n) (tasks : Finset TaskPtr) : ℕ :=
  ∑ p ∈ tasks, m.exhaustedAt p

/-- A bound on the turns that are left. -/
def potential [Fintype Q] (cfg : SimConfig) (tasks : Finset TaskPtr) (m : Machine σ Q n) : ℕ :=
  (m.events.map fun e => turnsAt cfg e.time).sum + 2 * m.events.arrivals.length
    + m.exhausted tasks

section TurnsAt

variable {cfg : SimConfig} {time time' : ℚ}

theorem one_le_turnsAt (h : time ≤ cfg.stopTime) : 1 ≤ turnsAt cfg time := by
  rw [turnsAt, if_pos h]
  omega

theorem turnsAt_anti (cfg : SimConfig) (h : time ≤ time') :
    turnsAt cfg time' ≤ turnsAt cfg time := by
  rw [turnsAt, turnsAt]
  split
  next h' =>
    rw [if_pos (h.trans h')]
    have := Nat.floor_le_floor (show 1000 * (cfg.stopTime - time') ≤ 1000 * (cfg.stopTime - time) by
      linarith)
    omega
  next => exact Nat.zero_le _

/-- A microsecond later there is one turn less. -/
theorem turnsAt_lt (hstop : time ≤ cfg.stopTime) (h : time + 1 / 1000 ≤ time') :
    turnsAt cfg time' < turnsAt cfg time := by
  rw [turnsAt, turnsAt, if_pos hstop]
  split
  next h' =>
    have hle : 1000 * (cfg.stopTime - time') + 1 ≤ 1000 * (cfg.stopTime - time) := by linarith
    have := Nat.floor_le_floor hle
    rw [Nat.floor_add_one (by linarith)] at this
    omega
  next => omega

end TurnsAt

section Exhausted

variable [Fintype Q] {m m' : Machine σ Q n} {tasks : Finset TaskPtr} {p : TaskPtr}

/-- A step that concerns one task adds at most that task. -/
theorem exhausted_le_succ
    (h : ∀ r, m'.exhaustedAt r ≤ m.exhaustedAt r + if r = p then 1 else 0) :
    m'.exhausted tasks ≤ m.exhausted tasks + 1 := by
  refine (Finset.sum_le_sum fun r _ => h r).trans ?_
  rw [Finset.sum_add_distrib, Finset.sum_ite_eq']
  have : (if p ∈ tasks then 1 else 0) ≤ 1 := by split <;> simp
  exact Nat.add_le_add_left this _

/-- A step that takes an exhausted task away lowers the count. -/
theorem exhausted_add_le (hp : p ∈ tasks) {k : ℕ}
    (h : ∀ r, m'.exhaustedAt r + (if r = p then k else 0) ≤ m.exhaustedAt r) :
    m'.exhausted tasks + k ≤ m.exhausted tasks := by
  refine le_trans ?_ (Finset.sum_le_sum fun r _ => h r)
  rw [Finset.sum_add_distrib, Finset.sum_ite_eq', if_pos hp]
  exact le_rfl

end Exhausted

/-! ## What the blocks do to the exhausted tasks -/

section Blocks

variable [DecidableEq Q] [Fintype Q] [LawfulScheduler σ] {m : Machine σ Q n} {q b : Q} {c : Fin n}
  {p r : TaskPtr} {cfg : SimConfig} {x : ℚ} {tasks : Finset TaskPtr}

omit [Fintype Q] in
theorem isCompleted_enqueue :
    ((m.enqueue q p).heap r).isCompleted = (m.heap r).isCompleted := by
  rw [Task.congrLedger Task.isCompleted ledger_enqueue]
  split <;> rfl

omit [Fintype Q] in
theorem isCompleted_requeue :
    ((m.requeue q c p).heap r).isCompleted = (m.heap r).isCompleted := by
  rw [Task.congrLedger Task.isCompleted ledger_requeue]
  split <;> rfl

omit [Fintype Q] in
theorem isCompleted_charge (hr : r ≠ p) :
    ((m.charge q c p).heap r).isCompleted = (m.heap r).isCompleted := by
  rw [Task.congrLedger Task.isCompleted ledger_charge, if_neg hr]

omit [Fintype Q] [LawfulScheduler σ] in
theorem isCompleted_dispatch :
    ((m.dispatch cfg q c p x).heap r).isCompleted = (m.heap r).isCompleted := by
  rw [Task.congrLedger Task.isCompleted (ledger_dispatch cfg x)]
  split
  · rw [Task.isCompleted, Task.remainingTime_start, Task.remainingTime_markDispatched,
      Task.isCompleted]
  · rfl

theorem exhausted_enqueue (tasks : Finset TaskPtr) :
    (m.enqueue q p).exhausted tasks ≤ m.exhausted tasks + 1 := by
  refine exhausted_le_succ (p := p) fun r => ?_
  rw [exhaustedAt, exhaustedAt, isCompleted_enqueue, waiting_enqueue]
  split <;> omega

theorem exhausted_yieldCore (tasks : Finset TaskPtr) (hp : m.waiting p = 0) :
    (m.yieldCore q c p).exhausted tasks ≤ m.exhausted tasks + 1 := by
  refine exhausted_le_succ (p := p) fun r => ?_
  rw [exhaustedAt, exhaustedAt, waiting_yieldCore, yieldCore, isCompleted_requeue]
  by_cases hr : r = p
  · subst hr
    rw [hp, if_pos rfl]
    split <;> omega
  · rw [isCompleted_charge hr, if_neg hr, add_zero, add_zero]

/-- A task whose slice is over is completed, or it is ready with something left to do. -/
theorem exhausted_settle (tasks : Finset TaskPtr) (hp : m.waiting p = 0) :
    (m.settle q c p).exhausted tasks ≤ m.exhausted tasks := by
  refine Finset.sum_le_sum fun r _ => ?_
  have hother : r ≠ p → ((m.settle q c p).heap r).isCompleted = (m.heap r).isCompleted := by
    intro hr
    rw [settle_eq]
    split
    · rw [Task.congrLedger Task.isCompleted ledger_finish, if_neg hr, isCompleted_charge hr]
    · rw [yieldCore, isCompleted_requeue, isCompleted_charge hr]
  by_cases hr : r = p
  · subst hr
    suffices h : (m.settle q c r).exhaustedAt r = 0 by omega
    rw [settle_eq]
    split
    next hdone =>
      have : ((m.charge q c r).finish c r).waiting r = (m.charge q c r).waiting r := rfl
      rw [exhaustedAt, this, waiting_charge, hp, ite_self]
    next hleft => rw [exhaustedAt, yieldCore, isCompleted_requeue, if_neg hleft]
  · have hwait : (m.settle q c p).waiting r = m.waiting r := by
      rw [settle_eq]
      split
      · exact waiting_charge
      · rw [waiting_yieldCore, if_neg hr, add_zero]
    rw [exhaustedAt, exhaustedAt, hother hr, hwait]

theorem exhausted_dispatch (cfg : SimConfig) (x : ℚ) (hp : p ∈ m.ready q) (htasks : p ∈ tasks) :
    (m.dispatch cfg q c p x).exhausted tasks + (if (m.heap p).isCompleted then 1 else 0)
      ≤ m.exhausted tasks := by
  refine exhausted_add_le htasks fun r => ?_
  have hlost := (lost_spec (r := r) hp).1
  have hw : (m.dispatch cfg q c p x).waiting r = (m.removeReady q p).waiting r := rfl
  have hr := waiting_removeReady (m := m) (q := q) (p := p) (r := r)
  rw [exhaustedAt, exhaustedAt, isCompleted_dispatch, hw]
  by_cases hrp : r = p
  · subst hrp
    simp only [if_true] at *
    split <;> omega
  · rw [if_neg hrp]
    split <;> omega

theorem exhausted_migrate (tasks : Finset TaskPtr) (hp : p ∈ m.ready b) :
    (m.migrate b q p).exhausted tasks ≤ m.exhausted tasks := by
  refine Finset.sum_le_sum fun r _ => ?_
  have hlost := (lost_spec (r := r) hp).1
  have hw := waiting_migrate (m := m) (b := b) (q := q) (p := p) (r := r)
  have hr := waiting_removeReady (m := m) (q := b) (p := p) (r := r)
  rw [exhaustedAt, exhaustedAt, Task.congrLedger Task.isCompleted ledger_migrate, hw]
  split <;> omega

end Blocks

/-! ## One turn -/

section Turn

variable [DecidableEq Q] [Fintype Q] [LawfulScheduler σ] {m m' : Machine σ Q n} {e : Event n}
  {q : Q} {c : Fin n} {p : TaskPtr} {cfg : SimConfig} {slot : Fin n → Q} {x : ℚ}
  {tasks : Finset TaskPtr} {P : σ → Prop}

/-- A dispatch schedules an event, but that is either later than now or takes
away an exhausted task. -/
theorem potential_dispatch (hstop : m.currentTime ≤ cfg.stopTime) (hp : p ∈ m.ready q)
    (htasks : p ∈ tasks) (hx : 1 / 1000 ≤ x) (hrem : 0 ≤ (m.heap p).remainingTime) :
    (m.dispatch cfg q c p x).potential cfg tasks + 1
      ≤ m.potential cfg tasks + turnsAt cfg m.currentTime := by
  have hex := exhausted_dispatch (c := c) cfg x hp htasks
  have harr : (m.dispatch cfg q c p x).events.arrivals = m.events.arrivals :=
    EventQueue.arrivals_schedule _ (by simp)
  have hsum : ((m.dispatch cfg q c p x).events.map fun e => turnsAt cfg e.time).sum
      = (m.events.map fun e => turnsAt cfg e.time).sum
        + turnsAt cfg (m.currentTime + grant cfg x (m.heap p).remainingTime) := by
    rw [dispatch_events, EventQueue.schedule, List.map_append, List.sum_append]
    simp
  rw [potential, potential, harr, hsum]
  by_cases hdone : (m.heap p).isCompleted
  · have := turnsAt_anti cfg (le_add_of_nonneg_right (a := m.currentTime)
      (grant_nonneg cfg x hrem))
    rw [if_pos hdone] at hex
    omega
  · have hleft : 1 / 1000 ≤ (m.heap p).remainingTime := by
      simp only [Task.isCompleted, decide_eq_true_eq, not_le] at hdone
      exact hdone.le
    have hgrant : 1 / 1000 ≤ grant cfg x (m.heap p).remainingTime := by
      refine le_min ?_ hleft
      rwa [if_pos (lt_of_lt_of_le (by norm_num) hx)]
    have := turnsAt_lt hstop (add_le_add_right hgrant m.currentTime)
    omega

theorem Next.potential_lt (h : Next cfg slot c m m') (hc : m.runningTasks c = none)
    (hstop : m.currentTime ≤ cfg.stopTime) (hbooks : m.Books)
    (htasks : ∀ p, 0 < m.places p → p ∈ tasks) (hg : GrantsAtLeast (1 / 1000) P)
    (hP : ∀ q, P (m.schedulers q)) :
    m'.potential cfg tasks + 1 ≤ m.potential cfg tasks + turnsAt cfg m.currentTime := by
  have hmem : ∀ {q p}, p ∈ m.ready q → p ∈ tasks := by
    intro q p hp
    refine htasks p ?_
    rw [places]
    have := waiting_pos.2 ⟨q, hp⟩
    omega
  cases h with
  | idle =>
    rw [clearCore_eq_self m c hc]
    have := one_le_turnsAt hstop
    omega
  | @own p x hs =>
    have hp := mem_ready_of_schedule hs
    exact potential_dispatch hstop hp (hmem hp) (hg.schedule _ _ _ _ (hP _) hs)
      ((hbooks.booked p).waiting _ hp).balanced.remaining
  | @steal b stolen p x _ _ _ hst hs =>
    have hstolen : stolen ∈ m.ready b := schedule_mem _ m.heap stolen hst
    have hp := mem_ready_of_schedule hs
    have hready : ∃ q, p ∈ m.ready q := by
      rcases mem_ready_migrate.1 hp with ⟨-, rfl⟩ | hp
      · exact ⟨b, hstolen⟩
      · exact ⟨_, (mem_ready_removeReady.1 hp).1⟩
    obtain ⟨q, hq⟩ := hready
    have hrem : 0 ≤ ((m.migrate b (slot c) stolen).heap p).remainingTime := by
      rw [Task.congrLedger Task.remainingTime ledger_migrate]
      exact ((hbooks.booked p).waiting q hq).balanced.remaining
    have hdispatch := potential_dispatch (c := c)
      (m := m.migrate b (slot c) stolen) hstop hp (hmem hq)
      (hg.schedule _ _ _ _ (grants_migrate hg hP _) hs) hrem
    have hex := exhausted_migrate (q := slot c) tasks hstolen
    refine hdispatch.trans ?_
    rw [potential, potential, migrate_events, migrate_currentTime]
    omega

omit [DecidableEq Q] [LawfulScheduler σ] in
/-- Taking an event off the queue makes room for what it may cause. -/
theorem potential_pop (cfg : SimConfig) (tasks : Finset TaskPtr) (he : e ∈ m.events) :
    (m.pop e).potential cfg tasks + turnsAt cfg e.time
    + (if e.type = .arrival then 2 else 0) = m.potential cfg tasks := by
  have hsum : turnsAt cfg e.time + ((m.events.erase e).map fun e => turnsAt cfg e.time).sum
      = (m.events.map fun e => turnsAt cfg e.time).sum :=
    List.sum_map_erase (fun e => turnsAt cfg e.time) he
  have harr := m.events.length_arrivals_erase he
  have hex : (m.pop e).exhausted tasks = m.exhausted tasks := rfl
  rw [potential, potential, pop_events, hex]
  by_cases ht : e.type = .arrival
  · rw [if_pos ht] at harr ⊢
    omega
  · rw [if_neg ht] at harr ⊢
    omega

theorem potential_enqueue (cfg : SimConfig) (tasks : Finset TaskPtr) :
    (m.enqueue q p).potential cfg tasks ≤ m.potential cfg tasks + 1 := by
  have := exhausted_enqueue (m := m) (q := q) (p := p) tasks
  rw [potential, potential, enqueue_events]
  omega

theorem potential_yieldCore (cfg : SimConfig) (tasks : Finset TaskPtr) (hp : m.waiting p = 0) :
    (m.yieldCore q c p).potential cfg tasks ≤ m.potential cfg tasks + 1 := by
  have := exhausted_yieldCore (q := q) (c := c) tasks hp
  rw [potential, potential, yieldCore_events]
  omega

omit [DecidableEq Q] [LawfulScheduler σ] in
theorem potential_countSwitch : m.countSwitch.potential cfg tasks = m.potential cfg tasks := rfl

theorem potential_settle (cfg : SimConfig) (tasks : Finset TaskPtr) (hp : m.waiting p = 0) :
    (m.settle q c p).potential cfg tasks ≤ m.potential cfg tasks := by
  have := exhausted_settle (q := q) (c := c) tasks hp
  rw [potential, potential, settle_events]
  omega

/-- **Every turn lowers the potential.** -/
theorem Move.potential_lt (h : Move cfg slot m e m') (he : m.events.IsNext e)
    (hstop : e.time ≤ cfg.stopTime) (hbooks : m.Books) (hone : ∀ p, m.places p ≤ 1)
    (hslice : m.SlicePending) (htasks : ∀ p, 0 < m.places p → p ∈ tasks)
    (hg : GrantsAtLeast (1 / 1000) P) (hP : ∀ q, P (m.schedulers q)) :
    m'.potential cfg tasks < m.potential cfg tasks := by
  have hpop := potential_pop cfg tasks he.1
  have hturn := one_le_turnsAt hstop
  have hplaces := fun r => places_pop (r := r) he.1
  have hPpop : ∀ q, P ((m.pop e).schedulers q) := hP
  have harrived : ∀ q r, e.type = .arrival →
      ((m.pop e).enqueue q e.task).places r = m.places r := by
    intro q r harr
    rw [places_enqueue, hplaces r]
    simp [harr, eq_comm]
  cases h with
  | skip => omega
  | @queued q harr =>
    have := potential_enqueue (m := m.pop e) (q := q) (p := e.task) cfg tasks
    rw [if_pos harr] at hpop
    omega
  | @woken c _ harr hidle hn =>
    have henq := potential_enqueue (m := m.pop e) (q := slot c) (p := e.task) cfg tasks
    have hnext := hn.potential_lt hidle hstop (books_arrived he hone hbooks harr)
      (fun r => by rw [harrived _ r harr]; exact htasks r) hg (grants_enqueue hg hPpop)
    rw [if_pos harr] at hpop
    rw [enqueue_currentTime, pop_currentTime] at hnext
    omega
  | @preempted c p _ harr hc _ _ hn =>
    have hrun : ((m.pop e).enqueue (slot c) e.task).runningTasks c = some p := hc
    have henq := potential_enqueue (m := m.pop e) (q := slot c) (p := e.task) cfg tasks
    have hyield := potential_yieldCore (q := slot c) (c := c) cfg tasks
      (waiting_eq_zero (places_arrived_le he hone harr p) hrun)
    have htasks' : ∀ r, 0 < (((m.pop e).enqueue (slot c) e.task).yieldCore (slot c) c
        p).countSwitch.places r → r ∈ tasks := by
      intro r
      rw [places_countSwitch, places_yieldCore hrun, harrived _ r harr]
      exact htasks r
    have hnext := hn.potential_lt
      (by rw [countSwitch_runningTasks, yieldCore_runningTasks, setAt_self]) hstop
      (books_preempted he hone hbooks harr hslice hc)
      htasks' hg (grants_yieldCore hg (grants_enqueue hg hPpop))
    rw [if_pos harr] at hpop
    rw [potential_countSwitch, countSwitch_currentTime, yieldCore_currentTime,
      enqueue_currentTime, pop_currentTime] at hnext
    omega
  | expired hts hc hn =>
    have hrun : (m.pop e).runningTasks e.coreId = some e.task := hc
    have hsettle := potential_settle (q := slot e.coreId) (c := e.coreId) cfg
      tasks (waiting_eq_zero (places_pop_le he.1 hone e.task) hrun)
    have hnext := hn.potential_lt (by rw [settle_runningTasks, setAt_self])
      (by rw [settle_currentTime]; exact hstop) (books_expired he hone hbooks hslice hc)
      (fun r hr => htasks r (by rw [places_settle hrun] at hr; have := hplaces r; omega))
      hg (grants_settle hg hPpop)
    rw [settle_currentTime, pop_currentTime] at hnext
    omega

end Turn

/-! ## Runs -/

section Runs

variable [DecidableEq Q] [Fintype Q] [LawfulScheduler σ] [NeZero n] {m : Machine σ Q n}
  {es : List (Event n)} {cfg : SimConfig} {slot : Fin n → Q} {P : σ → Prop}
  {schedulers : Q → σ} {w : Workload}

/-- The potential at the start bounds the number of turns of every run. -/
theorem length_le_potential (hempty : ∀ q, readyTasks (schedulers q) = []) (hvalid : w.Valid)
    (hg : GrantsAtLeast (1 / 1000) P) (hP : ∀ q, P (schedulers q))
    (h : Lts.Run (Step cfg slot) (init schedulers w) es m) :
    es.length ≤ (init schedulers w : Machine σ Q n).potential cfg w.added.toFinset := by
  have hbound := h.length_add_measure_le
    (I := fun m => Lts.Reachable (Step cfg slot) (init schedulers w) m ∧ ∀ q, P (m.schedulers q))
    (f := potential cfg w.added.toFinset) ?_ ⟨Lts.Reachable.refl, hP⟩
  · omega
  rintro s e t ⟨hs, hPs⟩ hstep
  have hcount := places_le_count hempty hs
  have hone : ∀ p, s.places p ≤ 1 := fun p =>
    (hcount p).trans (List.nodup_iff_count_le_one.1 w.nodup p)
  refine ⟨⟨hs.tail hstep, hstep.2.2.grants hg hPs⟩, ?_⟩
  refine hstep.2.2.potential_lt hstep.1 hstep.2.1 (books_of_reachable hempty hvalid hs) hone
    (slicePending_of_reachable hs) (fun p hp => ?_) hg hPs
  exact List.mem_toFinset.2 (List.count_pos_iff.1 (hp.trans_le (hcount p)))

/-- Events are handled in the order of their times. -/
theorem times_sorted (hempty : ∀ q, readyTasks (schedulers q) = []) (hvalid : w.Valid)
    (h : Lts.Run (Step cfg slot) (init schedulers w) es m) :
    (es.map Event.time).Pairwise (· ≤ ·) := by
  refine (h.times_sorted (I := Lts.Reachable (Step cfg slot) (init schedulers w))
    (f := currentTime) (g := Event.time) ?_ Lts.Reachable.refl).2.2
  intro s e t hs hstep
  exact ⟨hs.tail hstep, (books_of_reachable hempty hvalid hs).clock e hstep.1.1,
    hstep.2.2.currentTime.ge⟩

omit [Fintype Q] [LawfulScheduler σ] in
/-- No event past the stop time is handled. -/
theorem times_le_stopTime (h : Lts.Run (Step cfg slot) (init schedulers w) es m) :
    ∀ e ∈ es, e.time ≤ cfg.stopTime := by
  induction h with
  | nil => simp
  | snoc _ hstep ih =>
    intro e he
    rcases List.mem_append.1 he with he | he
    · exact ih e he
    · rw [List.mem_singleton.1 he]
      exact hstep.2.1

/-- When no event is pending, every added task has been completed, once. -/
theorem drained_of_reachable (hslot : Function.Surjective slot)
    (hempty : ∀ q, readyTasks (schedulers q) = []) (hids : w.DistinctIds)
    (h : Lts.Reachable (Step cfg slot) (init schedulers w) m) (hevents : m.events = []) :
    (∀ p ∈ w.added, m.completedTasks.count p = 1) ∧ (∀ c, m.runningTasks c = none) ∧
      ∀ q, m.ready q = [] := by
  have hidle : ∀ c, m.runningTasks c = none := by
    intro c
    by_contra hc
    obtain ⟨p, hp⟩ := Option.ne_none_iff_exists'.1 hc
    have := slicePending_of_reachable h c p hp
    rw [hevents] at this
    cases this
  have hready : ∀ q, m.ready q = [] := by
    intro q
    obtain ⟨c, rfl⟩ := hslot q
    exact idleEmpty_of_reachable hempty h c (hidle c)
  refine ⟨fun p hp => ?_, hidle, hready⟩
  have hplaces := places_eq_count hempty hids h p
  have hcores : m.coresOf p = ∅ := by simp [coresOf, hidle]
  have hwait : m.waiting p = 0 := Finset.sum_eq_zero fun q _ => by simp [hready q]
  rw [List.count_eq_one_of_mem w.nodup hp, places, hevents, hcores, hwait] at hplaces
  simpa [EventQueue.arrivals] using hplaces

end Runs

end Machine

/-! ## The two simulators -/

/-- **The event loop terminates**: with the default parameters of any scheduler,
a workload and a stop time bound the number of events that are handled, in
whatever order simultaneous events are met; the times of the handled events
never go back and never exceed the stop time. -/
theorem eventLoop_terminates {n : ℕ} [NeZero n] (kind : SchedulerKind)
    (hkind : kind ∈ SchedulerKind.defaults) (w : Workload) (hvalid : w.Valid) :
    (∀ cfg : SimConfig, ∃ bound, ∀ es (s : Simulator kind.State n),
      Lts.Run (Simulator.Step cfg) (Simulator.init kind.make w) es s →
      es.length ≤ bound ∧ (es.map Event.time).Pairwise (· ≤ ·) ∧ ∀ e ∈ es, e.time ≤ cfg.stopTime) ∧
    (∀ (balancer : LoadBalancer) (cfg : MultiConfig), ∃ bound,
      ∀ es (s : MultiCoreSimulator kind.State n),
      Lts.Run (MultiCoreSimulator.Step cfg) (MultiCoreSimulator.init kind.make balancer w) es s →
      es.length ≤ bound ∧ (es.map Event.time).Pairwise (· ≤ ·) ∧
        ∀ e ∈ es, e.time ≤ cfg.stopTime) := by
  obtain ⟨P, hg, hP⟩ := SchedulerKind.grantsAtLeast_one hkind
  have hg' : GrantsAtLeast (1 / 1000) P := hg.mono (by norm_num)
  constructor
  · intro cfg
    refine ⟨(Simulator.init kind.make w : Simulator kind.State n).potential cfg w.added.toFinset,
      fun es s hrun => ?_⟩
    have hm := hrun.simulate (f := id) fun _ _ _ => Simulator.step_machine
    exact ⟨Machine.length_le_potential (fun _ => kind.readyTasks_make) hvalid hg' (fun _ => hP) hm,
      Machine.times_sorted (fun _ => kind.readyTasks_make) hvalid hm, Machine.times_le_stopTime hm⟩
  · intro balancer cfg
    refine ⟨(MultiCoreSimulator.init kind.make balancer w :
      MultiCoreSimulator kind.State n).potential cfg.toSimConfig w.added.toFinset,
      fun es s hrun => ?_⟩
    have hm := hrun.simulate (f := MultiCoreSimulator.toMachine) fun _ _ _ =>
      MultiCoreSimulator.step_machine
    exact ⟨Machine.length_le_potential (fun _ => kind.readyTasks_make) hvalid hg' (fun _ => hP) hm,
      Machine.times_sorted (fun _ => kind.readyTasks_make) hvalid hm, Machine.times_le_stopTime hm⟩

theorem eventLoop_terminates_pair :
    let cfg : MultiConfig := { stopTime := 50 }
    let kind := SchedulerKind.stride {}
    (∃ bound, ∀ es (s : Simulator kind.State 1),
      Lts.Run (Simulator.Step cfg.toSimConfig) (Simulator.init kind.make .pair) es s →
      es.length ≤ bound ∧ (es.map Event.time).Pairwise (· ≤ ·) ∧ ∀ e ∈ es, e.time ≤ 50) ∧
    (∃ bound, ∀ es (s : MultiCoreSimulator kind.State 4),
      Lts.Run (MultiCoreSimulator.Step cfg)
        (MultiCoreSimulator.init kind.make (.roundRobin 0) .pair) es s →
      es.length ≤ bound ∧ (es.map Event.time).Pairwise (· ≤ ·) ∧ ∀ e ∈ es, e.time ≤ 50) := by
  have hkind : SchedulerKind.stride {} ∈ SchedulerKind.defaults := by simp [SchedulerKind.defaults]
  exact ⟨(eventLoop_terminates _ hkind .pair (by decide +kernel)).1 _,
    (eventLoop_terminates _ hkind .pair (by decide +kernel)).2 _ _⟩

/-- **Nothing is left behind**: when the events run out, every added task has
been completed exactly once, every core is idle and every ready queue is empty. -/
theorem drained {n : ℕ} [NeZero n] (kind : SchedulerKind) (w : Workload)
    (hids : w.DistinctIds) :
    (∀ (cfg : SimConfig) (s : Simulator kind.State n),
      Lts.Reachable (Simulator.Step cfg) (Simulator.init kind.make w) s → s.events = [] →
      (∀ p ∈ w.added, s.completedTasks.count p = 1) ∧ (∀ c, s.runningTasks c = none) ∧
        s.ready () = []) ∧
    (∀ (balancer : LoadBalancer) (cfg : MultiConfig) (s : MultiCoreSimulator kind.State n),
      Lts.Reachable (MultiCoreSimulator.Step cfg)
        (MultiCoreSimulator.init kind.make balancer w) s → s.events = [] →
      (∀ p ∈ w.added, s.completedTasks.count p = 1) ∧ (∀ c, s.runningTasks c = none) ∧
        ∀ c, s.ready c = []) := by
  constructor
  · intro cfg s hs hevents
    have hslot : Function.Surjective (Simulator.slot (n := n)) := fun _ => ⟨0, rfl⟩
    obtain ⟨hdone, hidle, hready⟩ := Machine.drained_of_reachable hslot
      (fun _ => kind.readyTasks_make) hids
      (hs.simulate (f := id) fun _ _ _ => Simulator.step_machine) hevents
    exact ⟨hdone, hidle, hready ()⟩
  · intro balancer cfg s hs hevents
    exact Machine.drained_of_reachable Function.surjective_id (fun _ => kind.readyTasks_make) hids
      (hs.simulate (f := MultiCoreSimulator.toMachine) fun _ _ _ =>
        MultiCoreSimulator.step_machine) hevents

theorem drained_pair :
    let cfg : MultiConfig := { stopTime := 50 }
    let kind := SchedulerKind.cfs {}
    let single := Simulator.turns (n := 1) cfg.toSimConfig 9 (Simulator.init kind.make .pair)
    let multi := MultiCoreSimulator.turns (n := 2) cfg 9
      (MultiCoreSimulator.init kind.make (.roundRobin 0) .pair)
    (∀ p ∈ Workload.pair.added, single.completedTasks.count p = 1) ∧
      (∀ p ∈ Workload.pair.added, multi.completedTasks.count p = 1) :=
  ⟨((drained (.cfs {}) .pair (by decide)).1 _ _ (Simulator.reachable_turns _ 9 _)
      (by decide +kernel)).1,
    ((drained (.cfs {}) .pair (by decide)).2 _ _ _ (MultiCoreSimulator.reachable_turns _ 9 _)
      (by decide +kernel)).1⟩

end SchedSim
