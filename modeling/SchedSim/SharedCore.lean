import SchedSim.FairShare
import SchedSim.VirtualTime

/-!
# A single-core simulator shares its core

Under a policy that goes by virtual time, a simulator with one core is a server
in the sense of `SchedSim.FairShare`: whatever one event makes it do, the server
can do too.

* `Machine.Block` — the blocks a move is made of, with what holds before each.
* `Machine.Orderly` — what every block keeps.
* `Machine.view` — the simulator seen as a server.
* `Block.refines`, `Blocks.refines` — each block, and so each sequence of them, is one
  of the server.
-/

namespace SchedSim

namespace Machine

variable {σ : Type} [Scheduler σ] {V : VirtualClock σ} {w : Workload} {m m' : Machine σ Unit 1}
  {e : Event 1} {p r : TaskPtr} {cfg : SimConfig} {x : ℚ}

/-! ## Moves in blocks -/

/-- The blocks handling an event is made of. -/
inductive Block (V : VirtualClock σ) (cfg : SimConfig) (m : Machine σ Unit 1) :
    Machine σ Unit 1 → Prop
  | skip {e : Event 1} : m.events.IsNext e → e.type ≠ .arrival → Block V cfg m (m.pop e)
  | arrive {e : Event 1} : m.events.IsNext e → e.type = .arrival →
      Block V cfg m ((m.pop e).enqueue () e.task)
  /-- The task on the core has been there for a while, or a new one wants the core. -/
  | yield {p : TaskPtr} : m.runningTasks 0 = some p → m.elapsed 0 ≤ m.granted 0 →
      ((m.heap p).arrivalTime < m.currentTime ∨
        ∃ q ∈ m.ready (), (m.heap q).arrivalTime = m.currentTime) →
      Block V cfg m (m.yieldCore () 0 p)
  | finish {p : TaskPtr} : m.runningTasks 0 = some p → m.elapsed 0 ≤ m.granted 0 →
      ((m.charge () 0 p).heap p).isCompleted = true → (m.heap p).arrivalTime < m.currentTime →
      Block V cfg m ((m.charge () 0 p).finish 0 p)
  | countSwitch : Block V cfg m m.countSwitch
  | dispatch {p : TaskPtr} {x : ℚ} : m.runningTasks 0 = none →
      schedule (m.schedulers ()) m.heap = ⟨some p, x⟩ → Block V cfg m (m.dispatch cfg () 0 p x)

/-- What every block keeps. -/
structure Orderly (V : VirtualClock σ) (w : Workload) (m : Machine σ Unit 1) : Prop where
  books : m.Books
  roster : ∀ p, m.places p ≤ w.added.count p
  fixed : ∀ p, (m.heap p).fixed = (w.heap p).fixed
  clocked : m.Clocked V
  /-- A task arrives when it says. -/
  announced : ∀ e ∈ m.events, e.type = .arrival → e.time = (m.heap e.task).arrivalTime
  /-- No slice ends at the instant its task arrives. -/
  late : ∀ e ∈ m.events, e.type = .timeSlice → (m.heap e.task).arrivalTime < e.time
  granted : ∀ p, 0 ≤ m.lastGrant p

theorem Orderly.places_le_one (h : m.Orderly V w) (p : TaskPtr) : m.places p ≤ 1 :=
  (h.roster p).trans (List.nodup_iff_count_le_one.1 w.nodup p)

/-- Two tasks in the simulator with the same id are the same. -/
theorem Orderly.eq_of_id_eq (h : m.Orderly V w) (hids : w.DistinctIds) (hp : 0 < m.places p)
    (hr : 0 < m.places r) (hid : (m.heap p).id = (m.heap r).id) : p = r := by
  have hadded : ∀ {t}, 0 < m.places t → t ∈ w.added := fun ht =>
    List.count_pos_iff.1 (ht.trans_le (h.roster _))
  have hfixed := fun t => congrArg (fun f => f.1.id) (h.fixed t)
  exact hids p (hadded hp) r (hadded hr) ((hfixed p).symm.trans (hid.trans (hfixed r)))

theorem places_pos_of_ready (hp : p ∈ m.ready ()) : 0 < m.places p := by
  have := waiting_pos.2 ⟨(), hp⟩
  rw [places]
  omega

/-- A task is not ready and on the core at once. -/
theorem Orderly.not_ready (h : m.Orderly V w) (hc : m.runningTasks 0 = some p) :
    p ∉ m.ready () := by
  intro hp
  have := waiting_eq_zero (h.places_le_one p) hc
  have := waiting_pos.2 ⟨(), hp⟩
  omega

/-- No more tasks are ready than were added. -/
theorem Orderly.length_ready (h : m.Orderly V w) : (m.ready ()).length ≤ w.added.length := by
  refine (List.subperm_ext_iff.2 fun p _ => ?_).length_le
  refine le_trans ?_ (h.roster p)
  have := m.count_ready_le_waiting () p
  rw [places]
  omega

variable [LawfulScheduler σ]

omit [Scheduler σ] [LawfulScheduler σ] in
theorem arrivalTime_congr (h : (m'.heap p).fixed = (m.heap p).fixed) :
    (m'.heap p).arrivalTime = (m.heap p).arrivalTime := congrArg (fun f => f.1.arrivalTime) h

omit [Scheduler σ] [LawfulScheduler σ] in
/-- A task arrives when its constructor was told. -/
theorem arrivalTime_of_fixed (h : (m.heap p).fixed = (w.heap p).fixed) :
    (m.heap p).arrivalTime = (w.args p).arrivalTime := congrArg (fun f => f.1.arrivalTime) h

omit [LawfulScheduler σ] in
/-- The slice a dispatch grants does not end at the instant the task arrived: it
has a length, or the task has already been served. -/
theorem Orderly.arrivalTime_lt (hm : m.Orderly V w) (hvalid : w.Valid) (hp : p ∈ m.ready ()) :
    (m.heap p).arrivalTime < m.currentTime + grant cfg x (m.heap p).remainingTime := by
  have hwaits := (hm.books.booked p).waiting () hp
  have hb := hwaits.balanced.booked
  have hadded : p ∈ w.added :=
    List.count_pos_iff.1 ((places_pos_of_ready hp).trans_le (hm.roster p))
  have hexec : 0 < (m.heap p).executionTime := by
    have heq : (m.heap p).executionTime = (w.heap p).executionTime :=
      congrArg (fun f => f.1.executionTime) (hm.fixed p)
    rw [heq]
    exact (hvalid p hadded).2
  have hserved : (m.heap p).served = (m.heap p).executionTime - (m.heap p).remainingTime := rfl
  rw [Task.booked] at hb
  have := hwaits.past
  have := hwaits.balanced.served
  have := hwaits.balanced.waited
  have hrem := hwaits.balanced.remaining
  rcases hrem.lt_or_eq with hrem | hrem
  · have hgrant : 0 < grant cfg x (m.heap p).remainingTime := by
      refine lt_min ?_ hrem
      split
      next hx => exact hx
      next => exact cfg.defaultTimeSlice_pos
    linarith
  · have hgrant := grant_nonneg cfg x hrem.le
    linarith

/-- **Every block keeps the order.** -/
theorem Block.orderly (h : Block V cfg m m') (hvalid : w.Valid) (hm : m.Orderly V w) :
    m'.Orderly V w := by
  have hone := hm.places_le_one
  -- blocks that dispatch nothing keep the events in order
  have key : ∀ {m' : Machine σ Unit 1}, (∀ e ∈ m'.events, e ∈ m.events) →
      (∀ p, m'.lastGrant p = m.lastGrant p) → (∀ p, (m'.heap p).fixed = (m.heap p).fixed) →
      m'.Books → (∀ p, m'.places p ≤ w.added.count p) → m'.Clocked V → m'.Orderly V w := by
    intro m' hev hgrant hfixed hbooks hroster hclocked
    refine ⟨hbooks, hroster, fun p => (hfixed p).trans (hm.fixed p), hclocked,
      fun e he ht => ?_, fun e he ht => ?_, fun p => ?_⟩
    · rw [arrivalTime_congr (hfixed e.task)]
      exact hm.announced e (hev e he) ht
    · rw [arrivalTime_congr (hfixed e.task)]
      exact hm.late e (hev e he) ht
    · rw [hgrant]
      exact hm.granted p
  cases h with
  | @skip e he hna =>
    refine key (fun e' he' => List.mem_of_mem_erase he') (fun p => rfl) (fun p => rfl)
      (books_pop he hm.books) (fun p => ?_) (hm.clocked.pop (hm.books.clock e he.1))
    have := places_pop (r := p) he.1
    have := hm.roster p
    omega
  | @arrive e he harr =>
    have hplaces := fun p => places_pop (r := p) he.1
    have hpop : (m.pop e).places e.task = 0 := by
      have := hplaces e.task
      have := hone e.task
      simp only [harr, and_self, if_true] at *
      omega
    have hfresh := hm.clocked.fresh e.task (EventQueue.mem_arrivals.2 ⟨e, he.1, harr, rfl⟩)
    refine key (fun e' he' => List.mem_of_mem_erase he') (fun p => rfl) (fun p => fixed_enqueue)
      (books_arrived he hone hm.books harr) (fun p => ?_)
      ((hm.clocked.pop (hm.books.clock e he.1)).enqueue hpop hfresh)
    have := hplaces p
    have := hm.roster p
    rw [places_enqueue]
    simp only [harr, true_and, eq_comm (a := e.task)] at *
    omega
  | @yield p hc hx =>
    have hrem := hx.trans ((hm.books.booked p).running 0 hc).granted
    refine key (fun e he => he) (fun r => rfl) (fun r => fixed_yieldCore)
      ⟨hm.books.clock, fun r => booked_yieldCore hm.books.booked hc (hone p) hrem⟩ (fun r => ?_)
      (hm.clocked.yieldCore hc)
    rw [places_yieldCore hc]
    exact hm.roster r
  | @finish p hc hx hdone =>
    have hrem := hx.trans ((hm.books.booked p).running 0 hc).granted
    refine key (fun e he => he) (fun r => rfl) (fun r => ?_)
      ⟨hm.books.clock, fun r => booked_finish hm.books.booked hc (hone p) hrem hdone⟩ (fun r => ?_)
      (hm.clocked.finish hc (hone p))
    · rw [fixed_finish, fixed_charge]
    · rw [places_finish (by rw [charge_runningTasks, hc]), places_charge]
      exact hm.roster r
  | countSwitch =>
    exact key (fun e he => he) (fun r => rfl) (fun r => rfl) (books_countSwitch hm.books) hm.roster
      hm.clocked.countSwitch
  | @dispatch p x hc hs =>
    have hp := mem_ready_of_schedule hs
    refine ⟨books_dispatch hm.books hc hp (hone p), fun r => ?_,
      fun r => fixed_dispatch.trans (hm.fixed r), hm.clocked.dispatch hp (hone p),
      fun e he ht => ?_, fun e he ht => ?_, fun r => ?_⟩
    · have := places_dispatch (q := ()) (p := p) (r := r) cfg x hc
      have := (lost_spec (r := r) hp).1
      have := hm.roster r
      omega
    · rw [arrivalTime_congr fixed_dispatch]
      rcases List.mem_append.1 he with he | he
      · exact hm.announced e he ht
      · rw [List.mem_singleton.1 he] at ht
        cases ht
    · rw [arrivalTime_congr fixed_dispatch]
      rcases List.mem_append.1 he with he | he
      · exact hm.late e he ht
      · rw [List.mem_singleton.1 he]
        exact hm.arrivalTime_lt hvalid hp
    · by_cases hrp : r = p
      · subst hrp
        rw [lastGrant_dispatch_self]
        exact grant_nonneg cfg x ((hm.books.booked r).waiting () hp).balanced.remaining
      · rw [lastGrant_dispatch_of_ne hrp]
        exact hm.granted r

/-! ## The simulator as a server -/

omit [LawfulScheduler σ] in
/-- The core as a server; the clients are the tasks that are ready or on the core. -/
def view (V : VirtualClock σ) (m : Machine σ Unit 1) : FairShare.Server TaskPtr ℚ where
  active := {r | r ∈ m.ready () ∨ m.runningTasks 0 = some r}
  service r := V.service (m.heap r)
  lift r := V.lift (m.heap r)
  slice r := V.rate (m.heap r) * m.lastGrant r
  running := m.runningTasks 0

/-- The slack between two tasks of a workload. -/
def slackIn (V : VirtualClock σ) (w : Workload) (p q : TaskPtr) : ℚ := V.slack (w.heap p) (w.heap q)

omit [LawfulScheduler σ] in
/-- Tasks with the same records are the same clients. -/
theorem untouched_of_heap (h : ∀ r, r ≠ p → m'.heap r = m.heap r) :
    FairShare.Untouched (m.view V) (m'.view V) p := by
  refine ⟨fun r hr => ?_, fun r hr => ?_⟩
  · exact congrArg V.service (h r hr)
  · exact congrArg V.lift (h r hr)

omit [LawfulScheduler σ] in
theorem slice_view (hf : ∀ r, (m'.heap r).fixed = (m.heap r).fixed)
    (hg : ∀ r, m'.lastGrant r = m.lastGrant r) : (m'.view V).slice = (m.view V).slice := by
  funext r
  show V.rate (m'.heap r) * m'.lastGrant r = V.rate (m.heap r) * m.lastGrant r
  rw [V.rate_congr _ _ (hf r), hg r]

theorem step_arrive (hp : (m.pop e).places e.task = 0) :
    FairShare.Step (slackIn V w) (m.view V) (.join e.task)
      (((m.pop e).enqueue () e.task).view V) := by
  obtain ⟨-, hwait, hrun, -⟩ := places_eq_zero.1 hp
  refine .join ?_ ?_ (untouched_of_heap fun r hr => heap_enqueue_of_ne V hr)
    (slice_view (fun r => fixed_enqueue) fun r => rfl) rfl
  · rintro (h | h)
    · exact hwait () h
    · exact hrun 0 h
  · ext r
    show r ∈ ((m.pop e).enqueue () e.task).ready () ∨ m.runningTasks 0 = some r ↔ _
    rw [mem_ready_enqueue]
    simp [view, or_assoc]

/-- The virtual time of a task that yields the core. -/
theorem vtime_yieldCore (hm : m.Clocked V) (hc : m.runningTasks 0 = some p) :
    V.vtime ((m.yieldCore () 0 p).heap p)
      = max (V.vtime (m.heap p) + V.rate (m.heap p) * m.elapsed 0)
        (V.clamp ((m.charge () 0 p).schedulers ()) (m.heap p)) := by
  have hcharge : V.vtime ((m.charge () 0 p).heap p)
      = V.vtime (m.heap p) + V.rate (m.heap p) * m.elapsed 0 := by
    have h := V.vtime_onCpuUsed (m.schedulers ()) (m.heap.modify p (·.execute (m.elapsed 0))) p
      (m.elapsed 0) hm.good
    rw [Heap.modify_self] at h
    have hexecute : V.vtime ((m.heap p).execute (m.elapsed 0)) = V.vtime (m.heap p) :=
      VirtualClock.vtime_congr rfl
    rw [← hexecute, ← V.rate_congr ((m.heap p).execute (m.elapsed 0)) (m.heap p) rfl]
    exact h (V.settled_congr (m.heap p) _ rfl rfl (hm.running p hc))
  obtain ⟨h, hh, heq⟩ := heap_yieldCore_self m p
  have hstart : 0 ≤ (h p).startTime := by
    rw [hh]
    exact (hm.started p hc).trans_eq startTime_charged.symm
  have hback : V.vtime (((m.charge () 0 p).heap p).incrementPreemptions.markReady m.currentTime)
      = V.vtime ((m.charge () 0 p).heap p) := VirtualClock.vtime_congr rfl
  rw [heq, V.vtime_addTask _ _ _ (good_charge hm.good) hstart, hh, hback, hcharge]
  congr 1
  exact V.clamp_congr _ _ _ fixed_charge

/-- Yielding the core books the CPU time since the dispatch. -/
theorem served_yieldCore (hx : m.elapsed 0 ≤ (m.heap p).remainingTime) :
    ((m.yieldCore () 0 p).heap p).served = (m.heap p).served + m.elapsed 0 := by
  rw [← Task.served_execute hx, yieldCore, Task.congrLedger Task.served ledger_requeue, if_pos rfl]
  have h := Task.congrLedger Task.served
    (ledger_charge (m := m) (q := ()) (c := 0) (p := p) (r := p))
  rwa [if_pos rfl] at h

theorem step_yield (hm : m.Orderly V w) (hc : m.runningTasks 0 = some p)
    (hx : m.elapsed 0 ≤ m.granted 0) :
    FairShare.Step (slackIn V w) (m.view V) (.charge p) ((m.yieldCore () 0 p).view V) := by
  have hruns := (hm.books.booked p).running 0 hc
  have hvtime := vtime_yieldCore hm.clocked hc
  have hserved := served_yieldCore (hx.trans hruns.granted)
  have hrate : V.rate ((m.yieldCore () 0 p).heap p) = V.rate (m.heap p) :=
    V.rate_congr _ _ fixed_yieldCore
  have hservice : V.service ((m.yieldCore () 0 p).heap p)
      = V.service (m.heap p) + V.rate (m.heap p) * m.elapsed 0 := by
    rw [VirtualClock.service, hserved, hrate, mul_add, VirtualClock.service]
  have helapsed : 0 ≤ m.elapsed 0 := sub_nonneg.2 hruns.past
  have hrate0 := V.rate_nonneg (m.heap p)
  refine .charge hc ?_ (untouched_of_heap fun r hr => heap_yieldCore_of_ne V hr) ?_ ?_ ?_
    (slice_view (fun r => fixed_yieldCore) fun r => rfl) ?_
  · ext r
    show r ∈ (m.yieldCore () 0 p).ready () ∨ (m.yieldCore () 0 p).runningTasks 0 = some r ↔
      r ∈ m.ready () ∨ m.runningTasks 0 = some r
    rw [mem_ready_yieldCore, yieldCore_runningTasks, setAt_self, hc]
    simp [eq_comm, or_comm]
  · show V.service (m.heap p) ≤ V.service ((m.yieldCore () 0 p).heap p)
    rw [hservice]
    exact le_add_of_nonneg_right (mul_nonneg hrate0 helapsed)
  · show V.service ((m.yieldCore () 0 p).heap p) ≤ _
    rw [hservice]
    refine add_le_add_right (mul_le_mul_of_nonneg_left ?_ hrate0) _
    rw [hm.clocked.granted p hc]
    exact hx
  · show V.lift (m.heap p) ≤ V.lift ((m.yieldCore () 0 p).heap p)
    have := le_max_left (V.vtime (m.heap p) + V.rate (m.heap p) * m.elapsed 0)
      (V.clamp ((m.charge () 0 p).schedulers ()) (m.heap p))
    rw [VirtualClock.lift, VirtualClock.lift, hvtime, hservice]
    linarith
  · show (m.yieldCore () 0 p).runningTasks 0 = none
    rw [yieldCore_runningTasks, setAt_self]

theorem step_finish (hm : m.Orderly V w) (hc : m.runningTasks 0 = some p) :
    FairShare.Step (slackIn V w) (m.view V) (.finish p)
      (((m.charge () 0 p).finish 0 p).view V) := by
  have hidle : ((m.charge () 0 p).finish 0 p).runningTasks 0 = none := by
    rw [finish_runningTasks, setAt_self]
  refine .finish hc ?_ (untouched_of_heap fun r hr => ?_) (slice_view (fun r => ?_) fun r => rfl)
    hidle
  · ext r
    show r ∈ (m.charge () 0 p).ready () ∨ ((m.charge () 0 p).finish 0 p).runningTasks 0 = some r ↔
      (r ∈ m.ready () ∨ m.runningTasks 0 = some r) ∧ r ≠ p
    rw [mem_ready_charge, hidle, hc]
    have := hm.not_ready hc
    constructor
    · rintro (hr | hr)
      · exact ⟨.inl hr, fun h => this (h ▸ hr)⟩
      · cases hr
    · rintro ⟨hr | hr, hne⟩
      · exact .inl hr
      · exact absurd (Option.some.inj hr).symm hne
  · rw [heap_finish_of_ne hr, heap_charge_of_ne V hr]
  · rw [fixed_finish, fixed_charge]

omit [LawfulScheduler σ] in
theorem served_dispatch : ((m.dispatch cfg () 0 p x).heap r).served = (m.heap r).served := by
  rw [Task.congrLedger Task.served (ledger_dispatch cfg x)]
  split
  · rw [Task.served_start, Task.served_markDispatched]
  · rfl

omit [LawfulScheduler σ] in
theorem lift_dispatch : V.lift ((m.dispatch cfg () 0 p x).heap r) = V.lift (m.heap r) :=
  VirtualClock.lift_congr policy_dispatched fixed_dispatch served_dispatch

theorem step_dispatch (hm : m.Orderly V w) (hids : w.DistinctIds)
    (hcap : w.added.length ≤ V.capacity) (hc : m.runningTasks 0 = none)
    (hs : schedule (m.schedulers ()) m.heap = ⟨some p, x⟩) :
    FairShare.Step (slackIn V w) (m.view V) (.select p) ((m.dispatch cfg () 0 p x).view V) := by
  have hp := mem_ready_of_schedule hs
  have hrun : (m.dispatch cfg () 0 p x).runningTasks 0 = some p := by
    rw [dispatch_runningTasks, setAt_self]
  refine .select hc (fun q hq => ?_) ?_ ?_ ?_ (fun r hr => ?_) hrun
  · have hq : q ∈ m.ready () := hq.resolve_right (by simp [hc])
    have hpick := V.pick_le _ _ _ _ hm.clocked.good hm.clocked.ready (hm.length_ready.trans hcap) hs
      q hq
    have hslack : slackIn V w p q = V.slack (m.heap p) (m.heap q) :=
      V.slack_congr _ _ _ _ (hm.fixed p).symm (hm.fixed q).symm
    rw [hslack]
    simpa [FairShare.Server.virtualTime, view, VirtualClock.lift] using hpick
  · ext r
    show r ∈ (m.dispatch cfg () 0 p x).ready () ∨
      (m.dispatch cfg () 0 p x).runningTasks 0 = some r ↔
      r ∈ m.ready () ∨ m.runningTasks 0 = some r
    rw [ready_dispatch, mem_ready_removeReady, hrun, hc]
    constructor
    · rintro (hr | hr)
      · exact .inl hr.1
      · obtain rfl := Option.some.inj hr
        exact .inl hp
    · rintro (hr | hr)
      · by_cases hid : (m.heap r).id = (m.heap p).id
        · have := hm.eq_of_id_eq hids (places_pos_of_ready hr) (places_pos_of_ready hp) hid
          exact .inr (by rw [this])
        · exact .inl ⟨hr, fun _ => hid⟩
      · cases hr
  · funext r
    exact VirtualClock.service_congr fixed_dispatch served_dispatch
  · funext r
    exact lift_dispatch
  · show V.rate _ * (m.dispatch cfg () 0 p x).lastGrant r = V.rate _ * m.lastGrant r
    rw [lastGrant_dispatch_of_ne hr, V.rate_congr _ _ fixed_dispatch]

/-- **What one block does, the server can do.** -/
theorem Block.refines (h : Block V cfg m m') (hm : m.Orderly V w) (hids : w.DistinctIds)
    (hcap : w.added.length ≤ V.capacity) :
    ∃ as, Lts.Run (FairShare.Step (slackIn V w)) (m.view V) as (m'.view V) ∧
      ∀ p, .finish p ∈ as → p ∈ m'.completedTasks := by
  cases h with
  | skip => exact ⟨[], .nil _, by simp⟩
  | @arrive e he harr =>
    refine ⟨_, .single (step_arrive ?_), by simp⟩
    have := places_pop (r := e.task) he.1
    have := hm.places_le_one e.task
    simp only [harr, and_self, if_true] at *
    omega
  | yield hc hx _ => exact ⟨_, .single (step_yield hm hc hx), by simp⟩
  | finish hc => exact ⟨_, .single (step_finish hm hc), by simp⟩
  | countSwitch => exact ⟨[], .nil _, by simp⟩
  | dispatch hc hs => exact ⟨_, .single (step_dispatch hm hids hcap hc hs), by simp⟩

/-! ## Moves and runs -/

omit [LawfulScheduler σ] in
theorem Block.completedTasks_subset (h : Block V cfg m m') :
    m.completedTasks ⊆ m'.completedTasks := by
  cases h with
  | finish => exact List.subset_append_left _ _
  | _ => exact List.Subset.refl _

/-- Blocks one after the other. -/
abbrev Blocks (V : VirtualClock σ) (cfg : SimConfig) : Machine σ Unit 1 → Machine σ Unit 1 → Prop :=
  Relation.ReflTransGen (Block V cfg)

omit [LawfulScheduler σ] in
theorem Blocks.completedTasks_subset (h : Blocks V cfg m m') :
    m.completedTasks ⊆ m'.completedTasks := by
  induction h with
  | refl => exact List.Subset.refl _
  | tail _ hb ih => exact fun p hp => hb.completedTasks_subset (ih hp)

theorem Blocks.orderly (h : Blocks V cfg m m') (hvalid : w.Valid) (hm : m.Orderly V w) :
    m'.Orderly V w := by
  induction h with
  | refl => exact hm
  | tail _ hb ih => exact hb.orderly hvalid ih

theorem Blocks.refines (h : Blocks V cfg m m') (hm : m.Orderly V w) (hvalid : w.Valid)
    (hids : w.DistinctIds)
    (hcap : w.added.length ≤ V.capacity) :
    ∃ as, Lts.Run (FairShare.Step (slackIn V w)) (m.view V) as (m'.view V) ∧
      ∀ p, .finish p ∈ as → p ∈ m'.completedTasks := by
  induction h with
  | refl => exact ⟨[], .nil _, by simp⟩
  | tail hbs hb ih =>
    obtain ⟨as, hrun, hfin⟩ := ih
    obtain ⟨as', hrun', hfin'⟩ := hb.refines (Blocks.orderly hbs hvalid hm) hids hcap
    refine ⟨as ++ as', hrun.trans hrun', fun p hp => ?_⟩
    rcases List.mem_append.1 hp with hp | hp
    · exact hb.completedTasks_subset (hfin p hp)
    · exact hfin' p hp

variable {slot : Fin 1 → Unit}

omit [LawfulScheduler σ] in
/-- On one core, `dispatch_next` dispatches a ready task or does nothing. -/
theorem Next.blocks {c : Fin 1} (h : Next cfg slot c m m') (hc : m.runningTasks 0 = none) :
    Blocks V cfg m m' := by
  obtain rfl : c = 0 := Subsingleton.elim _ _
  cases h with
  | idle => rw [clearCore_eq_self m 0 hc]
  | own hs => exact .single (.dispatch hc hs)
  | steal hb => exact absurd rfl hb

/-- **Handling an event is a sequence of blocks.** -/
theorem Move.blocks (h : Move cfg slot m e m') (he : m.events.IsNext e) (hm : m.Orderly V w)
    (hslice : m.SlicePending) : Blocks V cfg m m' := by
  cases h with
  | skip hna => exact .single (.skip he hna)
  | queued harr => exact .single (.arrive he harr)
  | @woken c _ harr hidle hn =>
    obtain rfl : c = 0 := Subsingleton.elim _ _
    exact .head (.arrive he harr) (hn.blocks hidle)
  | @preempted c p _ harr hc _ _ hn =>
    obtain rfl : c = 0 := Subsingleton.elim _ _
    have hidle : ((m.pop e).enqueue (slot 0) e.task |>.yieldCore
        (slot 0) 0 p).countSwitch.runningTasks
        0 = none := by
      rw [countSwitch_runningTasks, yieldCore_runningTasks, setAt_self]
    have hready : e.task ∈ ((m.pop e).enqueue (slot 0) e.task).ready () :=
      mem_ready_enqueue.2 (.inl ⟨rfl, rfl⟩)
    have hnow : (((m.pop e).enqueue (slot 0) e.task).heap e.task).arrivalTime = e.time := by
      rw [arrivalTime_congr fixed_enqueue]
      exact (hm.announced e he.1 harr).symm
    have hx : ((m.pop e).enqueue (slot 0) e.task).elapsed 0
        ≤ ((m.pop e).enqueue (slot 0) e.task).granted 0 := elapsed_le_granted hslice he hc
    exact .head (.arrive he harr) (.head (.yield hc hx (.inr ⟨e.task, hready, hnow⟩))
      (.head .countSwitch (hn.blocks hidle)))
  | expired hts hc hn =>
    have hcore : e.coreId = 0 := Subsingleton.elim _ _
    rw [hcore] at hc hn
    have hidle : ((m.pop e).settle (slot 0) 0 e.task).runningTasks 0 = none := by
      rw [settle_runningTasks, setAt_self]
    refine .head (.skip he (by simp [hts])) (.trans ?_ (hn.blocks hidle))
    have hx : (m.pop e).elapsed 0 ≤ (m.pop e).granted 0 := elapsed_le_granted hslice he hc
    have hlate : ((m.pop e).heap e.task).arrivalTime < (m.pop e).currentTime := hm.late e he.1 hts
    rw [settle_eq]
    split
    next hdone => exact .single (.finish hc hx hdone hlate)
    next => exact .single (.yield hc hx (.inl hlate))

section Runs

variable {scheduler : σ}

omit [LawfulScheduler σ] in
theorem orderly_init (hgood : V.Good scheduler) (hempty : readyTasks scheduler = [])
    (hvalid : w.Valid) : (init (fun _ => scheduler) w : Machine σ Unit 1).Orderly V w := by
  refine ⟨books_init (fun _ => hempty) hvalid, fun p => (places_init (fun _ => hempty) p).le,
    fun p => rfl, ⟨hgood, le_rfl, fun r hr => ?_, ?_, ?_, fun r _ => ?_, ?_⟩, fun e he _ => ?_,
    fun e he ht => ?_, fun p => le_rfl⟩
  · rw [ready, init, hempty] at hr
    cases hr
  · rintro r ⟨⟩
  · rintro r ⟨⟩
  · show (-1 : ℚ) < 0
    norm_num
  · rintro r ⟨⟩
  · obtain ⟨p, -, rfl⟩ := List.mem_map.1 he
    rfl
  · obtain ⟨p, -, rfl⟩ := List.mem_map.1 he
    cases ht

theorem orderly_of_reachable (hgood : V.Good scheduler) (hempty : readyTasks scheduler = [])
    (hvalid : w.Valid) (h : Lts.Reachable (Step cfg Simulator.slot)
      (init (fun _ => scheduler) w) m) :
    m.Orderly V w := by
  refine h.induction (I := fun m => m.Orderly V w) (orderly_init hgood hempty hvalid) ?_
  intro s e t hs hm hstep
  exact (hstep.2.2.blocks hstep.1 hm (slicePending_of_reachable hs)).orderly hvalid hm

theorem blocks_of_run (hgood : V.Good scheduler) (hempty : readyTasks scheduler = [])
    (hvalid : w.Valid) (h : Lts.Reachable (Step cfg Simulator.slot) (init (fun _ => scheduler) w) m)
    {es : List (Event 1)} (hrun : Lts.Run (Step cfg Simulator.slot) m es m') :
    Blocks V cfg m m' := by
  refine hrun.induction_of_reachable (I := Blocks V cfg m) h .refl ?_
  intro s e t hs hm hstep
  exact hm.trans (hstep.2.2.blocks hstep.1 (orderly_of_reachable hgood hempty hvalid hs)
    (slicePending_of_reachable hs))

end Runs

end Machine

end SchedSim
