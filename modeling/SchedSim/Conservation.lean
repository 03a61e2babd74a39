import SchedSim.Moves
import SchedSim.Schedulers.Factory
import Mathlib.Algebra.BigOperators.Group.Finset.Piecewise
import Mathlib.Algebra.Order.BigOperators.Group.Finset

/-!
# No task is lost or duplicated

`Machine.places m p` counts where task `p` stands: as an unhandled arrival, in
the ready queues, on cores, and among the completed tasks.

* `Move.places_spec` — no step raises the count, whatever the ids of the tasks, and
  none changes it when they are distinct.  The difference is `remove_task`, which
  removes by id.
* `conservation_singleQueue`, `conservation_multiQueue` — in every
  reachable state every added task is in exactly one place.
-/

namespace SchedSim

theorem sum_setAt {α β : Type} [Fintype α] [DecidableEq α] (f : α → β) (a : α) (v : β)
    (g : β → ℕ) : ∑ x, g (setAt f a v x) + g (f a) = ∑ x, g (f x) + g v := by
  rw [← Finset.add_sum_erase _ _ (Finset.mem_univ a),
    ← Finset.add_sum_erase _ (fun x => g (f x)) (Finset.mem_univ a), setAt_self]
  have h : ∑ x ∈ Finset.univ.erase a, g (setAt f a v x) = ∑ x ∈ Finset.univ.erase a, g (f x) :=
    Finset.sum_congr rfl fun x hx => by rw [setAt_of_ne _ _ _ (Finset.ne_of_mem_erase hx)]
  omega

namespace Machine

variable {σ Q : Type} [Scheduler σ] [DecidableEq Q] [Fintype Q] {n : ℕ}

/-! ## Counting -/

/-- How often a task stands in the ready queues. -/
def waiting (m : Machine σ Q n) (p : TaskPtr) : ℕ := ∑ q, (m.ready q).count p

/-- The cores a task runs on. -/
def coresOf (m : Machine σ Q n) (p : TaskPtr) : Finset (Fin n) :=
  Finset.univ.filter fun c => m.runningTasks c = some p

/-- In how many places a task stands. -/
def places (m : Machine σ Q n) (p : TaskPtr) : ℕ :=
  m.events.arrivals.count p + m.waiting p + (m.coresOf p).card + m.completedTasks.count p

omit [DecidableEq Q] in
/-- A task that stands in no place is in none of the containers. -/
theorem places_eq_zero {m : Machine σ Q n} {p : TaskPtr} : m.places p = 0 ↔
    (∀ e ∈ m.events, e.type = .arrival → e.task ≠ p) ∧ (∀ q, p ∉ m.ready q) ∧
      (∀ c, m.runningTasks c ≠ some p) ∧ p ∉ m.completedTasks := by
  simp only [places, waiting, coresOf, Nat.add_eq_zero_iff, Finset.sum_eq_zero_iff,
    Finset.card_eq_zero, Finset.filter_eq_empty_iff, List.count_eq_zero, Finset.mem_univ,
    forall_true_left, EventQueue.mem_arrivals, and_assoc, not_exists, not_and]

section Waiting

variable {m : Machine σ Q n} {q b : Q} {c : Fin n} {p r : TaskPtr}

omit [DecidableEq Q] in
theorem count_ready_le_waiting (m : Machine σ Q n) (q : Q) (p : TaskPtr) :
    (m.ready q).count p ≤ m.waiting p :=
  Finset.single_le_sum (f := fun q => (m.ready q).count p) (fun _ _ => Nat.zero_le _)
    (Finset.mem_univ q)

omit [DecidableEq Q] in
theorem waiting_pos : 0 < m.waiting p ↔ ∃ q, p ∈ m.ready q := by
  simp only [waiting, Finset.sum_pos_iff, Finset.mem_univ, true_and, List.count_pos_iff]

/-- How `waiting` changes when one queue gains a task. -/
theorem waiting_of_count {m' : Machine σ Q n}
    (h : ∀ q', (m'.ready q').count r = (m.ready q').count r + if q' = q ∧ r = p then 1 else 0) :
    m'.waiting r = m.waiting r + if r = p then 1 else 0 := by
  have hsum : ∑ q', (if q' = q ∧ r = p then 1 else 0) = if r = p then 1 else 0 := by
    by_cases hr : r = p <;> simp [hr]
  simp only [waiting, h, Finset.sum_add_distrib, hsum]

/-- The tasks lost from a queue when a task is removed by its id, apart from the
task itself. -/
theorem waiting_removeReady [LawfulScheduler σ] :
    (m.removeReady q p).waiting r
      + (if (m.heap r).id = (m.heap p).id then (m.ready q).count r else 0) = m.waiting r := by
  have h := sum_setAt m.schedulers q (removeTask (m.schedulers q) m.heap (m.heap p).id)
    fun s => (readyTasks s).count r
  have hwait : (m.removeReady q p).waiting r = ∑ q', (readyTasks (setAt m.schedulers q
      (removeTask (m.schedulers q) m.heap (m.heap p).id) q')).count r := rfl
  rw [hwait]
  simp only [waiting, ready]
  split
  next hid =>
    rw [← hid, count_removeTask_self] at h
    rw [hid] at h
    exact h
  next hid =>
    rw [count_removeTask hid] at h
    omega

variable [LawfulScheduler σ]

theorem waiting_enqueue : (m.enqueue q p).waiting r = m.waiting r + if r = p then 1 else 0 :=
  waiting_of_count fun _ => count_ready_enqueue

theorem waiting_charge : (m.charge q c p).waiting r = m.waiting r :=
  Finset.sum_congr rfl fun _ _ => count_ready_charge

theorem waiting_requeue : (m.requeue q c p).waiting r = m.waiting r + if r = p then 1 else 0 :=
  waiting_of_count fun _ => count_ready_requeue

theorem waiting_yieldCore :
    (m.yieldCore q c p).waiting r = m.waiting r + if r = p then 1 else 0 :=
  waiting_of_count fun _ => count_ready_yieldCore

theorem waiting_migrate : (m.migrate b q p).waiting r
    = (m.removeReady b p).waiting r + if r = p then 1 else 0 :=
  waiting_of_count fun _ => count_ready_migrate

end Waiting

section Cores

variable {m : Machine σ Q n} {c : Fin n} {p r : TaskPtr}

omit [Scheduler σ] [DecidableEq Q] [Fintype Q] in
theorem card_coresOf (m : Machine σ Q n) (r : TaskPtr) :
    (m.coresOf r).card = ∑ c, if m.runningTasks c = some r then 1 else 0 :=
  Finset.card_filter _ _

omit [Scheduler σ] [DecidableEq Q] [Fintype Q] in
/-- A busy core becomes idle. -/
theorem card_coresOf_clear {m' : Machine σ Q n} (hc : m.runningTasks c = some p)
    (h : m'.runningTasks = setAt m.runningTasks c none) :
    (m'.coresOf r).card + (if r = p then 1 else 0) = (m.coresOf r).card := by
  have hsum := sum_setAt m.runningTasks c none fun x => if x = some r then 1 else 0
  rw [card_coresOf, card_coresOf, h]
  simp only [hc, Option.some.injEq, reduceCtorEq, if_false, eq_comm (a := p)] at hsum
  omega

omit [Scheduler σ] [DecidableEq Q] [Fintype Q] in
/-- An idle core becomes busy. -/
theorem card_coresOf_assign {m' : Machine σ Q n} (hc : m.runningTasks c = none)
    (h : m'.runningTasks = setAt m.runningTasks c (some p)) :
    (m'.coresOf r).card = (m.coresOf r).card + if r = p then 1 else 0 := by
  have hsum := sum_setAt m.runningTasks c (some p) fun x => if x = some r then 1 else 0
  rw [card_coresOf, card_coresOf, h]
  simp only [hc, Option.some.injEq, reduceCtorEq, if_false, eq_comm (a := p)] at hsum
  omega

omit [DecidableEq Q] in
/-- A task on a core is in no ready queue, if it stands in one place only. -/
theorem waiting_eq_zero (hone : m.places p ≤ 1) (hc : m.runningTasks c = some p) :
    m.waiting p = 0 := by
  have : 0 < (m.coresOf p).card := Finset.card_pos.2 ⟨c, by simpa [coresOf] using hc⟩
  simp only [places] at hone
  omega

omit [DecidableEq Q] in
/-- A task that stands in one place waits in one queue only. -/
theorem ready_unique (hone : m.places p ≤ 1) (hq : p ∈ m.ready q)
    (hq' : p ∈ m.ready q') : q = q' := by
  classical
  by_contra hne
  have hsum : (m.ready q).count p + (m.ready q').count p ≤ m.waiting p :=
    (Finset.sum_pair hne (f := fun q => (m.ready q).count p)).symm.trans_le
      (Finset.sum_le_sum_of_subset (Finset.subset_univ _))
  have hpos := List.count_pos_iff.2 hq
  have hpos' := List.count_pos_iff.2 hq'
  rw [places] at hone
  omega

omit [DecidableEq Q] in
/-- A task on a core waits in no queue. -/
theorem not_ready_of_running (hone : m.places p ≤ 1) (hc : m.runningTasks c = some p)
    (q : Q) : p ∉ m.ready q := by
  intro hq
  have := waiting_pos.2 ⟨q, hq⟩
  rw [waiting_eq_zero hone hc] at this
  exact lt_irrefl 0 this

omit [DecidableEq Q] in
/-- A task runs on one core only. -/
theorem core_unique (hone : m.places p ≤ 1) (hc : m.runningTasks c = some p)
    (hd : m.runningTasks d = some p) : c = d := by
  have hcard : (m.coresOf p).card ≤ 1 := by
    rw [places] at hone
    omega
  exact Finset.card_le_one.1 hcard c (by simpa [coresOf] using hc) d (by simpa [coresOf] using hd)

end Cores

/-! ## What the blocks do to the count -/

section Blocks

variable [LawfulScheduler σ] {m : Machine σ Q n} {e : Event n} {q b : Q} {c : Fin n}
  {p r : TaskPtr} {cfg : SimConfig} {x : ℚ}

omit [DecidableEq Q] [LawfulScheduler σ] in
theorem places_pop (he : e ∈ m.events) : m.places r
    = (m.pop e).places r + if e.type = .arrival ∧ e.task = r then 1 else 0 := by
  have h := EventQueue.count_arrivals_erase m.events he r
  have hw : (m.pop e).waiting r = m.waiting r := rfl
  have hc : (m.pop e).coresOf r = m.coresOf r := rfl
  simp only [places, pop_events, pop_completedTasks, hw, hc]
  omega

omit [DecidableEq Q] [LawfulScheduler σ] in
theorem places_pop_le (he : e ∈ m.events) (hone : ∀ r, m.places r ≤ 1) (r : TaskPtr) :
    (m.pop e).places r ≤ 1 := by
  have := places_pop (r := r) he
  have := hone r
  omega

omit [DecidableEq Q] [LawfulScheduler σ] in
/-- A task that is yet to arrive stands in no other place. -/
theorem places_pop_arrival (he : e ∈ m.events) (harr : e.type = .arrival)
    (hone : ∀ r, m.places r ≤ 1) : (m.pop e).places e.task = 0 := by
  have hpop := places_pop (r := e.task) he
  rw [if_pos ⟨harr, rfl⟩] at hpop
  have := hone e.task
  omega

theorem places_enqueue :
    (m.enqueue q p).places r = m.places r + if r = p then 1 else 0 := by
  have hc : (m.enqueue q p).coresOf r = m.coresOf r := rfl
  simp only [places, enqueue_events, enqueue_completedTasks, waiting_enqueue, hc]
  omega

omit [DecidableEq Q] [LawfulScheduler σ] in
theorem places_countSwitch : m.countSwitch.places r = m.places r := rfl

theorem places_charge : (m.charge q c p).places r = m.places r := by
  have hc : (m.charge q c p).coresOf r = m.coresOf r := rfl
  simp only [places, charge_events, charge_completedTasks, waiting_charge, hc]

omit [DecidableEq Q] [LawfulScheduler σ] in
theorem places_clearCore (hc : m.runningTasks c = some p) :
    (m.clearCore c).places r + (if r = p then 1 else 0) = m.places r := by
  have h := card_coresOf_clear (r := r) hc (clearCore_runningTasks m c)
  have hw : (m.clearCore c).waiting r = m.waiting r := rfl
  have hev : (m.clearCore c).events = m.events := rfl
  have hcomp : (m.clearCore c).completedTasks = m.completedTasks := rfl
  simp only [places, hw, hev, hcomp]
  omega

omit [DecidableEq Q] [LawfulScheduler σ] in
theorem places_finish (hc : m.runningTasks c = some p) :
    (m.finish c p).places r = m.places r := by
  have h := card_coresOf_clear (r := r) hc (finish_runningTasks m c p)
  have hcount : (m.completedTasks ++ [p]).count r
      = m.completedTasks.count r + if r = p then 1 else 0 := by
    rw [List.count_append, List.count_singleton]
    simp [eq_comm (a := p)]
  have hw : (m.finish c p).waiting r = m.waiting r := rfl
  simp only [places, finish_events, finish_completedTasks, hcount, hw]
  omega

theorem places_requeue (hc : m.runningTasks c = some p) :
    (m.requeue q c p).places r = m.places r := by
  have h := card_coresOf_clear (r := r) hc (requeue_runningTasks m q c p)
  simp only [places, requeue_events, requeue_completedTasks, waiting_requeue]
  omega

theorem places_yieldCore (hc : m.runningTasks c = some p) :
    (m.yieldCore q c p).places r = m.places r := by
  rw [yieldCore, places_requeue (by rw [charge_runningTasks, hc]), places_charge]

theorem places_settle (hc : m.runningTasks c = some p) :
    (m.settle q c p).places r = m.places r := by
  rw [settle_eq]
  split
  · rw [places_finish (by rw [charge_runningTasks, hc]), places_charge]
  · exact places_yieldCore hc

theorem places_removeReady : (m.removeReady q p).places r
    + (if (m.heap r).id = (m.heap p).id then (m.ready q).count r else 0) = m.places r := by
  have hr := waiting_removeReady (m := m) (q := q) (p := p) (r := r)
  have hc : (m.removeReady q p).coresOf r = m.coresOf r := rfl
  have hev : (m.removeReady q p).events = m.events := rfl
  have hcomp : (m.removeReady q p).completedTasks = m.completedTasks := rfl
  simp only [places, hev, hcomp, hc]
  omega

/-- A dispatch moves the task to the core and loses every other copy of its id. -/
theorem places_dispatch (cfg : SimConfig) (x : ℚ) (hc : m.runningTasks c = none) :
    (m.dispatch cfg q c p x).places r
        + (if (m.heap r).id = (m.heap p).id then (m.ready q).count r else 0)
      = m.places r + if r = p then 1 else 0 := by
  have h := card_coresOf_assign (r := r) hc (dispatch_runningTasks m q c p cfg x)
  have hw : (m.dispatch cfg q c p x).waiting r = (m.removeReady q p).waiting r := rfl
  have hr := waiting_removeReady (m := m) (q := q) (p := p) (r := r)
  have harr : (m.dispatch cfg q c p x).events.arrivals = m.events.arrivals :=
    EventQueue.arrivals_schedule _ (by simp)
  simp only [places, harr, dispatch_completedTasks, hw]
  omega

/-- So does a migration, to another queue. -/
theorem places_migrate :
    (m.migrate b q p).places r
        + (if (m.heap r).id = (m.heap p).id then (m.ready b).count r else 0)
      = m.places r + if r = p then 1 else 0 := by
  have hc : (m.migrate b q p).coresOf r = m.coresOf r := rfl
  have hr := waiting_removeReady (m := m) (q := b) (p := p) (r := r)
  simp only [places, migrate_events, migrate_completedTasks, waiting_migrate, hc]
  omega

end Blocks

/-! ## One step -/

section Step

variable [LawfulScheduler σ] {m m' : Machine σ Q n} {e : Event n} {q : Q} {c : Fin n}
  {r : TaskPtr} {cfg : SimConfig} {slot : Fin n → Q}

/-- No other task that stands anywhere has the id of `r`. -/
def SoleId (m : Machine σ Q n) (r : TaskPtr) : Prop :=
  ∀ p, 0 < m.places p → (m.heap p).id = (m.heap r).id → p = r

omit [DecidableEq Q] [LawfulScheduler σ] in
theorem SoleId.of_places_le (h : m.SoleId r) (hle : ∀ p, m'.places p ≤ m.places p)
    (hfixed : ∀ p, (m'.heap p).fixed = (m.heap p).fixed) : m'.SoleId r := by
  intro p hp hid
  have hids : ∀ t, (m'.heap t).id = (m.heap t).id :=
    fun t => congrArg (fun f => f.1.id) (hfixed t)
  rw [hids, hids] at hid
  exact h p (hp.trans_le (hle p)) hid

omit [DecidableEq Q] [LawfulScheduler σ] in
/-- What is lost when a ready task is removed by its id: at least the task
itself, and nothing else if ids are distinct. -/
theorem lost_spec {p : TaskPtr} (hp : p ∈ m.ready q) :
    (if r = p then 1 else 0)
        ≤ (if (m.heap r).id = (m.heap p).id then (m.ready q).count r else 0) ∧
      (m.SoleId r → m.places r ≤ 1 →
        (if (m.heap r).id = (m.heap p).id then (m.ready q).count r else 0)
          = if r = p then 1 else 0) := by
  have hpos : 0 < (m.ready q).count p := List.count_pos_iff.2 hp
  have hle : ∀ t, (m.ready q).count t ≤ m.places t := by
    intro t
    have := m.count_ready_le_waiting q t
    simp only [places]
    omega
  constructor
  · split
    next hr =>
      subst hr
      simpa using hpos
    next => exact Nat.zero_le _
  · intro hsole hone
    by_cases hr : r = p
    · subst hr
      have := hle r
      simp only [if_true]
      omega
    · have hid : (m.heap r).id ≠ (m.heap p).id := by
        intro hid
        exact hr (hsole p (hpos.trans_le (hle p)) hid.symm).symm
      simp [hr, hid]

omit [DecidableEq Q] [Fintype Q] in
theorem mem_ready_of_schedule {p : TaskPtr} {x : ℚ}
    (h : schedule (m.schedulers q) m.heap = ⟨some p, x⟩) : p ∈ m.ready q :=
  schedule_mem _ m.heap p (by rw [h])

theorem Next.places_spec (h : Next cfg slot c m m') (hc : m.runningTasks c = none) :
    m'.places r ≤ m.places r ∧ (m.SoleId r → m.places r ≤ 1 → m'.places r = m.places r) := by
  cases h with
  | idle => rw [clearCore_eq_self m c hc]; exact ⟨le_rfl, fun _ _ => rfl⟩
  | @own p x hs =>
    have hp := mem_ready_of_schedule hs
    have hd := places_dispatch (q := slot c) (p := p) (r := r) cfg x hc
    obtain ⟨hlost, hexact⟩ := lost_spec (r := r) hp
    refine ⟨by omega, fun hsole hone => ?_⟩
    have := hexact hsole hone
    omega
  | @steal b stolen p x hb _ _ hst hs =>
    have hstolen : stolen ∈ m.ready b := schedule_mem _ m.heap stolen hst
    have hp := mem_ready_of_schedule hs
    have hm := fun t => places_migrate (m := m) (b := b) (q := slot c) (p := stolen) (r := t)
    have hd := places_dispatch (q := slot c) (p := p) (r := r)
      (m := m.migrate b (slot c) stolen) (c := c) cfg x hc
    have hle : ∀ t, (m.migrate b (slot c) stolen).places t ≤ m.places t := by
      intro t
      have := (lost_spec (r := t) hstolen).1
      have := hm t
      omega
    obtain ⟨hlost, hexact⟩ := lost_spec (r := r) hp
    refine ⟨by have := hle r; omega, fun hsole hone => ?_⟩
    have hmr : (m.migrate b (slot c) stolen).places r = m.places r := by
      have := (lost_spec hstolen).2 hsole hone
      have := hm r
      omega
    have hsole' : (m.migrate b (slot c) stolen).SoleId r :=
      hsole.of_places_le hle fun t => fixed_migrate
    have := hexact hsole' (by omega)
    omega

/-- No step raises the number of places a task stands in, and none changes it
when no other task has its id. -/
theorem Move.places_spec (h : Move cfg slot m e m') (he : e ∈ m.events) :
    m'.places r ≤ m.places r ∧ (m.SoleId r → m.places r ≤ 1 → m'.places r = m.places r) := by
  have hpop := fun t => places_pop (r := t) he
  -- what comes before `dispatch_next` moves tasks about, but neither adds nor loses one
  have key : ∀ {m₁ : Machine σ Q n} {c : Fin n}, Next cfg slot c m₁ m' →
      (∀ t, m₁.places t = m.places t) → (∀ t, (m₁.heap t).fixed = (m.heap t).fixed) →
      m₁.runningTasks c = none →
      m'.places r ≤ m.places r ∧ (m.SoleId r → m.places r ≤ 1 → m'.places r = m.places r) := by
    intro m₁ c hn heq hfixed hc
    obtain ⟨hle, hexact⟩ := hn.places_spec (r := r) hc
    rw [heq r] at hle hexact
    exact ⟨hle, fun hsole hone =>
      hexact (hsole.of_places_le (fun t => (heq t).le) hfixed) hone⟩
  cases h with
  | skip hna _ =>
    have : (m.pop e).places r = m.places r := by simp [hpop r, hna]
    exact ⟨this.le, fun _ _ => this⟩
  | @queued q harr hbusy =>
    have : ((m.pop e).enqueue q e.task).places r = m.places r := by
      rw [places_enqueue, hpop r]
      simp [harr, eq_comm]
    exact ⟨this.le, fun _ _ => this⟩
  | @woken c _ harr hidle hn =>
    refine key hn (fun t => ?_) (fun t => ?_) hidle
    · rw [places_enqueue, hpop t]
      simp [harr, eq_comm]
    · rw [fixed_enqueue, pop_heap]
  | @preempted c p _ harr hc hbusy _ hn =>
    have hrun : ((m.pop e).enqueue (slot c) e.task).runningTasks c = some p := hc
    refine key hn (fun t => ?_) (fun t => ?_) ?_
    · rw [places_countSwitch, places_yieldCore hrun, places_enqueue, hpop t]
      simp [harr, eq_comm]
    · rw [countSwitch_heap, fixed_yieldCore, fixed_enqueue, pop_heap]
    · rw [countSwitch_runningTasks, yieldCore_runningTasks, setAt_self]
  | expired hts hc hn =>
    have hrun : (m.pop e).runningTasks e.coreId = some e.task := hc
    refine key hn (fun t => ?_) (fun t => ?_) ?_
    · rw [places_settle hrun, hpop t]
      simp [hts]
    · rw [fixed_settle, pop_heap]
    · rw [settle_runningTasks, setAt_self]

end Step

/-! ## Runs -/

section Runs

variable [LawfulScheduler σ] [NeZero n] {m : Machine σ Q n} {cfg : SimConfig} {slot : Fin n → Q}
  {schedulers : Q → σ} {w : Workload}

omit [Scheduler σ] [DecidableEq Q] [Fintype Q] [LawfulScheduler σ] in
theorem arrivals_init : (init schedulers w : Machine σ Q n).events.arrivals = w.added := by
  simp [init, EventQueue.arrivals, List.filter_map, Function.comp_def]

omit [DecidableEq Q] [LawfulScheduler σ] in
/-- At the start every added task stands in one place: its arrival. -/
theorem places_init (hempty : ∀ q, readyTasks (schedulers q) = []) (p : TaskPtr) :
    (init schedulers w : Machine σ Q n).places p = w.added.count p := by
  have hw : (init schedulers w : Machine σ Q n).waiting p = 0 :=
    Finset.sum_eq_zero fun q _ => by simp [ready, init, hempty]
  have hc : (init schedulers w : Machine σ Q n).coresOf p = ∅ := by
    simp [coresOf, init]
  rw [places, arrivals_init, hw, hc]
  simp [init]

/-- Whatever the ids are, no task ever stands in two places. -/
theorem places_le_count (hempty : ∀ q, readyTasks (schedulers q) = [])
    (h : Lts.Reachable (Step cfg slot) (init schedulers w) m) (p : TaskPtr) :
    m.places p ≤ w.added.count p := by
  refine h.induction (I := fun m => m.places p ≤ w.added.count p) (places_init hempty p).le ?_
  intro s e t _ ih hstep
  exact (hstep.2.2.places_spec hstep.1.1).1.trans ih

/-- With distinct ids, every added task always stands in exactly one place. -/
theorem places_eq_count (hempty : ∀ q, readyTasks (schedulers q) = []) (hids : w.DistinctIds)
    (h : Lts.Reachable (Step cfg slot) (init schedulers w) m) (p : TaskPtr) :
    m.places p = w.added.count p := by
  refine h.induction (I := fun m => m.places p = w.added.count p) (places_init hempty p) ?_
  intro s e t hs ih hstep
  have hone : w.added.count p ≤ 1 := List.nodup_iff_count_le_one.1 w.nodup p
  have hmove := hstep.2.2.places_spec (r := p) hstep.1.1
  by_cases hp : p ∈ w.added
  · rw [hmove.2 ?_ (ih.trans_le hone), ih]
    intro q hq hid
    have hmem : q ∈ w.added := List.count_pos_iff.1 (hq.trans_le (places_le_count hempty hs q))
    have hfixed := fun r => congrArg (fun f => f.1.id) (fixed_of_reachable hs r)
    exact hids q hmem p hp ((hfixed q).symm.trans (hid.trans (hfixed p)))
  · rw [List.count_eq_zero.2 hp] at ih ⊢
    omega

end Runs

end Machine

/-! ## The two simulators -/

/-- In every state of the single-queue simulator every added task is in exactly
one place, and once there. -/
theorem conservation_singleQueue {n : ℕ} [NeZero n] (kind : SchedulerKind) (cfg : SimConfig)
    (w : Workload) (hids : w.DistinctIds) (s : Simulator kind.State n)
    (hs : Lts.Reachable (Simulator.Step cfg) (Simulator.init kind.make w) s) :
    ∀ p ∈ w.added, s.events.arrivals.count p + (s.ready ()).count p
      + (Finset.univ.filter fun c => s.runningTasks c = some p).card
      + s.completedTasks.count p = 1 := by
  intro p hp
  have h := Machine.places_eq_count (fun _ => kind.readyTasks_make) hids
    (hs.simulate (f := id) fun _ _ _ => Simulator.step_machine) p
  rw [List.count_eq_one_of_mem w.nodup hp] at h
  simpa [Machine.places, Machine.waiting, Machine.coresOf] using h

theorem conservation_singleQueue_pair :
    let s := Simulator.turns (n := 2) { stopTime := 50 } 3
      (Simulator.init (SchedulerKind.mlfq {}).make .pair)
    ∀ p ∈ Workload.pair.added, s.events.arrivals.count p + (s.ready ()).count p
      + (Finset.univ.filter fun c => s.runningTasks c = some p).card
      + s.completedTasks.count p = 1 :=
  conservation_singleQueue (.mlfq {}) _ .pair (by decide) _ (Simulator.reachable_turns _ 3 _)

/-- The same for the multi-queue simulator, whatever the load balancer does and
whether or not idle cores steal. -/
theorem conservation_multiQueue {n : ℕ} [NeZero n] (kind : SchedulerKind)
    (balancer : LoadBalancer) (cfg : MultiConfig) (w : Workload) (hids : w.DistinctIds)
    (s : MultiCoreSimulator kind.State n)
    (hs : Lts.Reachable (MultiCoreSimulator.Step cfg)
      (MultiCoreSimulator.init kind.make balancer w) s) :
    ∀ p ∈ w.added, s.events.arrivals.count p + ∑ c, (s.ready c).count p
      + (Finset.univ.filter fun c => s.runningTasks c = some p).card
      + s.completedTasks.count p = 1 := by
  intro p hp
  have h := Machine.places_eq_count (fun _ => kind.readyTasks_make) hids
    (hs.simulate (f := MultiCoreSimulator.toMachine) fun _ _ _ => MultiCoreSimulator.step_machine) p
  rwa [List.count_eq_one_of_mem w.nodup hp] at h

theorem conservation_multiQueue_pair :
    let s := MultiCoreSimulator.turns (n := 2) { stopTime := 50 } 3
      (MultiCoreSimulator.init (SchedulerKind.cfs {}).make .leastLoaded .pair)
    ∀ p ∈ Workload.pair.added, s.events.arrivals.count p + ∑ c, (s.ready c).count p
      + (Finset.univ.filter fun c => s.runningTasks c = some p).card
      + s.completedTasks.count p = 1 :=
  conservation_multiQueue (.cfs {}) .leastLoaded _ .pair (by decide) _
    (MultiCoreSimulator.reachable_turns _ 3 _)

end SchedSim
