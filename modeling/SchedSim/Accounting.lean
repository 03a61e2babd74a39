import SchedSim.Conservation
import SchedSim.Slices

/-!
# Every millisecond of a task is accounted for

`Task.booked` is the instant up to which the arrival, the waiting time and the
CPU time of a task account for its life.  `Machine.Books` says how far that is
in each place a task can be in: up to the moment it became ready, up to its
dispatch, up to its completion.

* `Move.books` — every step keeps the books.
* `Machine.Accounted` — what follows for one task: the three identities, and
  that `Task::execute` never has to clamp.
* `timeAccounting` — it holds of every added task in every reachable state of
  either simulator.
-/

namespace SchedSim

/-! ## One task -/

namespace Task

/-- The books of the task are complete up to an instant. -/
structure BalancedAt (t : Task) (time : ℚ) : Prop where
  booked : t.booked = time
  remaining : 0 ≤ t.remainingTime
  served : 0 ≤ t.served
  waited : 0 ≤ t.waitTime

/-- In a ready queue: the books are complete up to the moment it was put there. -/
structure Waits (t : Task) (now : ℚ) : Prop where
  ready : t.inReadyQueue = true
  balanced : t.BalancedAt t.readyEnterTime
  past : t.readyEnterTime ≤ now

/-- On a core: the books are complete up to the dispatch, and the slice granted
is not longer than what is left to do. -/
structure Runs (t : Task) (since now granted : ℚ) : Prop where
  balanced : t.BalancedAt since
  past : since ≤ now
  granted : granted ≤ t.remainingTime

/-- Completed: the books are complete up to the completion. -/
structure Done (t : Task) : Prop where
  balanced : t.BalancedAt t.completionTime
  finished : t.remainingTime ≤ 1 / 1000

variable {t u : Task} {time now now' since granted : ℚ}

/-! The policies cannot falsify the books: they never touch the ledger. -/

theorem BalancedAt.congr (h : t.BalancedAt time) (hu : u.ledger = t.ledger) :
    u.BalancedAt time := by
  refine ⟨?_, ?_, ?_, ?_⟩
  · rw [congrLedger Task.booked hu]
    exact h.booked
  · rw [congrLedger Task.remainingTime hu]
    exact h.remaining
  · rw [congrLedger Task.served hu]
    exact h.served
  · rw [congrLedger Task.waitTime hu]
    exact h.waited

theorem Waits.congr (h : t.Waits now) (hu : u.ledger = t.ledger) (hnow : now ≤ now') :
    u.Waits now' := by
  have henter := congrLedger Task.readyEnterTime hu
  refine ⟨?_, ?_, ?_⟩
  · rw [congrLedger Task.inReadyQueue hu]
    exact h.ready
  · rw [henter]
    exact h.balanced.congr hu
  · rw [henter]
    exact h.past.trans hnow

theorem Runs.congr (h : t.Runs since now granted) (hu : u.ledger = t.ledger) (hnow : now ≤ now') :
    u.Runs since now' granted := by
  refine ⟨h.balanced.congr hu, h.past.trans hnow, ?_⟩
  rw [congrLedger Task.remainingTime hu]
  exact h.granted

theorem Done.congr (h : t.Done) (hu : u.ledger = t.ledger) : u.Done := by
  refine ⟨?_, ?_⟩
  · rw [congrLedger Task.completionTime hu]
    exact h.balanced.congr hu
  · rw [congrLedger Task.remainingTime hu]
    exact h.finished

/-! What the timing methods do to the books. -/

theorem BalancedAt.markReady (h : t.BalancedAt now) : (t.markReady now).Waits now :=
  ⟨rfl, ⟨h.booked, h.remaining, h.served, h.waited⟩, le_rfl⟩

/-- What is charged is served in full, if no more is charged than is left. -/
theorem served_execute {x : ℚ} (hx : x ≤ t.remainingTime) :
    (t.execute x).served = t.served + x := by
  have hclamp : ¬t.remainingTime - x < 0 := by linarith
  have hr : (t.execute x).remainingTime = t.remainingTime - x := by
    simp only [Task.execute, if_neg hclamp]
  rw [served, hr, served]
  show t.executionTime - _ = _
  ring

/-- Charging the time since the dispatch brings the books up to date; nothing is
clamped, since no more is charged than is left. -/
theorem Runs.execute (h : t.Runs since now granted) (hx : now - since ≤ t.remainingTime) :
    (t.execute (now - since)).BalancedAt now := by
  have hb := h.balanced.booked
  have hs := served_execute hx
  have hr : (t.execute (now - since)).remainingTime
      = t.executionTime - (t.served + (now - since)) := by
    rw [← hs, served]
    show _ = t.executionTime - (t.executionTime - _)
    ring
  refine ⟨?_, ?_, ?_, h.balanced.waited⟩
  · rw [booked, hs]
    show t.arrivalTime + t.waitTime + _ = _
    simp only [booked] at hb
    linarith
  · rw [hr, served]
    linarith
  · rw [hs]
    linarith [h.balanced.served, h.past]

theorem BalancedAt.complete (h : t.BalancedAt now) (hc : t.isCompleted = true) :
    (t.complete now).Done :=
  ⟨⟨h.booked, h.remaining, h.served, h.waited⟩, of_decide_eq_true hc⟩

theorem remainingTime_markDispatched : (t.markDispatched now).remainingTime = t.remainingTime := by
  rw [markDispatched]
  split <;> rfl

theorem remainingTime_start : (t.start now).remainingTime = t.remainingTime := by
  rw [start]
  split <;> rfl

theorem served_markDispatched : (t.markDispatched now).served = t.served := by
  rw [markDispatched]
  split <;> rfl

theorem served_start : (t.start now).served = t.served := by
  rw [start]
  split <;> rfl

theorem waitTime_start : (t.start now).waitTime = t.waitTime := by
  rw [start]
  split <;> rfl

theorem booked_start : (t.start now).booked = t.booked := by
  rw [start]
  split <;> rfl

/-- Leaving the ready queue books the waiting time. -/
theorem Waits.dispatch (h : t.Waits now) : ((t.markDispatched now).start now).BalancedAt now := by
  have hpast : max 0 (now - t.readyEnterTime) = now - t.readyEnterTime :=
    max_eq_right (by linarith [h.past])
  have hb := h.balanced.booked
  refine ⟨?_, ?_, ?_, ?_⟩
  · rw [booked_start, markDispatched, h.ready]
    simp only [Bool.not_true, Bool.false_eq_true, if_false, hpast, booked, served] at hb ⊢
    linarith
  · rw [remainingTime_start, remainingTime_markDispatched]
    exact h.balanced.remaining
  · rw [served_start, served_markDispatched]
    exact h.balanced.served
  · rw [waitTime_start, markDispatched, h.ready]
    simp only [Bool.not_true, Bool.false_eq_true, if_false, hpast]
    linarith [h.balanced.waited, h.past]

end Task

/-! ## The books of a machine -/

namespace Machine

variable {σ Q : Type} [Scheduler σ] {n : ℕ}

/-- The books of one task, wherever it stands. -/
structure Booked (m : Machine σ Q n) (r : TaskPtr) : Prop where
  arrival : ∀ e ∈ m.events, e.type = .arrival → e.task = r → (m.heap r).BalancedAt e.time
  waiting : ∀ q, r ∈ m.ready q → (m.heap r).Waits m.currentTime
  running : ∀ c, m.runningTasks c = some r →
    (m.heap r).Runs (m.lastEventTime c) m.currentTime (m.granted c)
  completed : r ∈ m.completedTasks → (m.heap r).Done

/-- No pending event lies in the past, and the books of every task are right. -/
structure Books (m : Machine σ Q n) : Prop where
  clock : ∀ e ∈ m.events, m.currentTime ≤ e.time
  booked : ∀ r, m.Booked r

variable [DecidableEq Q] [Fintype Q] {m m' : Machine σ Q n} {e : Event n} {q b : Q} {c : Fin n}
  {p r : TaskPtr} {cfg : SimConfig} {slot : Fin n → Q} {x : ℚ}

omit [DecidableEq Q] in
/-- A task that stands nowhere has no books to keep. -/
theorem Booked.of_places_eq_zero (h : m.places r = 0) : m.Booked r := by
  obtain ⟨harr, hwait, hrun, hcomp⟩ := places_eq_zero.1 h
  exact ⟨fun e he ht hr => absurd hr (harr e he ht), fun q hq => absurd hq (hwait q),
    fun c hc => absurd hc (hrun c), fun hr => absurd hr hcomp⟩

omit [DecidableEq Q] [Fintype Q] in
/-- Only the ledger of the task and the places it stands in matter. -/
theorem Booked.congr (h : m.Booked r) (hledger : (m'.heap r).ledger = (m.heap r).ledger)
    (hev : ∀ e ∈ m'.events, e.type = .arrival → e ∈ m.events)
    (hready : ∀ q, r ∈ m'.ready q → ∃ q', r ∈ m.ready q')
    (hnow : m.currentTime ≤ m'.currentTime)
    (hrun : ∀ c, m'.runningTasks c = some r → m.runningTasks c = some r ∧
      m'.lastEventTime c = m.lastEventTime c ∧ m'.granted c = m.granted c)
    (hcomp : r ∈ m'.completedTasks → r ∈ m.completedTasks) : m'.Booked r := by
  refine ⟨fun e he ht hr => ?_, fun q hq => ?_, fun c hc => ?_, fun hr => ?_⟩
  · exact (h.arrival e (hev e he ht) ht hr).congr hledger
  · obtain ⟨q', hq'⟩ := hready q hq
    exact (h.waiting q' hq').congr hledger hnow
  · obtain ⟨hc', hlast, hgranted⟩ := hrun c hc
    rw [hlast, hgranted]
    exact (h.running c hc').congr hledger hnow
  · exact (h.completed (hcomp hr)).congr hledger

/-! ## What the blocks do to the books -/

omit [DecidableEq Q] [Fintype Q] in
theorem booked_pop (h : m.Booked r) (hnow : m.currentTime ≤ e.time) : (m.pop e).Booked r :=
  h.congr rfl (fun _ he' _ => List.mem_of_mem_erase he') (fun q hq => ⟨q, hq⟩) hnow
    (fun _ hc => ⟨hc, rfl, rfl⟩) id

variable [LawfulScheduler σ]

/-- A task with complete books may become ready. -/
theorem booked_enqueue (h : m.Booked r) (hp : m.places p = 0)
    (hb : (m.heap p).BalancedAt m.currentTime) : (m.enqueue q p).Booked r := by
  have hl := ledger_enqueue (m := m) (q := q) (p := p) (r := r)
  by_cases hr : r = p
  · subst hr
    obtain ⟨harr, hwait, hrun, hcomp⟩ := places_eq_zero.1 hp
    rw [if_pos rfl] at hl
    exact ⟨fun e he ht hr => absurd hr (harr e he ht),
      fun _ _ => hb.markReady.congr hl le_rfl, fun c hc => absurd hc (hrun c),
      fun hr => absurd hr hcomp⟩
  · rw [if_neg hr] at hl
    refine h.congr hl (fun _ he _ => he) (fun q' hq' => ?_) le_rfl (fun _ hc => ⟨hc, rfl, rfl⟩) id
    rcases mem_ready_enqueue.1 hq' with ⟨-, h⟩ | h
    · exact absurd h hr
    · exact ⟨q', h⟩

omit [Fintype Q] in
/-- Charging the task on a core completes its books. -/
theorem balancedAt_charge (h : m.Booked p) (hc : m.runningTasks c = some p)
    (hx : m.elapsed c ≤ (m.heap p).remainingTime) :
    ((m.charge q c p).heap p).BalancedAt m.currentTime := by
  have hl := ledger_charge (m := m) (q := q) (c := c) (p := p) (r := p)
  rw [if_pos rfl] at hl
  exact ((h.running c hc).execute hx).congr hl

/-- Taking the charged task off its core leaves the books of all others alone. -/
theorem booked_release (h : m.Booked r) (hc : m.runningTasks c = some p) (hone : m.places p ≤ 1) :
    ((m.charge q c p).clearCore c).Booked r := by
  by_cases hr : r = p
  · subst hr
    apply Booked.of_places_eq_zero
    have hclear := places_clearCore (m := m.charge q c r) (r := r) hc
    rw [if_pos rfl, places_charge] at hclear
    omega
  · have hl := ledger_charge (m := m) (q := q) (c := c) (p := p) (r := r)
    rw [if_neg hr] at hl
    refine h.congr hl (fun _ he _ => he) (fun q' hq' => ⟨q', mem_ready_charge.1 hq'⟩) le_rfl
      (fun c' hc' => ?_) id
    by_cases hcc : c' = c
    · subst hcc
      simp at hc'
    · exact ⟨by simpa [hcc] using hc', rfl, rfl⟩

/-- Once off its core, the charged task stands nowhere. -/
theorem places_release (hc : m.runningTasks c = some p) (hone : m.places p ≤ 1) :
    ((m.charge q c p).clearCore c).places p = 0 := by
  have hclear := places_clearCore (m := m.charge q c p) (r := p) hc
  rw [if_pos rfl, places_charge] at hclear
  omega

/-- A preempted task goes back to a queue. -/
theorem booked_yieldCore (h : ∀ r, m.Booked r) (hc : m.runningTasks c = some p)
    (hone : m.places p ≤ 1) (hx : m.elapsed c ≤ (m.heap p).remainingTime) :
    (m.yieldCore q c p).Booked r := by
  have hb := balancedAt_charge (q := q) (h p) hc hx
  have hl := ledger_requeue (m := m.charge q c p) (q := q) (c := c) (p := p) (r := r)
  by_cases hr : r = p
  · subst hr
    obtain ⟨harr, -, hrun, hcomp⟩ := places_eq_zero.1 (places_release (q := q) hc hone)
    rw [if_pos rfl] at hl
    have hcounted : (((m.charge q c r).heap r).incrementPreemptions).BalancedAt m.currentTime :=
      ⟨hb.booked, hb.remaining, hb.served, hb.waited⟩
    exact ⟨fun e he ht hr => absurd hr (harr e he ht),
      fun _ _ => hcounted.markReady.congr hl le_rfl, fun c hc => absurd hc (hrun c),
      fun hr => absurd hr hcomp⟩
  · rw [if_neg hr] at hl
    refine (booked_release (q := q) (h r) hc hone).congr hl (fun _ he _ => he)
      (fun q' hq' => ?_) le_rfl (fun _ hc => ⟨hc, rfl, rfl⟩) id
    rcases mem_ready_requeue.1 hq' with ⟨-, h⟩ | h
    · exact absurd h hr
    · exact ⟨q', h⟩

/-- A finished task is done. -/
theorem booked_finish (h : ∀ r, m.Booked r) (hc : m.runningTasks c = some p)
    (hone : m.places p ≤ 1) (hx : m.elapsed c ≤ (m.heap p).remainingTime)
    (hdone : ((m.charge q c p).heap p).isCompleted = true) :
    ((m.charge q c p).finish c p).Booked r := by
  have hb := balancedAt_charge (q := q) (h p) hc hx
  have hl := ledger_finish (m := m.charge q c p) (c := c) (p := p) (r := r)
  by_cases hr : r = p
  · subst hr
    obtain ⟨harr, hwait, hrun, -⟩ := places_eq_zero.1 (places_release (q := q) hc hone)
    rw [if_pos rfl] at hl
    exact ⟨fun e he ht hr => absurd hr (harr e he ht), fun q' hq' => absurd hq' (hwait q'),
      fun c hc => absurd hc (hrun c), fun _ => (hb.complete hdone).congr hl⟩
  · rw [if_neg hr] at hl
    refine (booked_release (q := q) (h r) hc hone).congr hl (fun _ he _ => he)
      (fun q' hq' => ⟨q', hq'⟩) le_rfl (fun _ hc => ⟨hc, rfl, rfl⟩) fun hcomp => ?_
    rw [finish_completedTasks, List.mem_append, List.mem_singleton] at hcomp
    exact hcomp.resolve_right hr

theorem booked_settle (h : ∀ r, m.Booked r) (hc : m.runningTasks c = some p)
    (hone : m.places p ≤ 1) (hx : m.elapsed c ≤ (m.heap p).remainingTime) :
    (m.settle q c p).Booked r := by
  rw [settle_eq]
  split
  next hdone => exact booked_finish h hc hone hx hdone
  next => exact booked_yieldCore h hc hone hx

/-- A dispatched task has its waiting time booked. -/
theorem booked_dispatch (h : m.Booked r) (hc : m.runningTasks c = none) (hp : p ∈ m.ready q)
    (hone : m.places p ≤ 1) : (m.dispatch cfg q c p x).Booked r := by
  have hl := ledger_dispatch (m := m) (q := q) (c := c) (p := p) (r := r) cfg x
  have harrivals : ∀ e' ∈ (m.dispatch cfg q c p x).events, e'.type = .arrival → e' ∈ m.events := by
    intro e' he' ht
    rcases List.mem_append.1 he' with he' | he'
    · exact he'
    · rw [List.mem_singleton.1 he'] at ht
      cases ht
  by_cases hr : r = p
  · subst hr
    have hpos : 0 < (m.ready q).count r := List.count_pos_iff.2 hp
    have hnone : (m.removeReady q r).places r = 0 := by
      have hrem := places_removeReady (m := m) (q := q) (p := r) (r := r)
      rw [if_pos rfl] at hrem
      omega
    obtain ⟨harr, hwait, hrun, hcomp⟩ := places_eq_zero.1 hnone
    rw [if_pos rfl] at hl
    have hb := (h.waiting q hp).dispatch
    refine ⟨fun e' he' ht hr => absurd hr (harr e' (harrivals e' he' ht) ht),
      fun q' hq' => absurd hq' (hwait q'), fun c' hc' => ?_, fun hr => absurd hr hcomp⟩
    by_cases hcc : c' = c
    · subst hcc
      rw [granted_dispatch_self, dispatch_lastEventTime, setAt_self]
      refine (Task.Runs.mk hb le_rfl ?_).congr hl le_rfl
      rw [Task.remainingTime_start, Task.remainingTime_markDispatched]
      exact min_le_right _ _
    · have hother : m.runningTasks c' = some r := by simpa [hcc] using hc'
      exact absurd hother (hrun c')
  · rw [if_neg hr] at hl
    refine h.congr hl harrivals (fun q' hq' => ⟨q', (mem_ready_removeReady.1 hq').1⟩) le_rfl
      (fun c' hc' => ?_) id
    have hcc : c' ≠ c := by
      rintro rfl
      simp [Ne.symm hr] at hc'
    exact ⟨by simpa [hcc] using hc', by simp [hcc], granted_dispatch_of_ne hcc⟩

omit [Fintype Q] in
theorem booked_migrate (h : m.Booked r) (hp : p ∈ m.ready b) : (m.migrate b q p).Booked r := by
  refine h.congr ledger_migrate (fun _ he _ => he) (fun q' hq' => ?_) le_rfl
    (fun _ hc => ⟨hc, rfl, rfl⟩) id
  rcases mem_ready_migrate.1 hq' with ⟨-, rfl⟩ | h
  · exact ⟨b, hp⟩
  · exact ⟨q', (mem_ready_removeReady.1 h).1⟩

/-! ## One step -/

theorem grant_nonneg (cfg : SimConfig) (x : ℚ) {remaining : ℚ} (h : 0 ≤ remaining) :
    0 ≤ grant cfg x remaining := by
  refine le_min ?_ h
  split
  next hx => exact hx.le
  next => exact cfg.defaultTimeSlice_pos.le

/-- A dispatch schedules the end of its slice, and that is not in the past. -/
theorem books_dispatch (h : m.Books) (hc : m.runningTasks c = none) (hp : p ∈ m.ready q)
    (hone : m.places p ≤ 1) : (m.dispatch cfg q c p x).Books := by
  refine ⟨fun e he => ?_, fun r => booked_dispatch (h.booked r) hc hp hone⟩
  rcases List.mem_append.1 he with he | he
  · exact h.clock e he
  · have hrem := ((h.booked p).waiting q hp).balanced.remaining
    rw [List.mem_singleton.1 he, dispatch_currentTime]
    exact le_add_of_nonneg_right (grant_nonneg cfg x hrem)

theorem Next.books (h : Next cfg slot c m m') (hc : m.runningTasks c = none)
    (hone : ∀ p, m.places p ≤ 1) (hm : m.Books) : m'.Books := by
  cases h with
  | idle => rwa [clearCore_eq_self m c hc]
  | @own p x hs => exact books_dispatch hm hc (mem_ready_of_schedule hs) (hone p)
  | @steal b stolen p x _ _ _ hst hs =>
    have hstolen : stolen ∈ m.ready b := schedule_mem _ m.heap stolen hst
    have hmig : (m.migrate b (slot c) stolen).Books :=
      ⟨hm.clock, fun r => booked_migrate (hm.booked r) hstolen⟩
    refine books_dispatch hmig hc (mem_ready_of_schedule hs) ?_
    have hle := places_migrate (m := m) (b := b) (q := slot c) (p := stolen) (r := p)
    have hlost := (lost_spec (r := p) hstolen).1
    have := hone p
    omega

omit [DecidableEq Q] [Fintype Q] [LawfulScheduler σ] in
theorem books_countSwitch (h : m.Books) : m.countSwitch.Books :=
  ⟨h.clock, fun r => (h.booked r).congr rfl (fun _ he _ => he) (fun q hq => ⟨q, hq⟩) le_rfl
    (fun _ hc => ⟨hc, rfl, rfl⟩) id⟩

section Before

variable (he : m.events.IsNext e) (hone : ∀ p, m.places p ≤ 1) (hm : m.Books)

omit [LawfulScheduler σ] [DecidableEq Q] in
include he in
theorem places_pop_eq (hna : e.type ≠ .arrival) (r : TaskPtr) :
    (m.pop e).places r = m.places r := by
  have := places_pop (r := r) he.1
  simp only [hna, false_and, if_false] at this
  omega

include he in
theorem places_arrived (harr : e.type = .arrival) (r : TaskPtr) :
    ((m.pop e).enqueue q e.task).places r = m.places r := by
  have := places_pop (r := r) he.1
  rw [places_enqueue]
  simp only [harr, true_and, eq_comm (a := e.task)] at this
  omega

include he hone in
theorem places_arrived_le (harr : e.type = .arrival) (r : TaskPtr) :
    ((m.pop e).enqueue q e.task).places r ≤ 1 := (places_arrived he harr r).trans_le (hone r)

omit [DecidableEq Q] [Fintype Q] [LawfulScheduler σ] in
include he hm in
theorem books_pop : (m.pop e).Books :=
  ⟨fun e' he' => he.2 e' (List.mem_of_mem_erase he'),
    fun r => booked_pop (hm.booked r) (hm.clock e he.1)⟩

include he hone hm in
/-- The new task is ready, with its books complete up to its arrival. -/
theorem books_arrived (harr : e.type = .arrival) : ((m.pop e).enqueue q e.task).Books := by
  have hpop := books_pop he hm
  have hnone : (m.pop e).places e.task = 0 := by
    have := places_pop (r := e.task) he.1
    have := hone e.task
    simp only [harr, and_self, if_true] at *
    omega
  exact ⟨hpop.clock, fun r => booked_enqueue (hpop.booked r) hnone
    ((hm.booked e.task).arrival e he.1 harr rfl)⟩

omit [DecidableEq Q] [Fintype Q] [LawfulScheduler σ] in
include he hm in
/-- No slice is longer than granted, and none was granted for longer than the
task needs. -/
theorem charged_le_remaining (hslice : m.SlicePending) (hc : m.runningTasks c = some p) :
    e.time - m.lastEventTime c ≤ (m.heap p).remainingTime :=
  (elapsed_le_granted hslice he hc).trans ((hm.booked p).running c hc).granted

include he hone hm in
/-- The preempted task is ready, with its books complete up to now. -/
theorem books_preempted (harr : e.type = .arrival) (hslice : m.SlicePending)
    (hc : m.runningTasks c = some p) :
    ((((m.pop e).enqueue q e.task).yieldCore q c p).countSwitch).Books := by
  have henq := books_arrived (q := q) he hone hm harr
  have hrun : ((m.pop e).enqueue q e.task).runningTasks c = some p := hc
  have hx : ((m.pop e).enqueue q e.task).elapsed c
      ≤ (((m.pop e).enqueue q e.task).heap p).remainingTime := by
    have hle := charged_le_remaining he hm hslice hc
    rw [Task.congrLedger Task.remainingTime ledger_enqueue]
    split <;> exact hle
  exact books_countSwitch ⟨henq.clock, fun r => booked_yieldCore henq.booked hrun
    (places_arrived_le he hone harr p) hx⟩

include he hone hm in
/-- The task whose slice is over is done, or ready with complete books. -/
theorem books_expired (hslice : m.SlicePending) (hc : m.runningTasks c = some p) :
    ((m.pop e).settle q c p).Books := by
  have hpop := books_pop he hm
  have hle := charged_le_remaining he hm hslice hc
  refine ⟨?_, fun r => booked_settle hpop.booked hc (places_pop_le he.1 hone p) hle⟩
  rw [settle_events, settle_currentTime]
  exact hpop.clock

include he hone hm in
/-- Every step is some work without a dispatch, after which the books are right and every task
stands in as many places as before, and possibly `dispatch_next`. -/
theorem Move.before_books (h : Move cfg slot m e m') (hslice : m.SlicePending) :
    ∃ m₁, m₁.Books ∧ (∀ p, m₁.places p = m.places p) ∧
      (∀ p, (m₁.heap p).fixed = (m.heap p).fixed) ∧ m₁.events = m.events.erase e ∧
      m₁.currentTime = e.time ∧
      (m' = m₁ ∨ ∃ c, m₁.runningTasks c = none ∧ Next cfg slot c m₁ m') := by
  cases h with
  | skip hna =>
    exact ⟨_, books_pop he hm, places_pop_eq he hna, fun _ => rfl, rfl, rfl, .inl rfl⟩
  | queued harr =>
    exact ⟨_, books_arrived he hone hm harr, places_arrived he harr,
      fun _ => fixed_enqueue, rfl, rfl, .inl rfl⟩
  | @woken c _ harr hidle hn =>
    exact ⟨_, books_arrived he hone hm harr, places_arrived he harr,
      fun _ => fixed_enqueue, rfl, rfl, .inr ⟨c, hidle, hn⟩⟩
  | @preempted c p _ harr hc hbusy _ hn =>
    have hrun : ((m.pop e).enqueue (slot c) e.task).runningTasks c = some p := hc
    refine ⟨_, books_preempted he hone hm harr hslice hc, fun r => ?_, fun r => ?_, rfl, rfl,
      .inr ⟨c, ?_, hn⟩⟩
    · rw [places_countSwitch, places_yieldCore hrun]
      exact places_arrived he harr r
    · rw [countSwitch_heap, fixed_yieldCore, fixed_enqueue, pop_heap]
    · rw [countSwitch_runningTasks, yieldCore_runningTasks, setAt_self]
  | expired hts hc hn =>
    have hrun : (m.pop e).runningTasks e.coreId = some e.task := hc
    refine ⟨_, books_expired he hone hm hslice hc, fun r => ?_, fun r => ?_, settle_events _ _ _ _,
      settle_currentTime _ _ _ _, .inr ⟨e.coreId, ?_, hn⟩⟩
    · rw [places_settle hrun]
      exact places_pop_eq he (by simp [hts]) r
    · rw [fixed_settle, pop_heap]
    · rw [settle_runningTasks, setAt_self]

include he hone hm in
/-- Every step keeps the books. -/
theorem Move.books (h : Move cfg slot m e m') (hslice : m.SlicePending) : m'.Books := by
  obtain ⟨m₁, hm₁, hplaces, -, -, -, rfl | ⟨c, hidle, hn⟩⟩ := h.before_books he hone hm hslice
  · exact hm₁
  · exact hn.books hidle (fun p => (hplaces p).trans_le (hone p)) hm₁

end Before

/-! ## CPU time is what was charged -/

/-- What an entry of the history charges a task. -/
def chargedTo (p : TaskPtr) : Action n → ℚ
  | .charged _ p' x => if p' = p then x else 0
  | .dispatched .. => 0

/-- Every task has been served what it was charged. -/
def Tally (m : Machine σ Q n) : Prop :=
  ∀ p, (m.heap p).served = (m.history.map (chargedTo p)).sum

section Tally

omit [Fintype Q] in
theorem tally_enqueue (h : m.Tally) : (m.enqueue q p).Tally := by
  intro r
  rw [Task.congrLedger Task.served ledger_enqueue]
  split <;> exact h r

omit [Fintype Q] in
theorem tally_charge (h : m.Tally) (hx : m.elapsed c ≤ (m.heap p).remainingTime) :
    (m.charge q c p).Tally := by
  intro r
  rw [Task.congrLedger Task.served ledger_charge, charge_history, List.map_cons, List.sum_cons]
  by_cases hr : r = p
  · subst hr
    rw [if_pos rfl, Task.served_execute hx, h r, chargedTo, if_pos rfl, add_comm]
  · rw [if_neg hr, h r, chargedTo, if_neg (Ne.symm hr), zero_add]

omit [Fintype Q] in
theorem tally_yieldCore (h : m.Tally) (hx : m.elapsed c ≤ (m.heap p).remainingTime) :
    (m.yieldCore q c p).Tally := by
  intro r
  rw [yieldCore, Task.congrLedger Task.served ledger_requeue]
  split <;> exact tally_charge h hx r

omit [Fintype Q] in
theorem tally_settle (h : m.Tally) (hx : m.elapsed c ≤ (m.heap p).remainingTime) :
    (m.settle q c p).Tally := by
  rw [settle_eq]
  split
  · intro r
    rw [Task.congrLedger Task.served ledger_finish]
    split <;> exact tally_charge h hx r
  · exact tally_yieldCore h hx

omit [Fintype Q] [LawfulScheduler σ] in
theorem tally_dispatch (h : m.Tally) : (m.dispatch cfg q c p x).Tally := by
  intro r
  rw [Task.congrLedger Task.served (ledger_dispatch cfg x), dispatch_history, List.map_cons,
    List.sum_cons, chargedTo, zero_add]
  split
  · rw [Task.served_start, Task.served_markDispatched]
    exact h r
  · exact h r

omit [Fintype Q] in
theorem Next.tally (h : Next cfg slot c m m') (hm : m.Tally) : m'.Tally := by
  cases h with
  | idle => exact hm
  | own => exact tally_dispatch hm
  | @steal b stolen p x =>
    have hmig : (m.migrate b (slot c) stolen).Tally := by
      intro r
      rw [Task.congrLedger Task.served ledger_migrate]
      exact hm r
    exact tally_dispatch hmig

omit [Fintype Q] in
theorem Move.tally (h : Move cfg slot m e m') (he : m.events.IsNext e) (hslice : m.SlicePending)
    (hbooks : m.Books) (hm : m.Tally) : m'.Tally := by
  have hpop : (m.pop e).Tally := hm
  cases h with
  | skip => exact hpop
  | queued => exact tally_enqueue hpop
  | woken _ _ hn => exact hn.tally (tally_enqueue hpop)
  | @preempted c p _ harr hc _ _ hn =>
    have hx : ((m.pop e).enqueue (slot c) e.task).elapsed c
        ≤ (((m.pop e).enqueue (slot c) e.task).heap p).remainingTime := by
      have hle := charged_le_remaining he hbooks hslice hc
      rw [Task.congrLedger Task.remainingTime ledger_enqueue]
      split <;> exact hle
    have hcharged := tally_yieldCore (q := slot c)
      (tally_enqueue (q := slot c) (p := e.task) hpop) hx
    exact hn.tally hcharged
  | expired hts hc hn =>
    have hx := charged_le_remaining he hbooks hslice hc
    exact hn.tally (tally_settle hpop hx)

end Tally

/-! ## Runs -/

section Runs

variable [NeZero n] {schedulers : Q → σ} {w : Workload}

omit [DecidableEq Q] [Fintype Q] [LawfulScheduler σ] in
/-- Before anything has happened every book is complete up to the arrival. -/
theorem books_init (hempty : ∀ q, readyTasks (schedulers q) = []) (hvalid : w.Valid) :
    (init schedulers w : Machine σ Q n).Books := by
  have hev : ∀ e ∈ (init schedulers w : Machine σ Q n).events,
      ∃ p ∈ w.added, e = ⟨.arrival, (w.heap p).arrivalTime, p, 0⟩ := by
    intro e he
    obtain ⟨p, hp, rfl⟩ := List.mem_map.1 he
    exact ⟨p, hp, rfl⟩
  refine ⟨fun e he => ?_, fun r => ⟨fun e he _ hr => ?_, fun q hq => ?_, ?_, ?_⟩⟩
  · obtain ⟨p, hp, rfl⟩ := hev e he
    exact (hvalid p hp).1
  · obtain ⟨p, hp, rfl⟩ := hev e he
    subst hr
    refine ⟨?_, (hvalid p hp).2.le, (sub_self _).ge, le_rfl⟩
    show (w.args p).arrivalTime + 0 + ((w.args p).executionTime - (w.args p).executionTime) = _
    rw [sub_self, add_zero, add_zero]
    rfl
  · rw [ready, init, hempty] at hq
    cases hq
  · rintro c ⟨⟩
  · rintro ⟨⟩

/-- The books are right in every reachable state. -/
theorem books_of_reachable (hempty : ∀ q, readyTasks (schedulers q) = []) (hvalid : w.Valid)
    (h : Lts.Reachable (Step cfg slot) (init schedulers w) m) : m.Books := by
  refine h.induction (I := Books) (books_init hempty hvalid) ?_
  intro s e t hs hm hstep
  have hone : ∀ p, s.places p ≤ 1 := fun p =>
    (places_le_count hempty hs p).trans (List.nodup_iff_count_le_one.1 w.nodup p)
  exact hstep.2.2.books hstep.1 hone hm (slicePending_of_reachable hs)

/-- In every reachable state every task has been served what it was charged. -/
theorem tally_of_reachable (hempty : ∀ q, readyTasks (schedulers q) = []) (hvalid : w.Valid)
    (h : Lts.Reachable (Step cfg slot) (init schedulers w) m) : m.Tally := by
  refine h.induction (I := Tally) (fun p => sub_self _) ?_
  intro s e t hs hm hstep
  exact hstep.2.2.tally hstep.1 (slicePending_of_reachable hs)
    (books_of_reachable hempty hvalid hs) hm

/-- The time accounting of one task, in the terms of its record. -/
structure Accounted (m : Machine σ Q n) (p : TaskPtr) : Prop where
  live : p ∉ m.events.arrivals → p ∉ m.completedTasks →
    (∃ q, p ∈ m.ready q) ∨ ∃ c, m.runningTasks c = some p
  waiting : ∀ q, p ∈ m.ready q → m.currentTime - (m.heap p).arrivalTime
    = (m.heap p).waitTime + ((m.heap p).executionTime - (m.heap p).remainingTime)
      + (m.currentTime - (m.heap p).readyEnterTime)
  running : ∀ c, m.runningTasks c = some p → m.currentTime - (m.heap p).arrivalTime
    = (m.heap p).waitTime + ((m.heap p).executionTime - (m.heap p).remainingTime)
      + (m.currentTime - m.lastEventTime c)
  completed : p ∈ m.completedTasks →
    (m.heap p).completionTime - (m.heap p).arrivalTime
        = (m.heap p).waitTime + ((m.heap p).executionTime - (m.heap p).remainingTime) ∧
      0 ≤ (m.heap p).remainingTime ∧ (m.heap p).remainingTime ≤ 1 / 1000
  /-- Whatever event is next, the time charged at it is not more than is left. -/
  noClamp : ∀ e, m.events.IsNext e → ∀ c, m.runningTasks c = some p →
    0 ≤ e.time - m.lastEventTime c ∧ e.time - m.lastEventTime c ≤ (m.heap p).remainingTime

omit [DecidableEq Q] [LawfulScheduler σ] [NeZero n] in
theorem accounted_of_books (h : m.Books) (hslice : m.SlicePending) (hp : m.places p = 1) :
    m.Accounted p := by
  have hbooked : (m.heap p).booked = (m.heap p).arrivalTime + (m.heap p).waitTime
      + ((m.heap p).executionTime - (m.heap p).remainingTime) := rfl
  refine ⟨fun harr hcomp => ?_, fun q hq => ?_, fun c hc => ?_, fun hcomp => ?_,
    fun e he c hc => ⟨?_, ?_⟩⟩
  · by_contra hnone
    rw [not_or, not_exists, not_exists] at hnone
    have hzero : m.places p = 0 := places_eq_zero.2
      ⟨fun e he ht hep => harr (EventQueue.mem_arrivals.2 ⟨e, he, ht, hep⟩), hnone.1,
        hnone.2, hcomp⟩
    omega
  · have := ((h.booked p).waiting q hq).balanced.booked
    linarith
  · have := ((h.booked p).running c hc).balanced.booked
    linarith
  · have hdone := (h.booked p).completed hcomp
    have := hdone.balanced.booked
    exact ⟨by linarith, hdone.balanced.remaining, hdone.finished⟩
  · have hpast := ((h.booked p).running c hc).past
    have hclock := h.clock e he.1
    linarith
  · exact (elapsed_le_granted hslice he hc).trans ((h.booked p).running c hc).granted

theorem accounted_of_reachable (hempty : ∀ q, readyTasks (schedulers q) = [])
    (hids : w.DistinctIds) (hvalid : w.Valid)
    (h : Lts.Reachable (Step cfg slot) (init schedulers w) m) (hp : p ∈ w.added) :
    m.Accounted p := by
  refine accounted_of_books (books_of_reachable hempty hvalid h) (slicePending_of_reachable h) ?_
  rw [places_eq_count hempty hids h, List.count_eq_one_of_mem w.nodup hp]

end Runs

end Machine

/-! ## The two simulators -/

/-- **Exact time accounting**, in every run of either simulator. -/
theorem timeAccounting {n : ℕ} [NeZero n] (kind : SchedulerKind) (w : Workload)
    (hids : w.DistinctIds) (hvalid : w.Valid) :
    (∀ (cfg : SimConfig) (s : Simulator kind.State n),
      Lts.Reachable (Simulator.Step cfg) (Simulator.init kind.make w) s →
      ∀ p ∈ w.added, s.Accounted p) ∧
    (∀ (balancer : LoadBalancer) (cfg : MultiConfig) (s : MultiCoreSimulator kind.State n),
      Lts.Reachable (MultiCoreSimulator.Step cfg)
        (MultiCoreSimulator.init kind.make balancer w) s →
      ∀ p ∈ w.added, s.Accounted p) := by
  constructor
  · intro cfg s hs p hp
    exact Machine.accounted_of_reachable (fun _ => kind.readyTasks_make) hids hvalid
      (hs.simulate (f := id) fun _ _ _ => Simulator.step_machine) hp
  · intro balancer cfg s hs p hp
    exact Machine.accounted_of_reachable (fun _ => kind.readyTasks_make) hids hvalid
      (hs.simulate (f := MultiCoreSimulator.toMachine) fun _ _ _ => MultiCoreSimulator.step_machine)
      hp

theorem timeAccounting_pair :
    let cfg : MultiConfig := { stopTime := 50 }
    let kind := SchedulerKind.eevdf {}
    let single := Simulator.turns (n := 1) cfg.toSimConfig 4 (Simulator.init kind.make .pair)
    let multi := MultiCoreSimulator.turns (n := 2) cfg 4
      (MultiCoreSimulator.init kind.make .leastLoaded .pair)
    single.Accounted 0 ∧ multi.Accounted 1 :=
  ⟨(timeAccounting (.eevdf {}) .pair (by decide) (by decide +kernel)).1 _ _
      (Simulator.reachable_turns _ 4 _) 0 (by decide),
    (timeAccounting (.eevdf {}) .pair (by decide) (by decide +kernel)).2 _ _ _
      (MultiCoreSimulator.reachable_turns _ 4 _) 1 (by decide)⟩

end SchedSim
