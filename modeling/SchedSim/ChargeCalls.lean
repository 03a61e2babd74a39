import SchedSim.Interruptions
import SchedSim.Parts

/-!
# The calls of `on_cpu_used`

A handler calls `on_cpu_used` at most once: for the task whose slice is over, or for the one that
a new task preempts.  What is said here for both simulators is in which state it does so, and
what the handler does after it.

* `Simulator.chargeCall`, `MultiCoreSimulator.chargeCall` — the core whose task is charged when
  an event is handled, and the state it is charged in.
* `Machine.Outcome` — what becomes of an event with and without such a call.
* `Machine.afterCharge` — what is left to `dispatch_next` after the call.
* `Simulator.outcome_of_step`, `MultiCoreSimulator.outcome_of_step` — every step has one of these
  outcomes.
-/

namespace SchedSim

namespace Machine

variable {σ Q : Type} [Scheduler σ] [DecidableEq Q] {n : ℕ} {m m₀ m' : Machine σ Q n} {e : Event n}
  {c : Fin n} {p : TaskPtr} {cfg : SimConfig} {slot : Fin n → Q} {w : Workload}

/-- The outcomes of handling an event, with the core whose task it charges and the state in which
it does. -/
inductive Outcome (cfg : SimConfig) (slot : Fin n → Q) (m : Machine σ Q n) (e : Event n) :
    Option (Fin n × Machine σ Q n) → Machine σ Q n → Prop
  /-- The event is ignored. -/
  | ignored : e.type ≠ .arrival → Outcome cfg slot m e none (m.pop e)
  /-- The new task waits. -/
  | queued {q : Q} : e.type = .arrival → Outcome cfg slot m e none ((m.pop e).enqueue q e.task)
  /-- The new task finds an idle core. -/
  | woken {c : Fin n} {m' : Machine σ Q n} : e.type = .arrival → m.runningTasks c = none →
      Next cfg slot c ((m.pop e).enqueue (slot c) e.task) m' → Outcome cfg slot m e none m'
  /-- The new task preempts the one on the core. -/
  | preempted {c : Fin n} {p : TaskPtr} {m' : Machine σ Q n} : e.type = .arrival →
      m.runningTasks c = some p →
      Next cfg slot c
        ((((m.pop e).enqueue (slot c) e.task).yieldCore (slot c) c p).countSwitch) m' →
      Outcome cfg slot m e (some (c, (m.pop e).enqueue (slot c) e.task)) m'
  /-- The slice of the task on the core is over. -/
  | expired {m' : Machine σ Q n} : e.type = .timeSlice → m.runningTasks e.coreId = some e.task →
      Next cfg slot e.coreId ((m.pop e).settle (slot e.coreId) e.coreId e.task) m' →
      Outcome cfg slot m e (some (e.coreId, m.pop e)) m'

/-- The task that is charged goes back to the queue. -/
def GoesBack (m : Machine σ Q n) (e : Event n) (c : Fin n) (p : TaskPtr) : Prop :=
  e.type = .arrival ∨ ((m.heap p).execute (e.time - m.lastEventTime c)).isCompleted = false

omit [Scheduler σ] [DecidableEq Q] in
instance : Decidable (m.GoesBack e c p) := inferInstanceAs (Decidable (_ ∨ _))

omit [Scheduler σ] [DecidableEq Q] in
/-- At the end of a slice a task goes back if it is not completed. -/
theorem goesBack_iff (hts : e.type = .timeSlice) : m.GoesBack e c p ↔
    ((m.heap p).execute (e.time - m.lastEventTime c)).isCompleted = false :=
  or_iff_right (by rw [hts]; decide)

/-- The parts up to the call. -/
theorem Outcome.parts_charged [Fintype Q] (h : Outcome cfg slot m e (some (c, m₀)) m')
    (he : m.events.IsNext e) (hm : m.Roster w)
    (hfresh : ∀ r ∈ m.events.arrivals, (m.heap r).startTime < 0) : Parts w cfg slot m m₀ := by
  cases h with
  | preempted harr => exact parts_arrived he harr hm hfresh
  | expired => exact .single (.pop he)

/-- The charge is for the time since the dispatch. -/
theorem Outcome.elapsed_charged (h : Outcome cfg slot m e (some (c, m₀)) m') :
    m₀.elapsed c = e.time - m.lastEventTime c := by
  cases h with
  | preempted => rfl
  | expired => rfl

theorem Outcome.runningTasks_charged (h : Outcome cfg slot m e (some (c, m₀)) m') :
    m₀.runningTasks = m.runningTasks := by
  cases h with
  | preempted => rfl
  | expired => rfl

theorem Outcome.running_charged (h : Outcome cfg slot m e (some (c, m₀)) m') :
    ∃ p, m.runningTasks c = some p := by
  cases h with
  | preempted _ hrun => exact ⟨_, hrun⟩
  | expired _ hrun => exact ⟨_, hrun⟩

/-! ## After the call -/

/-- The state after the call, in which `dispatch_next` is called. -/
def afterCharge (slot : Fin n → Q) (m₀ : Machine σ Q n) (e : Event n) (c : Fin n) (p : TaskPtr) :
    Machine σ Q n :=
  if e.type = .arrival then (m₀.yieldCore (slot c) c p).countSwitch else m₀.settle (slot c) c p

theorem Outcome.next (h : Outcome cfg slot m e (some (c, m₀)) m') (hc : m.runningTasks c = some p) :
    Next cfg slot c (m₀.afterCharge slot e c p) m' := by
  cases h with
  | preempted harr hrun hn =>
    obtain rfl := Option.some.inj (hrun.symm.trans hc)
    rwa [afterCharge, if_pos harr]
  | expired hts hrun hn =>
    obtain rfl := Option.some.inj (hrun.symm.trans hc)
    rwa [afterCharge, if_neg (by rw [hts]; decide)]

theorem parts_afterCharge [Fintype Q] (hc : m₀.runningTasks c = some p) :
    Parts w cfg slot m₀ (m₀.afterCharge slot e c p) := by
  rw [afterCharge]
  split
  · exact .head (.yield hc) (.single .countSwitch)
  · exact .single (part_settle hc)

theorem afterCharge_runningTasks :
    (m₀.afterCharge slot e c p).runningTasks = setAt m₀.runningTasks c none := by
  rw [afterCharge]
  split
  · rfl
  · exact settle_runningTasks _ _ _ _

/-- Whether a task is completed when it has been charged. -/
theorem isCompleted_charge_self [LawfulScheduler σ] {q : Q} : ((m.charge q c p).heap p).isCompleted
    = ((m.heap p).execute (m.elapsed c)).isCompleted := by
  rw [Task.congrLedger Task.isCompleted ledger_charge, if_pos rfl]

/-- The task that goes back to the queue is ready again; nothing else changes there. -/
theorem Outcome.mem_ready_afterCharge [LawfulScheduler σ] {q : Q} {r : TaskPtr}
    (h : Outcome cfg slot m e (some (c, m₀)) m') :
    r ∈ (m₀.afterCharge slot e c p).ready q ↔
      (m.GoesBack e c p ∧ q = slot c ∧ r = p) ∨ r ∈ m₀.ready q := by
  rw [afterCharge]
  cases h with
  | preempted harr =>
    rw [if_pos harr, ready_countSwitch, mem_ready_yieldCore]
    have hback : m.GoesBack e c p := .inl harr
    simp only [hback, true_and]
  | expired hts =>
    have hdone : (((m.pop e).charge (slot e.coreId) e.coreId p).heap p).isCompleted
        = ((m.heap p).execute (e.time - m.lastEventTime e.coreId)).isCompleted :=
      isCompleted_charge_self
    rw [if_neg (by rw [hts]; decide), settle_eq, hdone, goesBack_iff hts]
    split
    next hd => simp only [ready_finish, mem_ready_charge, hd, Bool.true_eq_false, false_and,
      false_or]
    next hd => simp only [mem_ready_yieldCore, Bool.not_eq_true _ ▸ hd, true_and]

/-- The other schedulers have not changed. -/
theorem Outcome.schedulers_afterCharge {q : Q} (h : Outcome cfg slot m e (some (c, m₀)) m')
    (hq : q ≠ slot c) : (m₀.afterCharge slot e c p).schedulers q = m.schedulers q := by
  have hbefore : m₀.schedulers q = m.schedulers q := by
    cases h with
    | preempted => exact setAt_of_ne _ _ _ hq
    | expired => rfl
  have hyield : (m₀.yieldCore (slot c) c p).schedulers q = m₀.schedulers q :=
    (setAt_of_ne _ _ _ hq).trans (setAt_of_ne _ _ _ hq)
  rw [afterCharge]
  split
  · exact hyield.trans hbefore
  · rw [settle_eq]
    split
    · exact (setAt_of_ne _ _ _ hq).trans hbefore
    · exact hyield.trans hbefore

/-- At the end of a slice nothing happens before the charge. -/
theorem Outcome.eq_pop (h : Outcome cfg slot m e (some (c, m₀)) m') (hna : e.type ≠ .arrival) :
    m₀ = m.pop e := by
  cases h with
  | preempted harr => exact absurd harr hna
  | expired => rfl

end Machine

/-! ## The single-queue simulator -/

namespace Simulator

open Machine

variable {σ : Type} [Scheduler σ] {n : ℕ} {cfg : SimConfig} {s s' : Simulator σ n} {e : Event n}
  {c : Fin n}

/-- The core whose task is charged when the event is handled, and the state then. -/
def chargeCall (s : Simulator σ n) (e : Event n) : Option (Fin n × Simulator σ n) :=
  match e.type with
  | .arrival => (s.victim e).map fun c => (c, s.receive e)
  | .timeSlice =>
    if s.runningTasks e.coreId = some e.task then some (e.coreId, s.pop e) else none
  | .completion | .priorityBoost => none

theorem chargeCall_of_ignored (hna : e.type ≠ .arrival)
    (hne : e.type = .timeSlice → s.runningTasks e.coreId ≠ some e.task) :
    s.chargeCall e = none := by
  rw [chargeCall]
  cases ht : e.type with
  | arrival => exact absurd ht hna
  | timeSlice => exact if_neg (hne ht)
  | completion => rfl
  | priorityBoost => rfl

theorem chargeCall_of_arrival (harr : e.type = .arrival) :
    s.chargeCall e = (s.victim e).map fun c => (c, s.receive e) := by
  rw [chargeCall, harr]

theorem chargeCall_of_slice (hts : e.type = .timeSlice)
    (hrun : s.runningTasks e.coreId = some e.task) :
    s.chargeCall e = some (e.coreId, s.pop e) := by
  rw [chargeCall, hts]
  exact if_pos hrun

theorem victim_of_idle (hidle : s.runningTasks c = none) : s.victim e = none :=
  if_neg fun hall => hall.2 c hidle

theorem victim_of_busy (harr : e.type = .arrival) (hbusy : ∀ c, s.runningTasks c ≠ none) :
    s.victim e = (List.finRange n).find? (s.shouldTake e) := if_pos ⟨harr, hbusy⟩

variable [LawfulScheduler σ]

theorem outcome_of_step (h : Step cfg s e s') : Outcome cfg slot s e (s.chargeCall e) s' := by
  cases turn_of_step h with
  | skip hna hne =>
    rw [chargeCall_of_ignored hna hne]
    exact .ignored hna
  | queued harr hbusy hno =>
    have hnone : (List.finRange n).find? (s.shouldTake e) = none := by
      rw [List.find?_eq_none]
      intro c _
      rw [hno c]
      exact Bool.false_ne_true
    rw [chargeCall_of_arrival harr, victim_of_busy harr hbusy, hnone]
    exact .queued harr
  | woken harr hidle hn =>
    rw [chargeCall_of_arrival harr, victim_of_idle hidle]
    exact .woken harr hidle hn
  | preempted harr hbusy hrun hfind hn =>
    rw [chargeCall_of_arrival harr, victim_of_busy harr hbusy, hfind]
    exact .preempted harr hrun hn
  | expired hts hrun hn =>
    rw [chargeCall_of_slice hts hrun]
    exact .expired hts hrun hn

end Simulator

/-! ## The multi-queue simulator -/

namespace MultiCoreSimulator

open Machine

variable {σ : Type} [Scheduler σ] {n : ℕ} [NeZero n] {cfg : MultiConfig}
  {s s' : MultiCoreSimulator σ n} {e : Event n} {c : Fin n}

/-- The core whose task is charged when the event is handled, and the state then. -/
def chargeCall (s : MultiCoreSimulator σ n) (e : Event n) :
    Option (Fin n × Machine σ (Fin n) n) :=
  match e.type with
  | .arrival => (s.victim e).map fun c => (c, (s.receive e).toMachine)
  | .timeSlice =>
    if s.runningTasks e.coreId = some e.task then some (e.coreId, s.pop e) else none
  | .completion | .priorityBoost => none

theorem chargeCall_of_ignored (hna : e.type ≠ .arrival)
    (hne : e.type = .timeSlice → s.runningTasks e.coreId ≠ some e.task) :
    s.chargeCall e = none := by
  rw [chargeCall]
  cases ht : e.type with
  | arrival => exact absurd ht hna
  | timeSlice => exact if_neg (hne ht)
  | completion => rfl
  | priorityBoost => rfl

theorem chargeCall_of_arrival (harr : e.type = .arrival) :
    s.chargeCall e = (s.victim e).map fun c => (c, (s.receive e).toMachine) := by
  rw [chargeCall, harr]

theorem chargeCall_of_slice (hts : e.type = .timeSlice)
    (hrun : s.runningTasks e.coreId = some e.task) :
    s.chargeCall e = some (e.coreId, s.pop e) := by
  rw [chargeCall, hts]
  exact if_pos hrun

theorem victim_of_idle (hidle : s.runningTasks s.target = none) : s.victim e = none :=
  if_neg fun hall => hall.2.1 hidle

theorem victim_of_busy {p : TaskPtr} (harr : e.type = .arrival)
    (hrun : s.runningTasks s.target = some p) :
    s.victim e = if shouldPreempt ((s.receive e).schedulers s.target) (s.receive e).heap e.task
      (some p) = true then some s.target else none := by
  rw [victim, hrun]
  simp [harr]

variable [LawfulScheduler σ]

theorem outcome_of_step (h : Step cfg s e s') :
    Outcome cfg.toSimConfig slot s.toMachine e (s.chargeCall e) s'.toMachine := by
  cases turn_of_step h with
  | skip hna hne =>
    rw [chargeCall_of_ignored hna hne]
    exact .ignored hna
  | queued harr hrun hno =>
    rw [chargeCall_of_arrival harr, victim_of_busy harr hrun, hno]
    exact .queued harr
  | woken harr hidle hres =>
    rw [chargeCall_of_arrival harr, victim_of_idle hidle]
    exact .woken harr hidle hres.next
  | preempted harr hrun hshould hres =>
    rw [chargeCall_of_arrival harr, victim_of_busy harr hrun, hshould]
    exact .preempted harr hrun hres.next
  | expired hts hrun hres =>
    rw [chargeCall_of_slice hts hrun]
    exact .expired hts hrun hres.next

/-- What `dispatch_next` does after the charge. -/
theorem resumes_of_chargeCall {m₀ : Machine σ (Fin n) n} {p : TaskPtr} (h : Step cfg s e s')
    (hcall : s.chargeCall e = some (c, m₀)) (hc : s.runningTasks c = some p) :
    ∃ s₁ : MultiCoreSimulator σ n,
      s₁.toMachine = m₀.afterCharge slot e c p ∧ Resumes cfg c s₁ s' := by
  cases turn_of_step h with
  | skip hna hne =>
    rw [chargeCall_of_ignored hna hne] at hcall
    cases hcall
  | queued harr hrun hno =>
    rw [chargeCall_of_arrival harr, victim_of_busy harr hrun, hno] at hcall
    cases hcall
  | woken harr hidle =>
    rw [chargeCall_of_arrival harr, victim_of_idle hidle] at hcall
    cases hcall
  | preempted harr hrun hshould hres =>
    rw [chargeCall_of_arrival harr, victim_of_busy harr hrun, hshould] at hcall
    obtain ⟨rfl, rfl⟩ := Prod.mk.inj (Option.some.inj hcall)
    obtain rfl := Option.some.inj (hrun.symm.trans hc)
    refine ⟨_, ?_, hres⟩
    rw [afterCharge, if_pos harr]
    rfl
  | expired hts hrun hres =>
    rw [chargeCall_of_slice hts hrun] at hcall
    obtain ⟨rfl, rfl⟩ := Prod.mk.inj (Option.some.inj hcall)
    obtain rfl := Option.some.inj (hrun.symm.trans hc)
    refine ⟨_, ?_, hres⟩
    rw [afterCharge, if_neg (by rw [hts]; decide)]
    rfl

omit [NeZero n] [LawfulScheduler σ] in
/-- Which core is the busiest depends on the queues of the other cores only. -/
theorem busiestCore_congr {s₁ : MultiCoreSimulator σ n}
    (h : ∀ d, d ≠ c → s₁.schedulers d = s.schedulers d) : s₁.busiestCore c = s.busiestCore c := by
  rw [busiestCore, busiestCore]
  congr 2
  funext best d
  split
  · rfl
  next hd => rw [h d hd]

end MultiCoreSimulator

end SchedSim
