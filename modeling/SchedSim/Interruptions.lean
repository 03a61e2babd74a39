import SchedSim.CoreTurns
import SchedSim.SharedTurns

/-!
# Arrivals that preempt

Two things can take a task off its core: its slice event, and the arrival of a
task that `should_preempt` lets go first.  The second way has a code path of its
own, `preempt_core`, and it is there that the two simulators lose track of things.

* `Simulator.victim`, `MultiCoreSimulator.victim` — the core that an arrival
  preempts, if it preempts one.
* `Machine.Charges` — the charges of one step.
* `Simulator.Turn.victim`, `MultiCoreSimulator.Turn.victim` — an arrival charges
  the task of its victim and nobody else.
-/

namespace SchedSim

/-! ## Charges -/

namespace Machine

variable {σ Q : Type} [Scheduler σ] [DecidableEq Q] {n : ℕ} {m m' : Machine σ Q n}
  {c d : Fin n} {p : TaskPtr} {x : ℚ} {e : Event n} {cfg : SimConfig} {slot : Fin n → Q}

omit [Scheduler σ] [DecidableEq Q] in
/-- The step from `m` to `m'` charges the task `p` on core `c` for `x`. -/
def Charges (m m' : Machine σ Q n) (c : Fin n) (p : TaskPtr) (x : ℚ) : Prop :=
  ∃ new, m'.history = new ++ m.history ∧ .charged c p x ∈ new

omit [Scheduler σ] [DecidableEq Q] in
theorem not_charges_of_history (h : m'.history = m.history) : ¬ Charges m m' c p x := by
  rintro ⟨new, hnew, hmem⟩
  rw [h, List.self_eq_append_left] at hnew
  rw [hnew] at hmem
  cases hmem

/-- `dispatch_next` charges nobody. -/
theorem Next.charges (h : Next cfg slot d m m') {m₀ : Machine σ Q n}
    (charges : List (Action n)) (hc : Charges m₀ m' c p x)
    (hcharges : m.history = charges ++ m₀.history) : .charged c p x ∈ charges := by
  obtain ⟨new, hnew, hmem⟩ := hc
  have hcons : ∀ {a : Action n}, m'.history = a :: m.history → (∀ y, a ≠ .charged c p y) →
      .charged c p x ∈ charges := by
    intro a ha hne
    rw [ha, hcharges, ← List.cons_append] at hnew
    rw [← List.append_cancel_right hnew] at hmem
    rcases List.mem_cons.1 hmem with heq | hmem
    · exact absurd heq.symm (hne x)
    · exact hmem
  cases h with
  | idle =>
    rw [show (m.clearCore d).history = m.history from rfl, hcharges] at hnew
    rwa [List.append_cancel_right hnew]
  | own => exact hcons rfl fun _ h => by cases h
  | steal => exact hcons rfl fun _ h => by cases h

/-- The end of a slice charges its task, and nobody else is charged then. -/
theorem Move.charges_of_timeSlice (h : Move cfg slot m e m') (hts : e.type = .timeSlice)
    (hc : Charges m m' c p x) : c = e.coreId ∧ p = e.task ∧ m.runningTasks c = some p ∧
      x = e.time - m.lastEventTime c ∧
      Next cfg slot c ((m.pop e).settle (slot c) c p) m' := by
  cases h with
  | skip => exact absurd hc (not_charges_of_history rfl)
  | queued harr => exact absurd (harr.symm.trans hts) (by decide)
  | woken harr => exact absurd (harr.symm.trans hts) (by decide)
  | preempted harr => exact absurd (harr.symm.trans hts) (by decide)
  | expired _ hrun hn =>
    have hmem := hn.charges [.charged e.coreId e.task (e.time - m.lastEventTime e.coreId)] hc
      (settle_history _ _ _ _)
    rw [List.mem_singleton, Action.charged.injEq] at hmem
    obtain ⟨rfl, rfl, rfl⟩ := hmem
    exact ⟨rfl, rfl, hrun, rfl, hn⟩

end Machine

/-! ## The core an arrival preempts -/

namespace Simulator

open Machine

variable {σ : Type} [Scheduler σ] {n : ℕ} {cfg : SimConfig} {s s' : Simulator σ n}
  {e : Event n} {c : Fin n} {p : TaskPtr} {x : ℚ}

/-- The first core whose task the new one should preempt, if no core is idle. -/
def victim (s : Simulator σ n) (e : Event n) : Option (Fin n) :=
  if e.type = .arrival ∧ ∀ c, s.runningTasks c ≠ none then (List.finRange n).find? (s.shouldTake e)
  else none

/-- An arrival charges the task of its victim, and nobody else. -/
theorem Turn.victim (h : Turn cfg s e s') (harr : e.type = .arrival) (hc : Charges s s' c p x) :
    s.victim e = some c ∧ s.runningTasks c = some p ∧ x = e.time - s.lastEventTime c := by
  cases h with
  | skip hna => exact absurd harr hna
  | queued => exact absurd hc (not_charges_of_history rfl)
  | woken _ _ hn => cases hn.charges [] hc rfl
  | @preempted d q _ _ hbusy hrun hfind hn =>
    have hmem := hn.charges [.charged d q (e.time - s.lastEventTime d)] hc rfl
    rw [List.mem_singleton, Action.charged.injEq] at hmem
    obtain ⟨rfl, rfl, rfl⟩ := hmem
    exact ⟨by rw [Simulator.victim, if_pos ⟨harr, hbusy⟩, hfind], hrun, rfl⟩
  | expired hts => exact absurd (hts.symm.trans harr) (by decide)

end Simulator

namespace MultiCoreSimulator

open Machine

variable {σ : Type} [Scheduler σ] {n : ℕ} [NeZero n] {cfg : MultiConfig}
  {s s' : MultiCoreSimulator σ n} {e : Event n} {c : Fin n} {p : TaskPtr} {x : ℚ}

/-- The core the balancer chose, if the new task should preempt the task there. -/
def victim (s : MultiCoreSimulator σ n) (e : Event n) : Option (Fin n) :=
  if e.type = .arrival ∧ s.runningTasks s.target ≠ none ∧
      shouldPreempt ((s.receive e).schedulers s.target) (s.receive e).heap e.task
        (s.runningTasks s.target) = true then
    some s.target
  else none

variable [LawfulScheduler σ]

/-- An arrival charges the task of its victim, and nobody else. -/
theorem Turn.victim (h : Turn cfg s e s') (harr : e.type = .arrival)
    (hc : Charges s.toMachine s'.toMachine c p x) :
    s.victim e = some c ∧ s.runningTasks c = some p ∧ x = e.time - s.lastEventTime c := by
  cases h with
  | skip hna => exact absurd harr hna
  | queued => exact absurd hc (not_charges_of_history rfl)
  | woken _ _ hres => cases hres.next.charges [] hc rfl
  | @preempted q _ _ hrun hshould hres =>
    have hmem := hres.next.charges
      [.charged s.target q (e.time - s.lastEventTime s.target)] hc rfl
    rw [List.mem_singleton, Action.charged.injEq] at hmem
    obtain ⟨rfl, rfl, rfl⟩ := hmem
    refine ⟨?_, hrun, rfl⟩
    rw [MultiCoreSimulator.victim, hrun]
    exact if_pos ⟨harr, by simp, hshould⟩
  | expired hts => exact absurd (hts.symm.trans harr) (by decide)

end MultiCoreSimulator

end SchedSim
