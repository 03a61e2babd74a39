import SchedSim.Moves

/-!
# Every turn of the single-queue simulator

The counterpart of `CoreTurns`: which core a new task goes to, which core it
preempts, and when it waits.

* `Simulator.Turn` — the outcomes of handling an event.
* `Simulator.turn_of_step` — a turn of the loop has one of these.
-/

namespace SchedSim

namespace Simulator

open Machine

variable {σ : Type} [Scheduler σ] {n : ℕ} {cfg : SimConfig} {s s' : Simulator σ n} {e : Event n}

/-- The new task stands in the queue. -/
def receive (s : Simulator σ n) (e : Event n) : Simulator σ n := (s.pop e).enqueue () e.task

/-- The task of a core has been charged and is back in the queue. -/
def displace (s : Simulator σ n) (c : Fin n) (p : TaskPtr) : Simulator σ n :=
  (s.yieldCore () c p).countSwitch

/-- Should the task that arrives take core `c`? -/
def shouldTake (s : Simulator σ n) (e : Event n) (c : Fin n) : Bool :=
  shouldPreempt ((s.receive e).schedulers ()) (s.receive e).heap e.task (s.runningTasks c)

/-- The outcomes of handling an event. -/
inductive Turn (cfg : SimConfig) (s : Simulator σ n) (e : Event n) : Simulator σ n → Prop
  /-- The event is ignored. -/
  | skip : e.type ≠ .arrival →
      (e.type = .timeSlice → s.runningTasks e.coreId ≠ some e.task) →
      Turn cfg s e (s.pop e)
  /-- All cores are busy with tasks the new one should not preempt. -/
  | queued : e.type = .arrival → (∀ c, s.runningTasks c ≠ none) →
      (∀ c, s.shouldTake e c = false) → Turn cfg s e (s.receive e)
  /-- The new task finds an idle core. -/
  | woken {c : Fin n} {s' : Simulator σ n} : e.type = .arrival → s.runningTasks c = none →
      Next cfg slot c (s.receive e) s' → Turn cfg s e s'
  /-- The new task interrupts the first core it should take. -/
  | preempted {c : Fin n} {p : TaskPtr} {s' : Simulator σ n} : e.type = .arrival →
      (∀ c, s.runningTasks c ≠ none) → s.runningTasks c = some p →
      (List.finRange n).find? (s.shouldTake e) = some c →
      Next cfg slot c ((s.receive e).displace c p) s' → Turn cfg s e s'
  /-- The slice of the task on the core is over. -/
  | expired {s' : Simulator σ n} : e.type = .timeSlice →
      s.runningTasks e.coreId = some e.task →
      Next cfg slot e.coreId ((s.pop e).settle () e.coreId e.task) s' → Turn cfg s e s'

/-- How an arrival is handled, in terms of `receive` and `shouldTake`. -/
theorem handleArrival_pop : handleArrival cfg (s.pop e) e
    = match (List.finRange n).find? fun c => (s.runningTasks c).isNone with
      | some c => dispatchNext cfg (s.receive e) c
      | none =>
        match (List.finRange n).find? (s.shouldTake e) with
        | some c => dispatchNext cfg (preemptCore (s.receive e) c) c
        | none => s.receive e := rfl

variable [LawfulScheduler σ]

/-- What handling an event does, in full. -/
theorem turn_of_step (h : Step cfg s e s') : Turn cfg s e s' := by
  obtain ⟨-, -, rfl⟩ := h
  rw [handle]
  split
  next harr =>
    rw [handleArrival_pop]
    split
    next c hidle =>
      have hnone : s.runningTasks c = none := by simpa using List.find?_some hidle
      exact .woken harr hnone (next_dispatchNext _ c)
    next hidle =>
      have hbusy : ∀ c, s.runningTasks c ≠ none := by
        intro c hc
        have := List.find?_eq_none.1 hidle c (List.mem_finRange c)
        simp [hc] at this
      split
      next c hfind =>
        obtain ⟨p, hp⟩ := Option.ne_none_iff_exists'.1 (hbusy c)
        have hcur : (s.receive e).runningTasks c = some p := hp
        refine .preempted harr hbusy hp hfind ?_
        have heq : preemptCore (s.receive e) c = (s.receive e).displace c p := by
          rw [preemptCore, preemptCore_eq hcur, displace]
        rw [heq]
        exact next_dispatchNext _ c
      next hfind =>
        refine .queued harr hbusy fun c => ?_
        simpa using List.find?_eq_none.1 hfind c (List.mem_finRange c)
  next hslice =>
    rw [handleTimeSlice]
    split
    next hrun =>
      refine .skip (by simp [hslice]) fun _ => ?_
      rw [show s.runningTasks e.coreId = none from hrun]
      simp
    next p hrun =>
      have hp : s.runningTasks e.coreId = some p := hrun
      split
      next hne =>
        refine .skip (by simp [hslice]) fun _ => ?_
        rw [hp]
        simpa using hne
      next heq =>
        rw [not_not] at heq
        subst heq
        exact .expired hslice hp (next_dispatchNext _ _)
  next hna hnt => exact .skip hna fun h => absurd h hnt

end Simulator

end SchedSim
