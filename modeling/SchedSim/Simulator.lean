import SchedSim.Lts
import SchedSim.Machine

/-!
# The single-queue simulator

`scheduler/simulator.hpp` and `src/core/simulator.cpp`: one scheduler serves
all cores.  `Simulator.Step` is one turn of the loop of `run`; which of several
simultaneous events is met first is left open.
-/

namespace SchedSim

/-- The state of the single-queue simulator with `n` cores. -/
abbrev Simulator (σ : Type) (n : ℕ) := Machine σ Unit n

namespace Simulator

variable {σ : Type} [Scheduler σ] {n : ℕ}

/-- A simulator to which the tasks of a workload have been added. -/
def init [NeZero n] (scheduler : σ) (w : Workload) : Simulator σ n :=
  Machine.init (fun _ => scheduler) w

def dispatchNext (cfg : SimConfig) (s : Simulator σ n) (c : Fin n) : Simulator σ n :=
  if readyCount (s.schedulers ()) = 0 then s.clearCore c
  else
    match schedule (s.schedulers ()) s.heap with
    | ⟨none, _⟩ => s.clearCore c
    | ⟨some p, timeSlice⟩ => s.dispatch cfg () c p timeSlice

def preemptCore (s : Simulator σ n) (c : Fin n) : Simulator σ n := Machine.preemptCore s () c

/-- A new task goes to an idle core if there is one, and otherwise may take the
first core whose task it should preempt. -/
def handleArrival (cfg : SimConfig) (s : Simulator σ n) (e : Event n) : Simulator σ n :=
  let s := s.enqueue () e.task
  match (List.finRange n).find? fun c => (s.runningTasks c).isNone with
  | some c => dispatchNext cfg s c
  | none =>
    match (List.finRange n).find? fun c =>
      shouldPreempt (s.schedulers ()) s.heap e.task (s.runningTasks c) with
    | some c => dispatchNext cfg (preemptCore s c) c
    | none => s

/-- The end of a slice; events whose task is not on the core any more are ignored. -/
def handleTimeSlice (cfg : SimConfig) (s : Simulator σ n) (e : Event n) : Simulator σ n :=
  match s.runningTasks e.coreId with
  | none => s
  | some p => if p ≠ e.task then s else dispatchNext cfg (s.settle () e.coreId p) e.coreId

/-- The body of the loop of `run`, for an event that is not past the stop time. -/
def handle (cfg : SimConfig) (s : Simulator σ n) (e : Event n) : Simulator σ n :=
  match e.type with
  | .arrival => handleArrival cfg (s.pop e) e
  | .timeSlice => handleTimeSlice cfg (s.pop e) e
  | _ => s.pop e

/-- One turn of the loop. -/
def Step (cfg : SimConfig) (s : Simulator σ n) (e : Event n) (s' : Simulator σ n) : Prop :=
  s.events.IsNext e ∧ e.time ≤ cfg.stopTime ∧ s' = handle cfg s e

/-- The state after `k` turns, or where the loop stops before that, when
simultaneous events are met in the order they were scheduled. -/
def turns (cfg : SimConfig) : ℕ → Simulator σ n → Simulator σ n
  | 0, s => s
  | k + 1, s =>
    match s.events.getNext with
    | none => s
    | some e => if e.time ≤ cfg.stopTime then turns cfg k (handle cfg s e) else s

theorem turns_succ (cfg : SimConfig) (s : Simulator σ n) :
    (∀ k, turns cfg (k + 1) s = s) ∨ ∃ e t, (s.events.getNext = some e ∧ Step cfg s e t) ∧
      ∀ k, turns cfg (k + 1) s = turns cfg k t := by
  simp only [turns]
  cases hnext : s.events.getNext with
  | none => exact .inl fun _ => rfl
  | some e =>
    by_cases hstop : e.time ≤ cfg.stopTime
    · exact .inr ⟨e, _, ⟨rfl, EventQueue.isNext_of_getNext hnext, hstop, rfl⟩,
        fun _ => if_pos hstop⟩
    · exact .inl fun _ => if_neg hstop

theorem reachable_turns (cfg : SimConfig) (k : ℕ) (s : Simulator σ n) :
    Lts.Reachable (Step cfg) s (turns cfg k s) :=
  .of_turns (fun _ => rfl) (turns_succ cfg) k s fun _ _ _ _ h => h.2

/-- The same when each of the turns has a property. -/
theorem reachable_turns_of {P : Simulator σ n → Event n → Prop} (cfg : SimConfig) (k : ℕ)
    (s : Simulator σ n)
    (h : ∀ i < k, ∀ e ∈ (turns cfg i s).events.getNext, P (turns cfg i s) e) :
    Lts.Reachable (fun s e s' => Step cfg s e s' ∧ P s e) s (turns cfg k s) :=
  .of_turns (fun _ => rfl) (turns_succ cfg) k s fun i hi e _ hnext => ⟨hnext.2, h i hi e hnext.1⟩

end Simulator

end SchedSim
