import SchedSim.Task
import Mathlib.Data.List.MinMax

/-!
# Events and the event queue

`scheduler/event.hpp` and `src/core/event.cpp`.  The queue is ordered by time
only, so several pending events may be next; the simulators may meet them in
any order, and `IsNext` leaves the choice open.
-/

namespace SchedSim

inductive EventType
  | arrival
  | timeSlice
  | completion
  | priorityBoost
  deriving DecidableEq

/-- One core is a core. -/
instance instNeZeroOne : NeZero (1 : ℕ) := ⟨Nat.one_ne_zero⟩

/-- A discrete event, on one of `n` cores. -/
structure Event (n : ℕ) where
  type : EventType
  time : ℚ
  task : TaskPtr
  coreId : Fin n
  deriving DecidableEq

/-- The pending events. -/
abbrev EventQueue (n : ℕ) := List (Event n)

namespace EventQueue

variable {n : ℕ}

def schedule (q : EventQueue n) (e : Event n) : EventQueue n := q ++ [e]

/-- The method has an empty body: the events of the task stay where they are. -/
def cancelTask (q : EventQueue n) (_ : TaskPtr) : EventQueue n := q

/-- `get_next` may return any pending event of least time. -/
def IsNext (q : EventQueue n) (e : Event n) : Prop := e ∈ q ∧ ∀ e' ∈ q, e.time ≤ e'.time

instance (q : EventQueue n) (e : Event n) : Decidable (q.IsNext e) :=
  inferInstanceAs (Decidable (_ ∧ _))

/-- One choice `get_next` may make: the event scheduled first among those of
least time. -/
def getNext (q : EventQueue n) : Option (Event n) := q.argmin Event.time

theorem isNext_of_getNext {q : EventQueue n} {e : Event n} (h : q.getNext = some e) :
    q.IsNext e :=
  ⟨List.argmin_mem h, fun _ he' => List.le_of_mem_argmin he' h⟩

/-- The arrivals that are still to be handled. -/
def arrivals (q : EventQueue n) : List TaskPtr :=
  (q.filter fun e => e.type = .arrival).map Event.task

theorem mem_arrivals {q : EventQueue n} {p : TaskPtr} :
    p ∈ q.arrivals ↔ ∃ e ∈ q, e.type = .arrival ∧ e.task = p := by
  simp [arrivals, and_assoc]

theorem arrivals_schedule (q : EventQueue n) {e : Event n} (he : e.type ≠ .arrival) :
    (q.schedule e).arrivals = q.arrivals := by
  simp [arrivals, schedule, he]

theorem arrivals_erase_perm (q : EventQueue n) {e : Event n} (he : e ∈ q) :
    q.arrivals.Perm (arrivals (e :: q.erase e)) :=
  ((List.perm_cons_erase he).filter _).map _

theorem count_arrivals_erase (q : EventQueue n) {e : Event n} (he : e ∈ q) (p : TaskPtr) :
    q.arrivals.count p
      = (arrivals (q.erase e)).count p + if e.type = .arrival ∧ e.task = p then 1 else 0 := by
  rw [(q.arrivals_erase_perm he).count_eq]
  by_cases ht : e.type = .arrival
  · simp [arrivals, ht, List.count_cons]
  · simp [arrivals, ht]

theorem length_arrivals_erase (q : EventQueue n) {e : Event n} (he : e ∈ q) :
    q.arrivals.length = (arrivals (q.erase e)).length + if e.type = .arrival then 1 else 0 := by
  rw [(q.arrivals_erase_perm he).length_eq]
  by_cases ht : e.type = .arrival
  · simp [arrivals, ht]
  · simp [arrivals, ht]

end EventQueue

end SchedSim
