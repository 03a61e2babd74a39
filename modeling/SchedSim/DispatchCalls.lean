import SchedSim.CoreTurns
import SchedSim.Parts
import SchedSim.SharedTurns

/-!
# The calls of `dispatch_next`

A handler calls `dispatch_next` at most once, and last.  What it did before that is said here
for both simulators, so that a statement can speak about the state in which a task is chosen.

* `Simulator.dispatchCall`, `MultiCoreSimulator.dispatchCall` — the core `dispatch_next` is
  called for, and the state it is called in.
* `Simulator.handle_of_dispatchCall`, `MultiCoreSimulator.handle_of_dispatchCall` — handling the
  event comes down to this call.
* `Machine.Calls` — the three ways to come to a call.
-/

namespace SchedSim

namespace Machine

variable {σ Q : Type} [Scheduler σ] [DecidableEq Q] {n : ℕ} {m m₁ : Machine σ Q n} {e : Event n}
  {c : Fin n} {cfg : SimConfig} {slot : Fin n → Q} {w : Workload}

/-- The ways a handler comes to call `dispatch_next` for a core. -/
inductive Calls (slot : Fin n → Q) (m : Machine σ Q n) (e : Event n) (c : Fin n) :
    Machine σ Q n → Prop
  /-- A new task finds the core idle. -/
  | woken : e.type = .arrival → m.runningTasks c = none →
      Calls slot m e c ((m.pop e).enqueue (slot c) e.task)
  /-- A new task preempts the one on the core. -/
  | preempted {p : TaskPtr} : e.type = .arrival → m.runningTasks c = some p →
      Calls slot m e c (((m.pop e).enqueue (slot c) e.task).yieldCore (slot c) c p).countSwitch
  /-- The slice of the task on the core is over. -/
  | expired : e.type = .timeSlice → m.runningTasks c = some e.task →
      Calls slot m e c ((m.pop e).settle (slot c) c e.task)

/-- The core is idle when `dispatch_next` is called for it. -/
theorem Calls.idle (h : Calls slot m e c m₁) : m₁.runningTasks c = none := by
  cases h with
  | woken _ hc => exact hc
  | preempted => rw [countSwitch_runningTasks, yieldCore_runningTasks, setAt_self]
  | expired => rw [settle_runningTasks, setAt_self]

theorem Calls.parts [Fintype Q] (h : Calls slot m e c m₁) (he : m.events.IsNext e)
    (hm : m.Roster w) (hfresh : ∀ r ∈ m.events.arrivals, (m.heap r).startTime < 0) :
    Parts w cfg slot m m₁ := by
  cases h with
  | woken harr => exact parts_arrived he harr hm hfresh
  | preempted harr hc => exact parts_preempted he harr hm hfresh hc
  | expired _ hc => exact parts_expired he hc

end Machine

/-! ## The single-queue simulator -/

namespace Simulator

open Machine

variable {σ : Type} [Scheduler σ] {n : ℕ} {cfg : SimConfig} {s s₁ : Simulator σ n} {e : Event n}
  {c : Fin n}

/-- The core `dispatch_next` is called for when the event is handled, and the state then. -/
def dispatchCall (s : Simulator σ n) (e : Event n) : Option (Fin n × Simulator σ n) :=
  match e.type with
  | .arrival =>
    match (List.finRange n).find? fun c => (s.runningTasks c).isNone with
    | some c => some (c, s.receive e)
    | none => ((List.finRange n).find? (s.shouldTake e)).map fun c =>
        (c, preemptCore (s.receive e) c)
  | .timeSlice =>
    match s.runningTasks e.coreId with
    | none => none
    | some p => if p = e.task then some (e.coreId, (s.pop e).settle () e.coreId p) else none
  | _ => none

/-- Handling the event ends with the call. -/
theorem handle_of_dispatchCall (h : s.dispatchCall e = some (c, s₁)) :
    handle cfg s e = dispatchNext cfg s₁ c := by
  rw [dispatchCall] at h
  split at h
  next harr =>
    have hhandle : handle cfg s e = handleArrival cfg (s.pop e) e := by rw [handle, harr]
    split at h
    next d hd =>
      obtain ⟨rfl, rfl⟩ := Prod.mk.inj (Option.some.inj h)
      rw [hhandle, handleArrival_pop, hd]
    next hd =>
      obtain ⟨d, hfind, heq⟩ := Option.map_eq_some_iff.1 h
      obtain ⟨rfl, rfl⟩ := Prod.mk.inj heq
      rw [hhandle, handleArrival_pop, hd, hfind]
  next hslice =>
    have hhandle : handle cfg s e = handleTimeSlice cfg (s.pop e) e := by rw [handle, hslice]
    split at h
    next => cases h
    next p hp =>
      have hrun : (s.pop e).runningTasks e.coreId = some p := hp
      split at h
      next heq =>
        obtain ⟨rfl, rfl⟩ := Prod.mk.inj (Option.some.inj h)
        rw [hhandle, handleTimeSlice, hrun]
        exact if_neg (not_not.2 heq)
      next => cases h
  next => cases h

theorem calls_of_dispatchCall (h : s.dispatchCall e = some (c, s₁)) : Calls slot s e c s₁ := by
  rw [dispatchCall] at h
  split at h
  next harr =>
    split at h
    next d hd =>
      obtain ⟨rfl, rfl⟩ := Prod.mk.inj (Option.some.inj h)
      exact .woken harr (by simpa using List.find?_some hd)
    next hbusy =>
      obtain ⟨d, hfind, heq⟩ := Option.map_eq_some_iff.1 h
      obtain ⟨rfl, rfl⟩ := Prod.mk.inj heq
      have hne : s.runningTasks d ≠ none := by
        intro hnone
        have := List.find?_eq_none.1 hbusy d (List.mem_finRange d)
        simp [hnone] at this
      obtain ⟨p, hp⟩ := Option.ne_none_iff_exists'.1 hne
      have hcur : (s.receive e).runningTasks d = some p := hp
      rw [preemptCore, preemptCore_eq hcur]
      exact .preempted harr hp
  next hslice =>
    split at h
    next => cases h
    next p hp =>
      split at h
      next heq =>
        subst heq
        obtain ⟨rfl, rfl⟩ := Prod.mk.inj (Option.some.inj h)
        exact .expired hslice hp
      next => cases h
  next => cases h

end Simulator

/-! ## The multi-queue simulator -/

namespace MultiCoreSimulator

open Machine

variable {σ : Type} [Scheduler σ] {n : ℕ} [NeZero n] {cfg : MultiConfig}
  {s s₁ : MultiCoreSimulator σ n} {e : Event n} {c : Fin n}

/-- The core `dispatch_next` is called for when the event is handled, and the state then. -/
def dispatchCall (s : MultiCoreSimulator σ n) (e : Event n) :
    Option (Fin n × MultiCoreSimulator σ n) :=
  match e.type with
  | .arrival =>
    match s.runningTasks s.target with
    | none => some (s.target, s.receive e)
    | some cur =>
      if shouldPreempt ((s.receive e).schedulers s.target) (s.receive e).heap e.task (some cur) then
        some (s.target, preemptCore (s.receive e) s.target)
      else none
  | .timeSlice =>
    match s.runningTasks e.coreId with
    | none => none
    | some p =>
      if p = e.task then
        some (e.coreId, { s with toMachine := (s.pop e).settle e.coreId e.coreId p })
      else none
  | _ => none

/-- Handling the event ends with the call. -/
theorem handle_of_dispatchCall (h : s.dispatchCall e = some (c, s₁)) :
    handle cfg s e = dispatchNext cfg s₁ c := by
  rw [dispatchCall] at h
  split at h
  next harr =>
    have hhandle : handle cfg s e
        = match s.runningTasks s.target with
          | none => dispatchNext cfg (s.receive e) s.target
          | some cur =>
            if shouldPreempt ((s.receive e).schedulers s.target) (s.receive e).heap e.task
                (some cur) then
              dispatchNext cfg (preemptCore (s.receive e) s.target) s.target
            else s.receive e := by
      rw [handle, harr]
      rfl
    split at h
    next hidle =>
      obtain ⟨rfl, rfl⟩ := Prod.mk.inj (Option.some.inj h)
      rw [hhandle, hidle]
    next cur hcur =>
      split at h
      next hshould =>
        obtain ⟨rfl, rfl⟩ := Prod.mk.inj (Option.some.inj h)
        rw [hhandle, hcur]
        exact if_pos hshould
      next => cases h
  next hslice =>
    have hhandle : handle cfg s e = handleTimeSlice cfg { s with toMachine := s.pop e } e := by
      rw [handle, hslice]
    split at h
    next => cases h
    next p hp =>
      have hrun : (s.pop e).runningTasks e.coreId = some p := hp
      split at h
      next heq =>
        obtain ⟨rfl, rfl⟩ := Prod.mk.inj (Option.some.inj h)
        rw [hhandle, handleTimeSlice, hrun]
        exact if_neg (not_not.2 heq)
      next => cases h
  next => cases h

theorem calls_of_dispatchCall (h : s.dispatchCall e = some (c, s₁)) :
    Calls slot s.toMachine e c s₁.toMachine := by
  rw [dispatchCall] at h
  split at h
  next harr =>
    split at h
    next hidle =>
      obtain ⟨rfl, rfl⟩ := Prod.mk.inj (Option.some.inj h)
      exact .woken harr hidle
    next cur hcur =>
      split at h
      next =>
        obtain ⟨rfl, rfl⟩ := Prod.mk.inj (Option.some.inj h)
        have hrun : (s.receive e).runningTasks s.target = some cur := hcur
        rw [preemptCore, Machine.preemptCore_eq hrun]
        exact .preempted harr hcur
      next => cases h
  next hslice =>
    split at h
    next => cases h
    next p hp =>
      split at h
      next heq =>
        subst heq
        obtain ⟨rfl, rfl⟩ := Prod.mk.inj (Option.some.inj h)
        exact .expired hslice hp
      next => cases h
  next => cases h

end MultiCoreSimulator

end SchedSim
