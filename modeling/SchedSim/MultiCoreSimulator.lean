import SchedSim.Lts
import SchedSim.Machine

/-!
# The multi-queue simulator

`scheduler/load_balancer.hpp`, `scheduler/multi_core_simulator.hpp` and
`src/core/multi_core_simulator.cpp`: every core has a scheduler of its own, a
load balancer assigns arriving tasks to cores, and an idle core may steal.
-/

namespace SchedSim

/-! ## Load balancers -/

/-- A task-to-core assignment strategy with its state. -/
inductive LoadBalancer
  | roundRobin (nextCore : ℕ)
  | leastLoaded
  deriving DecidableEq

namespace LoadBalancer

variable {n : ℕ}

/-- Queued tasks of a core, plus the running one. -/
def load (ready : Fin n → ℕ) (runningTasks : Fin n → Option TaskPtr) (c : Fin n) : ℕ :=
  ready c + if (runningTasks c).isSome then 1 else 0

/-- The core an arriving task goes to, and the balancer afterwards.  The first
core is kept when no core has a smaller load. -/
def assign [NeZero n] (ready : Fin n → ℕ) (runningTasks : Fin n → Option TaskPtr) :
    LoadBalancer → Fin n × LoadBalancer
  | .roundRobin nextCore =>
    (⟨nextCore % n, Nat.mod_lt _ (NeZero.pos n)⟩, .roundRobin ((nextCore + 1) % n))
  | .leastLoaded =>
    (((List.finRange n).argmin (load ready runningTasks)).getD 0, .leastLoaded)

end LoadBalancer

/-! ## The simulator -/

/-- `SimConfig` and the switch for work stealing. -/
structure MultiConfig extends SimConfig where
  enableWorkStealing : Bool := true

/-- The state of the multi-queue simulator with `n` cores. -/
structure MultiCoreSimulator (σ : Type) (n : ℕ) extends Machine σ (Fin n) n where
  balancer : LoadBalancer
  workSteals : UInt32

namespace MultiCoreSimulator

variable {σ : Type} [Scheduler σ] {n : ℕ}

/-- A simulator to which the tasks of a workload have been added; the factory
makes the same fresh scheduler for every core. -/
def init [NeZero n] (scheduler : σ) (balancer : LoadBalancer) (w : Workload) :
    MultiCoreSimulator σ n where
  toMachine := Machine.init (fun _ => scheduler) w
  balancer := balancer
  workSteals := 0

/-- The other core with the most ready tasks, if some other core has two; the
first one wins when several have the most. -/
def busiestCore (s : MultiCoreSimulator σ n) (idleCore : Fin n) : Option (Fin n) :=
  ((List.finRange n).foldl
    (fun (best : Option (Fin n) × ℕ) c =>
      if c = idleCore then best
      else if best.2 < readyCount (s.schedulers c) then (some c, readyCount (s.schedulers c))
      else best)
    (none, 1)).1

/-- Steal the next-to-run task of the busiest core and dispatch from the own
queue; the flag says whether a task was dispatched. -/
def tryWorkSteal (cfg : MultiConfig) (s : MultiCoreSimulator σ n) (idleCore : Fin n) :
    Bool × MultiCoreSimulator σ n :=
  match s.busiestCore idleCore with
  | none => (false, s)
  | some b =>
    match schedule (s.schedulers b) s.heap with
    | ⟨none, _⟩ => (false, s)
    | ⟨some stolen, _⟩ =>
      let s := { s with
        toMachine := s.migrate b idleCore stolen
        workSteals := s.workSteals + 1 }
      match schedule (s.schedulers idleCore) s.heap with
      | ⟨none, _⟩ => (false, s)
      | ⟨some p, timeSlice⟩ =>
        (true, { s with
          toMachine := s.dispatch cfg.toSimConfig idleCore idleCore p timeSlice })

/-- What is left to do when the own queue gave no task. -/
def stealOrIdle (cfg : MultiConfig) (s : MultiCoreSimulator σ n) (c : Fin n) :
    MultiCoreSimulator σ n :=
  if cfg.enableWorkStealing then
    match tryWorkSteal cfg s c with
    | (true, s') => s'
    | (false, s') => { s' with toMachine := s'.clearCore c }
  else { s with toMachine := s.clearCore c }

/-- The own queue comes first, then stealing. -/
def dispatchNext (cfg : MultiConfig) (s : MultiCoreSimulator σ n) (c : Fin n) :
    MultiCoreSimulator σ n :=
  if 0 < readyCount (s.schedulers c) then
    match schedule (s.schedulers c) s.heap with
    | ⟨some p, timeSlice⟩ =>
      { s with toMachine := s.dispatch cfg.toSimConfig c c p timeSlice }
    | ⟨none, _⟩ => stealOrIdle cfg s c
  else stealOrIdle cfg s c

def preemptCore (s : MultiCoreSimulator σ n) (c : Fin n) : MultiCoreSimulator σ n :=
  { s with toMachine := s.toMachine.preemptCore c c }

/-- The balancer assigns the task; an idle target core dispatches at once, a
busy one may be preempted. -/
def handleArrival [NeZero n] (cfg : MultiConfig) (s : MultiCoreSimulator σ n) (e : Event n) :
    MultiCoreSimulator σ n :=
  let (target, balancer) :=
    s.balancer.assign (fun c => readyCount (s.schedulers c)) s.runningTasks
  let s := { s with toMachine := s.enqueue target e.task, balancer := balancer }
  match s.runningTasks target with
  | none => dispatchNext cfg s target
  | some cur =>
    if shouldPreempt (s.schedulers target) s.heap e.task (some cur) then
      dispatchNext cfg (preemptCore s target) target
    else s

/-- The end of a slice; events whose task is not on the core any more are ignored. -/
def handleTimeSlice (cfg : MultiConfig) (s : MultiCoreSimulator σ n) (e : Event n) :
    MultiCoreSimulator σ n :=
  match s.runningTasks e.coreId with
  | none => s
  | some p =>
    if p ≠ e.task then s
    else dispatchNext cfg { s with toMachine := s.settle e.coreId e.coreId p } e.coreId

/-- The body of the loop of `run`, for an event that is not past the stop time. -/
def handle [NeZero n] (cfg : MultiConfig) (s : MultiCoreSimulator σ n) (e : Event n) :
    MultiCoreSimulator σ n :=
  let popped := { s with toMachine := s.pop e }
  match e.type with
  | .arrival => handleArrival cfg popped e
  | .timeSlice => handleTimeSlice cfg popped e
  | _ => popped

/-- One turn of the loop. -/
def Step [NeZero n] (cfg : MultiConfig) (s : MultiCoreSimulator σ n) (e : Event n)
    (s' : MultiCoreSimulator σ n) : Prop :=
  s.events.IsNext e ∧ e.time ≤ cfg.stopTime ∧ s' = handle cfg s e

/-- The state after `k` turns, or where the loop stops before that, when
simultaneous events are met in the order they were scheduled. -/
def turns [NeZero n] (cfg : MultiConfig) : ℕ → MultiCoreSimulator σ n → MultiCoreSimulator σ n
  | 0, s => s
  | k + 1, s =>
    match s.events.getNext with
    | none => s
    | some e => if e.time ≤ cfg.stopTime then turns cfg k (handle cfg s e) else s

theorem turns_succ [NeZero n] (cfg : MultiConfig) (s : MultiCoreSimulator σ n) :
    (∀ k, turns cfg (k + 1) s = s) ∨ ∃ e t, (s.events.getNext = some e ∧ Step cfg s e t) ∧
      ∀ k, turns cfg (k + 1) s = turns cfg k t := by
  simp only [turns]
  cases hnext : s.events.getNext with
  | none => exact .inl fun _ => rfl
  | some e =>
    by_cases hstop : e.time ≤ cfg.stopTime
    · exact .inr ⟨e, _, ⟨rfl, EventQueue.isNext_of_getNext hnext, hstop, rfl⟩,
        fun _ => if_pos hstop⟩
    · exact .inl fun _ => if_neg hstop

theorem reachable_turns [NeZero n] (cfg : MultiConfig) (k : ℕ) (s : MultiCoreSimulator σ n) :
    Lts.Reachable (Step cfg) s (turns cfg k s) :=
  .of_turns (fun _ => rfl) (turns_succ cfg) k s fun _ _ _ _ h => h.2

/-- The same when each of the turns has a property. -/
theorem reachable_turns_of [NeZero n] {P : MultiCoreSimulator σ n → Event n → Prop}
    (cfg : MultiConfig) (k : ℕ) (s : MultiCoreSimulator σ n)
    (h : ∀ i < k, ∀ e ∈ (turns cfg i s).events.getNext, P (turns cfg i s) e) :
    Lts.Reachable (fun s e s' => Step cfg s e s' ∧ P s e) s (turns cfg k s) :=
  .of_turns (fun _ => rfl) (turns_succ cfg) k s fun i hi e _ hnext => ⟨hnext.2, h i hi e hnext.1⟩

end MultiCoreSimulator

end SchedSim
