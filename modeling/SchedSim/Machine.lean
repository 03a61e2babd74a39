import SchedSim.Event
import SchedSim.Scheduler

/-!
# What the two simulators share

`Simulator` and `MultiCoreSimulator` keep the same fields and repeat the same
blocks of statements; they differ in how many schedulers there are and in which
one serves a core.  `Machine σ Q n` has `n` cores and one scheduler of type `σ`
for each index of `Q`, and the operations below are the repeated blocks.

`history` is not a field of the source: it records what the local variables of
`dispatch_next` and of the accounting code held, so that a statement can speak
about them.  No operation reads it.
-/

namespace SchedSim

/-- What the history records. -/
inductive Action (n : ℕ)
  /-- A dispatch put the task on the core; its slice event is due after `granted`. -/
  | dispatched (core : Fin n) (task : TaskPtr) (granted : ℚ)
  /-- The task on the core was charged for `elapsed`. -/
  | charged (core : Fin n) (task : TaskPtr) (elapsed : ℚ)
  deriving DecidableEq

/-- The constructor argument `default_time_slice` and the argument of `run`. -/
structure SimConfig where
  stopTime : ℚ
  defaultTimeSlice : ℚ := 5
  defaultTimeSlice_pos : 0 < defaultTimeSlice := by decide

/-- The fields of a simulator. -/
structure Machine (σ Q : Type) (n : ℕ) where
  schedulers : Q → σ
  heap : Heap
  events : EventQueue n
  currentTime : ℚ
  runningTasks : Fin n → Option TaskPtr
  lastEventTime : Fin n → ℚ
  completedTasks : List TaskPtr
  contextSwitches : UInt32
  preemptions : UInt32
  history : List (Action n)

namespace Machine

variable {σ Q : Type} [Scheduler σ] [DecidableEq Q] {n : ℕ}

/-- A new simulator, with an arrival event for every task of the workload.  The
event is made for core 0, whichever core the task will go to. -/
def init [NeZero n] (schedulers : Q → σ) (w : Workload) : Machine σ Q n where
  schedulers := schedulers
  heap := w.heap
  events := w.added.map fun p => ⟨.arrival, (w.heap p).arrivalTime, p, 0⟩
  currentTime := 0
  runningTasks := fun _ => none
  lastEventTime := fun _ => 0
  completedTasks := []
  contextSwitches := 0
  preemptions := 0
  history := []

/-- The ready tasks of one scheduler. -/
def ready (m : Machine σ Q n) (q : Q) : List TaskPtr := readyTasks (m.schedulers q)

/-! ## The repeated blocks -/

/-- Take the next event off the queue and move the clock to it. -/
def pop (m : Machine σ Q n) (e : Event n) : Machine σ Q n :=
  { m with events := m.events.erase e, currentTime := e.time }

/-- `task->mark_ready(..); scheduler->add_task(task, ..)` -/
def enqueue (m : Machine σ Q n) (q : Q) (p : TaskPtr) : Machine σ Q n :=
  let (s, h) := addTask (m.schedulers q) (m.heap.modify p (·.markReady m.currentTime)) p
  { m with schedulers := setAt m.schedulers q s, heap := h }

/-- The CPU time the task on a core has used since it was dispatched. -/
def elapsed (m : Machine σ Q n) (c : Fin n) : ℚ := m.currentTime - m.lastEventTime c

/-- `task->execute(elapsed); scheduler->on_cpu_used(task, elapsed, ..)` -/
def charge (m : Machine σ Q n) (q : Q) (c : Fin n) (p : TaskPtr) : Machine σ Q n :=
  let (s, h) := onCpuUsed (m.schedulers q) (m.heap.modify p (·.execute (m.elapsed c))) p
    (m.elapsed c)
  { m with
    schedulers := setAt m.schedulers q s
    heap := h
    history := .charged c p (m.elapsed c) :: m.history }

/-- `running_tasks_[core_id] = nullptr` -/
def clearCore (m : Machine σ Q n) (c : Fin n) : Machine σ Q n :=
  { m with runningTasks := setAt m.runningTasks c none }

/-- The task on a core has finished. -/
def finish (m : Machine σ Q n) (c : Fin n) (p : TaskPtr) : Machine σ Q n :=
  { m.clearCore c with
    heap := m.heap.modify p (·.complete m.currentTime)
    completedTasks := m.completedTasks ++ [p] }

/-- The task on a core goes back to a ready queue. -/
def requeue (m : Machine σ Q n) (q : Q) (c : Fin n) (p : TaskPtr) : Machine σ Q n :=
  { m.clearCore c with
    heap := m.heap.modify p Task.incrementPreemptions
    preemptions := m.preemptions + 1 }.enqueue q p

/-- The end of a slice up to the call of `dispatch_next`: charge the task, then
complete it or put it back. -/
def settle (m : Machine σ Q n) (q : Q) (c : Fin n) (p : TaskPtr) : Machine σ Q n :=
  let m' := m.charge q c p
  if (m'.heap p).isCompleted then m'.finish c p else m'.requeue q c p

/-- `context_switches_++` -/
def countSwitch (m : Machine σ Q n) : Machine σ Q n :=
  { m with contextSwitches := m.contextSwitches + 1 }

/-- `preempt_core`: charge the task and put it back, whatever is left of it. -/
def preemptCore (m : Machine σ Q n) (q : Q) (c : Fin n) : Machine σ Q n :=
  match m.runningTasks c with
  | none => m
  | some p =>
    let m' := m.charge q c p
    let m' := { m' with events := m'.events.cancelTask p }
    (m'.requeue q c p).countSwitch

/-- `scheduler->remove_task(task->id())` -/
def removeReady (m : Machine σ Q n) (q : Q) (p : TaskPtr) : Machine σ Q n :=
  { m with
    schedulers := setAt m.schedulers q
      (removeTask (m.schedulers q) m.heap (m.heap p).id) }

/-- The slice a decision grants: the default when the scheduler gives none, and
never more than the task needs. -/
def grant (cfg : SimConfig) (timeSlice remaining : ℚ) : ℚ :=
  min (if 0 < timeSlice then timeSlice else cfg.defaultTimeSlice) remaining

/-- Put a task on a core and schedule the event that ends its slice. -/
def startOn (cfg : SimConfig) (m : Machine σ Q n) (c : Fin n) (p : TaskPtr) (timeSlice : ℚ) :
    Machine σ Q n :=
  let granted := grant cfg timeSlice (m.heap p).remainingTime
  { m.countSwitch with
    runningTasks := setAt m.runningTasks c (some p)
    heap := m.heap.modify p fun t => (t.markDispatched m.currentTime).start m.currentTime
    lastEventTime := setAt m.lastEventTime c m.currentTime
    events := m.events.schedule ⟨.timeSlice, m.currentTime + granted, p, c⟩
    history := .dispatched c p granted :: m.history }

/-- Take a task out of a ready queue and put it on a core. -/
def dispatch (cfg : SimConfig) (m : Machine σ Q n) (q : Q) (c : Fin n) (p : TaskPtr)
    (timeSlice : ℚ) : Machine σ Q n := (m.removeReady q p).startOn cfg c p timeSlice

/-- Move a ready task from one scheduler to another. -/
def migrate (m : Machine σ Q n) (b q : Q) (p : TaskPtr) : Machine σ Q n :=
  let m' := m.removeReady b p
  let (s, h) := addTask (m'.schedulers q) m'.heap p
  { m' with schedulers := setAt m'.schedulers q s, heap := h }

/-! ## What the history says -/

/-- The slice an entry of the history grants to a core. -/
def grantedOn (c : Fin n) : Action n → Option ℚ
  | .dispatched c' _ g => if c' = c then some g else none
  | .charged .. => none

/-- The slice an entry of the history grants to a task. -/
def grantedTo (p : TaskPtr) : Action n → Option ℚ
  | .dispatched _ p' g => if p' = p then some g else none
  | .charged .. => none

/-- The slice granted by the last dispatch on a core. -/
def granted (m : Machine σ Q n) (c : Fin n) : ℚ := (m.history.findSome? (grantedOn c)).getD 0

/-- The last slice granted to a task, on whatever core. -/
def lastGrant (m : Machine σ Q n) (p : TaskPtr) : ℚ := (m.history.findSome? (grantedTo p)).getD 0

end Machine

end SchedSim
