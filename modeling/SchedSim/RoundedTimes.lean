import SchedSim.Binary64
import SchedSim.Schedulers.Stride
import SchedSim.Simulator

/-!
# Times that are rounded

`src/core/simulator.cpp` and the methods it calls once more, with every sum, difference, product and
quotient of times rounded as a `double` is.  Elsewhere in this development times are exact, which is
the rounding `Rounding.exact`; a slice that was granted a quantum may be measured as a little less
than one only here.

* `Rounding` — what rounding has to keep.
* `Rounding.Step` — one turn of the single-queue simulator.
* `StrideScheduler.Rounded` — Stride with its quotients rounded.
* `Rounding.step_exact` — without rounding this is the simulator of the other modules.
-/

namespace SchedSim

/-- How the exact result of an operation is rounded. -/
structure Rounding where
  round : ℚ → ℚ
  monotone : Monotone round
  round_zero : round 0 = 0
  round_round : ∀ x, round (round x) = round x

namespace Rounding

instance : CoeFun Rounding fun _ => ℚ → ℚ := ⟨Rounding.round⟩

/-- Nothing is rounded. -/
def exact : Rounding := ⟨id, monotone_id, rfl, fun _ => rfl⟩

/-- The nearest double, as if the exponent had no upper bound -/
def binary64 : Rounding :=
  ⟨Binary64.nearest, Binary64.nearest_mono, Binary64.nearest_zero, Binary64.nearest_nearest⟩

variable (fl : Rounding) {σ : Type} [Scheduler σ] {n : ℕ}

/-! ## Tasks -/

def execute (t : Task) (duration : ℚ) : Task :=
  let left := fl (t.remainingTime - duration)
  { t with remainingTime := if left < 0 then 0 else left }

/-- `0.001` is rounded as well. -/
def isCompleted (t : Task) : Bool := t.remainingTime ≤ fl (1 / 1000)

def markDispatched (t : Task) (time : ℚ) : Task :=
  if !t.inReadyQueue then t
  else { t with
    waitTime := fl (t.waitTime + max 0 (fl (time - t.readyEnterTime)))
    inReadyQueue := false }

/-! ## The blocks of the simulator -/

def elapsed (m : Simulator σ n) (c : Fin n) : ℚ := fl (m.currentTime - m.lastEventTime c)

def charge (m : Simulator σ n) (c : Fin n) (p : TaskPtr) : Simulator σ n :=
  let (s, h) := onCpuUsed (m.schedulers ()) (m.heap.modify p (fl.execute · (fl.elapsed m c))) p
    (fl.elapsed m c)
  { m with
    schedulers := setAt m.schedulers () s
    heap := h
    history := .charged c p (fl.elapsed m c) :: m.history }

def settle (m : Simulator σ n) (c : Fin n) (p : TaskPtr) : Simulator σ n :=
  let m' := fl.charge m c p
  if fl.isCompleted (m'.heap p) then m'.finish c p else m'.requeue () c p

def preemptCore (m : Simulator σ n) (c : Fin n) : Simulator σ n :=
  match m.runningTasks c with
  | none => m
  | some p =>
    let m' := fl.charge m c p
    let m' := { m' with events := m'.events.cancelTask p }
    (m'.requeue () c p).countSwitch

/-- Put a task on a core and schedule the event that ends its slice. -/
def startOn (cfg : SimConfig) (m : Simulator σ n) (c : Fin n) (p : TaskPtr) (timeSlice : ℚ) :
    Simulator σ n :=
  let granted := Machine.grant cfg timeSlice (m.heap p).remainingTime
  { m.countSwitch with
    runningTasks := setAt m.runningTasks c (some p)
    heap := m.heap.modify p fun t => (fl.markDispatched t m.currentTime).start m.currentTime
    lastEventTime := setAt m.lastEventTime c m.currentTime
    events := m.events.schedule ⟨.timeSlice, fl (m.currentTime + granted), p, c⟩
    history := .dispatched c p granted :: m.history }

def dispatch (cfg : SimConfig) (m : Simulator σ n) (c : Fin n) (p : TaskPtr) (timeSlice : ℚ) :
    Simulator σ n := fl.startOn cfg (m.removeReady () p) c p timeSlice

/-! ## The simulator -/

def dispatchNext (cfg : SimConfig) (s : Simulator σ n) (c : Fin n) : Simulator σ n :=
  if readyCount (s.schedulers ()) = 0 then s.clearCore c
  else
    match schedule (s.schedulers ()) s.heap with
    | ⟨none, _⟩ => s.clearCore c
    | ⟨some p, timeSlice⟩ => fl.dispatch cfg s c p timeSlice

def handleArrival (cfg : SimConfig) (s : Simulator σ n) (e : Event n) : Simulator σ n :=
  let s := s.enqueue () e.task
  match (List.finRange n).find? fun c => (s.runningTasks c).isNone with
  | some c => fl.dispatchNext cfg s c
  | none =>
    match (List.finRange n).find? fun c =>
      shouldPreempt (s.schedulers ()) s.heap e.task (s.runningTasks c) with
    | some c => fl.dispatchNext cfg (fl.preemptCore s c) c
    | none => s

def handleTimeSlice (cfg : SimConfig) (s : Simulator σ n) (e : Event n) : Simulator σ n :=
  match s.runningTasks e.coreId with
  | none => s
  | some p =>
    if p ≠ e.task then s else fl.dispatchNext cfg (fl.settle s e.coreId p) e.coreId

def handle (cfg : SimConfig) (s : Simulator σ n) (e : Event n) : Simulator σ n :=
  match e.type with
  | .arrival => fl.handleArrival cfg (s.pop e) e
  | .timeSlice => fl.handleTimeSlice cfg (s.pop e) e
  | _ => s.pop e

/-- One turn of the loop. -/
def Step (cfg : SimConfig) (s : Simulator σ n) (e : Event n) (s' : Simulator σ n) : Prop :=
  s.events.IsNext e ∧ e.time ≤ cfg.stopTime ∧ s' = fl.handle cfg s e

/-- Without rounding the turns are those of the simulator. -/
theorem step_exact (cfg : SimConfig) :
    (exact.Step cfg : Simulator σ n → Event n → Simulator σ n → Prop) = Simulator.Step cfg := rfl

/-- The state after `k` turns, or where the loop stops before that, when simultaneous events are met
in the order they were scheduled. -/
def turns (cfg : SimConfig) : ℕ → Simulator σ n → Simulator σ n
  | 0, s => s
  | k + 1, s =>
    match s.events.getNext with
    | none => s
    | some e => if e.time ≤ cfg.stopTime then turns cfg k (fl.handle cfg s e) else s

theorem turns_succ (cfg : SimConfig) (s : Simulator σ n) :
    (∀ k, fl.turns cfg (k + 1) s = s) ∨ ∃ e t, (s.events.getNext = some e ∧ fl.Step cfg s e t) ∧
      ∀ k, fl.turns cfg (k + 1) s = fl.turns cfg k t := by
  simp only [turns]
  cases hnext : s.events.getNext with
  | none => exact .inl fun _ => rfl
  | some e =>
    by_cases hstop : e.time ≤ cfg.stopTime
    · exact .inr ⟨e, _, ⟨rfl, EventQueue.isNext_of_getNext hnext, hstop, rfl⟩,
        fun _ => if_pos hstop⟩
    · exact .inl fun _ => if_neg hstop

theorem reachable_turns_of {P : Simulator σ n → Event n → Prop} (cfg : SimConfig) (k : ℕ)
    (s : Simulator σ n)
    (h : ∀ i < k, ∀ e ∈ (fl.turns cfg i s).events.getNext, P (fl.turns cfg i s) e) :
    Lts.Reachable (fun s e s' => fl.Step cfg s e s' ∧ P s e) s (fl.turns cfg k s) :=
  .of_turns (fun _ => rfl) (fl.turns_succ cfg) k s
    fun i hi e _ hnext => ⟨hnext.2, h i hi e hnext.1⟩

end Rounding

/-! ## Stride -/

namespace StrideScheduler

/-- Stride, when quotients are rounded. -/
def Rounded (_ : Rounding) : Type := StrideScheduler

namespace Rounded

variable (fl : Rounding)

/-- The whole part of the used part of the stride, in doubles -/
def passAdvance (params : StrideParams) (stride : UInt32) (cpuTime : ℚ) : UInt32 :=
  let fraction := fl (cpuTime / params.quantum)
  UInt32.ofNat (truncate (fl (stride.toNat * fraction))).toNat

def onCpuUsed (s : StrideScheduler) (h : Heap) (p : TaskPtr) (cpuTime : ℚ) :
    StrideScheduler × Heap :=
  let h' := h.modify p fun t =>
    { t with passValue := t.passValue + max (passAdvance fl s.params t.stride cpuTime) 1 }
  (s.updateGlobalPass h', h')

instance : Scheduler (Rounded fl) where
  readyTasks s := s.readyQueue
  addTask := addTask
  removeTask := removeTask
  schedule := schedule
  onCpuUsed := onCpuUsed fl
  shouldPreempt := shouldPreempt
  readyCount s := s.readyQueue.length

/-- Without rounding this is Stride. -/
theorem scheduler_exact :
    (inferInstance : Scheduler (Rounded .exact))
      = (inferInstance : Scheduler StrideScheduler) := rfl

end Rounded

end StrideScheduler

end SchedSim
