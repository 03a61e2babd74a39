import Mathlib.Data.Rat.Floor
import Mathlib.Tactic.Linarith
import Mathlib.Tactic.NormNum
import Mathlib.Tactic.Positivity
import Mathlib.Tactic.Ring

/-!
# Tasks

`scheduler/task.hpp` and `src/core/task.cpp`: the record of one schedulable
unit of work and the methods the simulators call on it.  The simulators share
tasks through pointers, so a `TaskPtr` is an address and a `Heap` says which
record stands at it.  Times are exact rationals and the `uint32_t` fields are
machine words.

* `Task.execute`, `Task.markReady`, `Task.markDispatched`, `Task.start` and
  `Task.complete` are the timing methods.
* `Task.ledger` blanks the fields that belong to the scheduling policies, so
  that "a scheduler never touches the timing of a task" is one equation.
* `Workload` is a list of tasks to simulate.
-/

namespace SchedSim

/-- A cast from floating point to an integer type: rounding towards zero. -/
def truncate (x : ℚ) : ℤ := x.num.tdiv x.den

theorem truncate_natCast (n : ℕ) : truncate n = n := by simp [truncate]

/-- A cast of a number that is not negative takes its whole part. -/
theorem truncate_of_nonneg {x : ℚ} (hx : 0 ≤ x) : truncate x = ⌊x⌋ := by
  rw [truncate, Rat.floor_def', Int.tdiv_eq_ediv_of_nonneg (Rat.num_nonneg.2 hx)]

/-- A cast does not go past a bound that is a whole number. -/
theorem truncate_toNat_le {x : ℚ} {n : ℕ} (hx : x ≤ n) : (truncate x).toNat ≤ n := by
  rcases le_total 0 x with hpos | hneg
  · rw [truncate_of_nonneg hpos, Int.toNat_le]
    exact_mod_cast (Int.floor_le x).trans hx
  · have hnum : 0 ≤ (-x.num).tdiv x.den :=
      Int.tdiv_nonneg (neg_nonneg.2 (Rat.num_nonpos.2 hneg)) (Int.natCast_nonneg _)
    rw [Int.neg_tdiv, neg_nonneg] at hnum
    rw [truncate, Int.toNat_of_nonpos hnum]
    exact Nat.zero_le n

/-- An array with one entry replaced. -/
def setAt {α β : Type} [DecidableEq α] (f : α → β) (a : α) (v : β) : α → β :=
  fun x => if x = a then v else f x

section SetAt

variable {α β : Type} [DecidableEq α] (f : α → β) (a : α) (v : β)

@[simp] theorem setAt_self : setAt f a v a = v := if_pos rfl

@[simp] theorem setAt_of_ne {x : α} (hx : x ≠ a) : setAt f a v x = f x := if_neg hx

theorem setAt_apply (x : α) : setAt f a v x = if x = a then v else f x := rfl

end SetAt

/-- Nice value to weight mapping, from nice `-20` to nice `19`. -/
def niceToWeight : List UInt32 :=
  [88761, 71755, 56483, 46273, 36291,
   29154, 23254, 18705, 14949, 11916,
   9548, 7620, 6100, 4904, 3906,
   3121, 2501, 1991, 1586, 1277,
   1024, 820, 655, 526, 423,
   335, 272, 215, 172, 137,
   110, 87, 70, 56, 45,
   36, 29, 23, 18, 15]

/-- The weight of a nice-0 task. -/
def nice0Load : ℚ := 1024

/-- A schedulable task with timing and priority information. -/
structure Task where
  id : UInt32
  arrivalTime : ℚ
  executionTime : ℚ
  remainingTime : ℚ
  nice : Int
  weight : UInt32
  vruntime : ℚ := 0
  deadline : ℚ := 0
  eligibleTime : ℚ := 0
  stride : UInt32 := 0
  passValue : UInt32 := 0
  currentQueue : Int := 0
  allotmentRemaining : ℚ := 0
  startTime : ℚ := -1
  completionTime : ℚ := -1
  waitTime : ℚ := 0
  preemptionCount : UInt32 := 0
  inReadyQueue : Bool := false
  readyEnterTime : ℚ := 0
  deriving DecidableEq, Repr

/-- The arguments of the constructor of a task. -/
structure TaskArgs where
  id : UInt32
  arrivalTime : ℚ
  executionTime : ℚ
  nice : Int := 0
  deriving DecidableEq, Repr

namespace Task

/-- The constructor: the weight is read from the table at the clamped nice value. -/
def new (a : TaskArgs) : Task where
  id := a.id
  arrivalTime := a.arrivalTime
  executionTime := a.executionTime
  remainingTime := a.executionTime
  nice := a.nice
  weight := niceToWeight.getD (max 0 (min (a.nice + 20) 39)).toNat 0

/-- The first dispatch records the start time. -/
def start (t : Task) (time : ℚ) : Task :=
  if t.startTime < 0 then { t with startTime := time } else t

def complete (t : Task) (time : ℚ) : Task := { t with completionTime := time }

/-- Charge CPU time; what is left never goes below zero. -/
def execute (t : Task) (duration : ℚ) : Task :=
  let left := t.remainingTime - duration
  { t with remainingTime := if left < 0 then 0 else left }

/-- Work of at most a microsecond counts as done. -/
def isCompleted (t : Task) : Bool := t.remainingTime ≤ 1 / 1000

def markReady (t : Task) (time : ℚ) : Task :=
  { t with inReadyQueue := true, readyEnterTime := time }

/-- Leaving the ready queue books the time spent in it as waiting. -/
def markDispatched (t : Task) (time : ℚ) : Task :=
  if !t.inReadyQueue then t
  else { t with
    waitTime := t.waitTime + max 0 (time - t.readyEnterTime)
    inReadyQueue := false }

def responseTime (t : Task) : ℚ :=
  if t.startTime < 0 then 0 else t.startTime - t.arrivalTime

def turnaroundTime (t : Task) : ℚ :=
  if t.completionTime < 0 then 0 else t.completionTime - t.arrivalTime

def incrementPreemptions (t : Task) : Task :=
  { t with preemptionCount := t.preemptionCount + 1 }

/-- Make the task ready for another experiment; the eligible time and the allotment stay. -/
def reset (t : Task) : Task :=
  { t with
    remainingTime := t.executionTime
    startTime := -1
    completionTime := -1
    vruntime := 0
    deadline := 0
    passValue := 0
    stride := 0
    currentQueue := 0
    preemptionCount := 0
    waitTime := 0
    inReadyQueue := false
    readyEnterTime := 0 }

/-- The task with everything blanked that belongs to the scheduling policies:
what is left is its identity, its priority and its timing. -/
def ledger (t : Task) : Task :=
  { t with
    vruntime := 0, deadline := 0, eligibleTime := 0, stride := 0, passValue := 0,
    currentQueue := 0, allotmentRemaining := 0 }

/-- The CPU time charged to the task so far. -/
def served (t : Task) : ℚ := t.executionTime - t.remainingTime

/-- The instant up to which the life of the task is accounted for: its arrival,
plus all waiting booked, plus all CPU time charged. -/
def booked (t : Task) : ℚ := t.arrivalTime + t.waitTime + t.served

/-- What the constructor fixes for good: the arguments and the weight. -/
def fixed (t : Task) : TaskArgs × UInt32 :=
  (⟨t.id, t.arrivalTime, t.executionTime, t.nice⟩, t.weight)

theorem isCompleted_congr {t u : Task} (h : t.remainingTime = u.remainingTime) :
    t.isCompleted = u.isCompleted := by
  rw [isCompleted, h, isCompleted]

theorem fixed_markDispatched (t : Task) (time : ℚ) : (t.markDispatched time).fixed = t.fixed := by
  rw [markDispatched]
  split <;> rfl

theorem fixed_start (t : Task) (time : ℚ) : (t.start time).fixed = t.fixed := by
  rw [start]
  split <;> rfl

/-- The counterpart of `ledger`: only what belongs to the scheduling policies. -/
def policy (t : Task) : Task :=
  { new ⟨0, 0, 0, 0⟩ with
    vruntime := t.vruntime, deadline := t.deadline, eligibleTime := t.eligibleTime
    stride := t.stride, passValue := t.passValue
    currentQueue := t.currentQueue, allotmentRemaining := t.allotmentRemaining }

theorem policy_markDispatched (t : Task) (time : ℚ) :
    (t.markDispatched time).policy = t.policy := by
  rw [markDispatched]
  split <;> rfl

theorem policy_start (t : Task) (time : ℚ) : (t.start time).policy = t.policy := by
  rw [start]
  split <;> rfl

/-- Whatever can be read off the ledger is the same for two tasks with the same
ledger. -/
theorem congrLedger {α : Type*} {t u : Task} (f : Task → α) (h : t.ledger = u.ledger)
    (hf : ∀ t, f t.ledger = f t := by intro _; rfl) : f t = f u := by
  rw [← hf t, h, hf u]

end Task

/-! ## The heap -/

/-- The address of a task. -/
abbrev TaskPtr := ℕ

/-- Which record stands at which address. -/
abbrev Heap := TaskPtr → Task

namespace Heap

/-- Update the task at one address. -/
def modify (h : Heap) (p : TaskPtr) (f : Task → Task) : Heap := setAt h p (f (h p))

@[simp] theorem modify_self (h : Heap) (p : TaskPtr) (f : Task → Task) :
    h.modify p f p = f (h p) := by simp [modify]

@[simp] theorem modify_of_ne {p q : TaskPtr} (hq : q ≠ p) (h : Heap) (f : Task → Task) :
    h.modify p f q = h q := by simp [modify, hq]

theorem modify_apply (h : Heap) (p q : TaskPtr) (f : Task → Task) :
    h.modify p f q = if q = p then f (h q) else h q := by
  by_cases hq : q = p
  · subst hq; simp
  · simp [hq]

/-- Update every task of a list, in order. -/
def modifyAll (h : Heap) (ps : List TaskPtr) (f : Task → Task) : Heap :=
  ps.foldl (fun h p => h.modify p f) h

/-- Tasks that are not in the list are left alone. -/
theorem modifyAll_of_notMem {h : Heap} {p : TaskPtr} {ps : List TaskPtr} {f : Task → Task}
    (hp : p ∉ ps) : h.modifyAll ps f p = h p := by
  induction ps generalizing h with
  | nil => rfl
  | cons q ps ih =>
    rw [List.mem_cons, not_or] at hp
    show (h.modify q f).modifyAll ps f p = h p
    rw [ih hp.2, modify_of_ne hp.1]

/-- Two heaps that differ only in the fields of the scheduling policies. -/
def SameLedger (h h' : Heap) : Prop := ∀ p, (h' p).ledger = (h p).ledger

theorem SameLedger.refl (h : Heap) : SameLedger h h := fun _ => rfl

theorem SameLedger.trans {h₁ h₂ h₃ : Heap} (h₁₂ : SameLedger h₁ h₂) (h₂₃ : SameLedger h₂ h₃) :
    SameLedger h₁ h₃ := fun p => (h₂₃ p).trans (h₁₂ p)

theorem sameLedger_modify (h : Heap) (p : TaskPtr) {f : Task → Task}
    (hf : ∀ t, (f t).ledger = t.ledger) : SameLedger h (h.modify p f) := by
  intro q
  rw [modify_apply]
  split
  · exact hf _
  · rfl

theorem sameLedger_modifyAll (h : Heap) (ps : List TaskPtr) {f : Task → Task}
    (hf : ∀ t, (f t).ledger = t.ledger) : SameLedger h (h.modifyAll ps f) := by
  induction ps generalizing h with
  | nil => exact SameLedger.refl h
  | cons p ps ih => exact (sameLedger_modify h p hf).trans (ih (h.modify p f))

end Heap

/-! ## Workloads -/

/-- The tasks added to a simulator, in the order of `add_task`; a task is added once. -/
structure Workload where
  args : TaskPtr → TaskArgs
  added : List TaskPtr
  nodup : added.Nodup

namespace Workload

/-- Every task as its constructor leaves it. -/
def heap (w : Workload) : Heap := fun p => Task.new (w.args p)

/-- No two of the added tasks have the same id. -/
def DistinctIds (w : Workload) : Prop :=
  ∀ p ∈ w.added, ∀ q ∈ w.added, (w.args p).id = (w.args q).id → p = q

/-- The times of a task are sensible: it does not arrive before the simulation
starts, and there is something to execute. -/
def Valid (w : Workload) : Prop :=
  ∀ p ∈ w.added, 0 ≤ (w.args p).arrivalTime ∧ 0 < (w.args p).executionTime

instance (w : Workload) : Decidable w.DistinctIds :=
  inferInstanceAs (Decidable (∀ p ∈ w.added, ∀ q ∈ w.added, _))

instance (w : Workload) : Decidable w.Valid :=
  inferInstanceAs (Decidable (∀ p ∈ w.added, _))

/-- The workload whose tasks have the given arguments and stand at the addresses
`0, 1, …` in this order. -/
def ofList (l : List TaskArgs) : Workload where
  args := fun p => l.getD p ⟨0, 0, 0, 0⟩
  added := List.range l.length
  nodup := List.nodup_range

/-- Two tasks to try things on: a long one, and a short one of higher priority
that arrives while the first is running. -/
def pair : Workload := ofList [⟨0, 0, 10, 0⟩, ⟨1, 1, 4, -5⟩]

end Workload

end SchedSim
