import SchedSim.Schedulers.CFS
import SchedSim.Schedulers.EEVDF
import SchedSim.Schedulers.MLFQ
import SchedSim.Schedulers.Stride

/-!
# One of the four schedulers

A simulator holds its policy behind a pointer to the base class, and makes it
from one of four classes.  `SchedulerKind` is the choice of a class with the
arguments of its constructor, `SchedulerKind.State` is the state of its objects,
and `SchedulerKind.make` is the call of the constructor.

* Every kind is a lawful scheduler, because each of the four classes is.
* `SchedulerKind.grantsAtLeast_one` — with the default parameters of the
  constructors, every decision grants at least one millisecond.
-/

namespace SchedSim

/-- A scheduler class with the arguments of its constructor. -/
inductive SchedulerKind
  | cfs (params : CFSParams)
  | eevdf (params : EEVDFParams)
  | mlfq (params : MLFQParams)
  | stride (params : StrideParams)

namespace SchedulerKind

/-- The classes with their default parameters, in the order of `main`. -/
def defaults : List SchedulerKind := [.cfs {}, .eevdf {}, .mlfq {}, .stride {}]

/-- The state of a scheduler of the class. -/
def State : SchedulerKind → Type
  | cfs _ => CFSScheduler
  | eevdf _ => EEVDFScheduler
  | mlfq _ => MLFQScheduler
  | stride _ => StrideScheduler

instance : (k : SchedulerKind) → Scheduler k.State
  | cfs _ => inferInstanceAs (Scheduler CFSScheduler)
  | eevdf _ => inferInstanceAs (Scheduler EEVDFScheduler)
  | mlfq _ => inferInstanceAs (Scheduler MLFQScheduler)
  | stride _ => inferInstanceAs (Scheduler StrideScheduler)

instance : (k : SchedulerKind) → LawfulScheduler k.State
  | cfs _ => inferInstanceAs (LawfulScheduler CFSScheduler)
  | eevdf _ => inferInstanceAs (LawfulScheduler EEVDFScheduler)
  | mlfq _ => inferInstanceAs (LawfulScheduler MLFQScheduler)
  | stride _ => inferInstanceAs (LawfulScheduler StrideScheduler)

/-- A fresh scheduler. -/
def make : (k : SchedulerKind) → k.State
  | cfs params => CFSScheduler.new params
  | eevdf params => EEVDFScheduler.new params
  | mlfq params => MLFQScheduler.new params
  | stride params => StrideScheduler.new params

/-- The method that prepares a scheduler for another experiment. -/
def reset : (k : SchedulerKind) → k.State → k.State
  | cfs _ => CFSScheduler.reset
  | eevdf _ => EEVDFScheduler.reset
  | mlfq _ => MLFQScheduler.reset
  | stride _ => StrideScheduler.reset

/-- A fresh scheduler has nothing to run. -/
theorem readyTasks_make (k : SchedulerKind) : readyTasks k.make = [] := by
  cases k with
  | cfs => rfl
  | eevdf => rfl
  | stride => rfl
  | mlfq params =>
    show (params.queueConfigs.map fun _ => ([] : List TaskPtr)).flatten = []
    simp

/-- With default parameters no decision ever grants less than a millisecond. -/
theorem grantsAtLeast_one {k : SchedulerKind} (hk : k ∈ defaults) :
    ∃ P : k.State → Prop, GrantsAtLeast 1 P ∧ P k.make := by
  simp only [defaults, List.mem_cons, List.not_mem_nil, or_false] at hk
  rcases hk with rfl | rfl | rfl | rfl
  · exact ⟨_, (CFSScheduler.grantsAtLeast {}).mono (by norm_num), rfl⟩
  · exact ⟨_, EEVDFScheduler.grantsAtLeast {}, rfl⟩
  · exact ⟨_, MLFQScheduler.grantsAtLeast {} (by decide), rfl⟩
  · exact ⟨_, (StrideScheduler.grantsAtLeast {}).mono (by norm_num), rfl⟩

end SchedulerKind

end SchedSim
