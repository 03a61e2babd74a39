import SchedSim.Fairness
import SchedSim.RoundedTurns

/-!
# Proportional shares under Stride

A task that uses a whole quantum is charged its stride, if the quotient of the two times says so:
times are doubles, and a slice of one quantum may be measured as a little less.  As long as this
does not happen to two tasks that arrive together, and the clamp of `add_task` leaves their passes
alone, neither gets ahead of the other by more than one quantum, whatever other tasks there are.

* `Rounding.quanta` — the full quanta a task has had.
* `Rounding.Steady` — the slice that ends was a quantum, measured as one, and the clamp is idle.
* `Rounding.pass_step` — what a turn does to the pass of a task.
* `Rounding.Level` — two tasks that arrived together, one at most a stride ahead.
* `StrideScheduler.proportionalShare` — they get quanta in inverse proportion to their strides.
* `StrideScheduler.proportionalShare_false` — and a run in which the clamp lifts one of them.
-/

namespace SchedSim

namespace Rounding

open StrideScheduler (Rounded)
open Machine

/-! ## Full quanta -/

/-- How many slices of a whole quantum a task has been charged for, by the history. -/
def quanta (quantum : ℚ) (p : TaskPtr) : List (Action 1) → ℕ
  | [] => 0
  | .dispatched .. :: past => quanta quantum p past
  | .charged c q _ :: past => quanta quantum p past
      + if q = p ∧ (past.findSome? (grantedOn c)).getD 0 = quantum then 1 else 0

variable {fl : Rounding} {params : StrideParams} {w : Workload} {m m' m₁ : Simulator (Rounded fl) 1}
  {e : Event 1} {i j k p r : TaskPtr} {cfg : SimConfig}

/-- The event ends the slice of a task that is not done after it. -/
structure Requeues (m : Simulator (Rounded fl) 1) (e : Event 1) (k : TaskPtr) : Prop where
  type : e.type = .timeSlice
  task : e.task = k
  running : m.runningTasks 0 = some k
  unfinished : fl.isCompleted (fl.execute (m.heap k) (fl (e.time - m.lastEventTime 0))) = false

instance (m : Simulator (Rounded fl) 1) (e : Event 1) (k : TaskPtr) : Decidable (Requeues m e k) :=
  decidable_of_iff (e.type = .timeSlice ∧ e.task = k ∧ m.runningTasks 0 = some k ∧
      fl.isCompleted (fl.execute (m.heap k) (fl (e.time - m.lastEventTime 0))) = false)
    ⟨fun ⟨h₁, h₂, h₃, h₄⟩ => ⟨h₁, h₂, h₃, h₄⟩, fun h => ⟨h.1, h.2, h.3, h.4⟩⟩

/-- What the charge at the end of a slice makes of the time since the dispatch -/
def advance (m : Simulator (Rounded fl) 1) (e : Event 1) (k : TaskPtr) : UInt32 :=
  Rounded.passAdvance fl (policy m).params (m.heap k).stride (fl (e.time - m.lastEventTime 0))

/-- The pass of a task that goes back into the queue fits a 32-bit word. -/
def NoOverflow (m : Simulator (Rounded fl) 1) (e : Event 1) : Prop :=
  ∀ k, Requeues m e k → (m.heap k).passValue.toNat + (max (advance m e k) 1).toNat < 2 ^ 32

instance (m : Simulator (Rounded fl) 1) (e : Event 1) : Decidable (NoOverflow m e) :=
  decidable_of_iff (Requeues m e e.task →
      (m.heap e.task).passValue.toNat + (max (advance m e e.task) 1).toNat < 2 ^ 32)
    ⟨fun h k hk => by obtain rfl := hk.task; exact h hk, fun h => h e.task⟩

/-- If task `k` goes back into the queue, then the slice that ends was granted the whole quantum and
is measured as one, and the clamp of `add_task` leaves the pass of the task alone: it is not less
than the global pass, as `update_global_pass` leaves it. -/
def Steady (k : TaskPtr) (m : Simulator (Rounded fl) 1) (e : Event 1) : Prop :=
  Requeues m e k →
    m.granted 0 = (policy m).params.quantum ∧
    advance m e k = (m.heap k).stride ∧
    ((policy m).updateGlobalPass m.heap).globalPass.toUInt32.toNat
      ≤ (m.heap k).passValue.toNat + (m.heap k).stride.toNat

instance (k : TaskPtr) (m : Simulator (Rounded fl) 1) (e : Event 1) : Decidable (Steady k m e) :=
  inferInstanceAs (Decidable (_ → _))

/-- A turn of the simulator in which no pass overflows and the slices of two tasks are steady. -/
def SteadyStep (cfg : SimConfig) (i j : TaskPtr) (m : Simulator (Rounded fl) 1) (e : Event 1)
    (m' : Simulator (Rounded fl) 1) : Prop :=
  fl.Step cfg m e m' ∧ NoOverflow m e ∧ Steady i m e ∧ Steady j m e

/-! ## Passes -/

def pass (m : Simulator (Rounded fl) 1) (p : TaskPtr) : ℕ := (m.heap p).passValue.toNat

def globalPass (m : Simulator (Rounded fl) 1) : ℕ := (policy m).globalPass.toUInt32.toNat

/-- The stride of a task, by its weight -/
def stride (params : StrideParams) (w : Workload) (p : TaskPtr) : ℕ :=
  ((StrideScheduler.new params).strideOf (w.heap p).weight).toNat

theorem Sound.stride_eq (h : Sound params w m) (hr : r ∈ m.ready () ∨ m.runningTasks 0 = some r) :
    (m.heap r).stride.toNat = stride params w r := by
  have hweight : (m.heap r).weight = (w.heap r).weight := congrArg Prod.snd (h.recorded.fixed r)
  rw [h.recorded.settled r hr, hweight, stride]

/-- A dispatch takes a task of least pass, and changes no pass. -/
theorem Pick.spec (h : Pick fl cfg m₁ m') (hc : m₁.runningTasks 0 = none) :
    (∀ r, pass m' r = pass m₁ r) ∧ globalPass m' = globalPass m₁ ∧
      m'.events.arrivals = m₁.events.arrivals ∧ m'.completedTasks = m₁.completedTasks ∧
      m'.currentTime = m₁.currentTime ∧
      (∀ q k, quanta q k m'.history = quanta q k m₁.history) ∧
      ∀ p, m'.runningTasks 0 = some p → m'.lastEventTime 0 = m₁.currentTime ∧
        ∀ r ∈ m'.ready (), pass m' p ≤ pass m' r := by
  cases h with
  | idle =>
    rw [clearCore_eq_self m₁ 0 hc]
    refine ⟨fun _ => rfl, rfl, rfl, rfl, rfl, fun _ _ => rfl, fun p hp => ?_⟩
    rw [hc] at hp
    cases hp
  | @next p x hs =>
    have hpass : ∀ r, pass (fl.dispatch cfg m₁ 0 p x) r = pass m₁ r := by
      intro r
      obtain ⟨waited, ready, heq⟩ := dispatched_eq fl (m₁.heap r) m₁.currentTime
      rw [pass, heap_dispatch, heq]
      split <;> rfl
    refine ⟨hpass, rfl, EventQueue.arrivals_schedule _ (by simp), rfl, rfl, fun _ _ => rfl, ?_⟩
    intro q hq
    have hrun : some p = some q := (setAt_self m₁.runningTasks 0 (some p)).symm.trans hq
    obtain rfl := Option.some.inj hrun
    refine ⟨setAt_self m₁.lastEventTime 0 m₁.currentTime, fun r hr => ?_⟩
    have hready : r ∈ m₁.ready () := by
      have hfilter : r ∈ (m₁.removeReady () p).ready () := hr
      rw [ready_removeReady, if_pos rfl] at hfilter
      exact List.mem_of_mem_filter hfilter
    have hmin : minElement (StrideScheduler.strideComparator m₁.heap) (policy m₁).readyQueue
        = some p := by
      rw [← StrideScheduler.schedule_task]
      exact congrArg ScheduleDecision.task hs
    have hle := minElement_le (f := fun p => ((m₁.heap p).passValue.toNat : ℚ))
      (fun _ _ => StrideScheduler.passValue_le_of_strideComparator.1)
      (fun _ _ => StrideScheduler.passValue_le_of_strideComparator.2) hmin r hready
    rw [hpass, hpass]
    exact Nat.cast_le.1 hle

/-- The running task is in no queue. -/
theorem Sound.not_ready (h : Sound params w m) (hc : m.runningTasks 0 = some p) : p ∉ m.ready () :=
  not_ready_of_running (h.places_le_one p) hc ()

/-- The global pass when a slice has ended: that of the tasks that wait -/
theorem globalPass_settle (hready : p ∉ m.ready ()) : (policy (fl.settle m 0 p)).globalPass
    = ((policy m).updateGlobalPass m.heap).globalPass := by
  have hcharge : (policy (fl.charge m 0 p)).globalPass
      = ((policy m).updateGlobalPass m.heap).globalPass := by
    show ((policy m).updateGlobalPass (fl.charge m 0 p).heap).globalPass = _
    refine congrArg StrideScheduler.globalPass
      (StrideScheduler.updateGlobalPass_congr fun q hq => ?_)
    rw [heap_charge, if_neg]
    rintro rfl
    exact hready hq
  cases hdone : fl.isCompleted ((fl.charge m 0 p).heap p) with
  | true =>
    rw [settle_of_done hdone]
    exact hcharge
  | false =>
    rw [settle_of_left hdone]
    exact hcharge

/-- Whether a task is done after its slice does not depend on what the policy writes. -/
theorem isCompleted_charge (hc : m.runningTasks 0 = some e.task) (hts : e.type = .timeSlice) :
    fl.isCompleted ((fl.charge (m.pop e) 0 e.task).heap e.task) = false ↔ Requeues m e e.task := by
  rw [heap_charge, if_pos rfl]
  constructor
  · intro hleft
    exact ⟨hts, rfl, hc, hleft⟩
  · intro hleft
    exact hleft.unfinished

theorem completed_settle (hc : m.runningTasks 0 = some e.task) (hts : e.type = .timeSlice)
    (hleft : ¬ Requeues m e e.task) :
    e.task ∈ (fl.settle (m.pop e) 0 e.task).completedTasks := by
  rw [← isCompleted_charge hc hts, Bool.not_eq_false] at hleft
  rw [settle_of_done hleft]
  exact List.mem_append_right _ (List.mem_singleton_self _)

/-- A task that goes back to the queue after a steady slice is one stride further on. -/
theorem pass_settle (h : Sound params w m) (hover : NoOverflow m e) (hsteady : Steady k m e)
    (hk : Requeues m e k) : pass (fl.settle (m.pop e) 0 e.task) k
      = pass m k + stride params w k := by
  obtain ⟨hgranted, hmeasured, hclamp⟩ := hsteady hk
  have hfits := hover k hk
  have hstride := h.stride_eq (.inr hk.running)
  obtain rfl := hk.task
  have hleft := (isCompleted_charge hk.running hk.type).2 hk
  have hone : 1 ≤ (m.heap e.task).stride.toNat := by
    rw [hstride]
    exact StrideScheduler.one_le_strideOf _ _
  have hmax : max (advance m e e.task) 1 = (m.heap e.task).stride := by
    rw [hmeasured]
    apply UInt32.toNat_inj.1
    rw [StrideScheduler.toNat_max]
    exact max_eq_left hone
  rw [hmax] at hfits
  have hcharged : ((fl.charge (m.pop e) 0 e.task).heap e.task).passValue.toNat
      = (m.heap e.task).passValue.toNat + (m.heap e.task).stride.toNat := by
    rw [heap_charge, if_pos rfl, ← StrideScheduler.toNat_add hfits]
    exact congrArg (fun a => ((m.heap e.task).passValue + a).toNat) hmax
  have hstarted : ¬ ((fl.charge (m.pop e) 0 e.task).heap e.task).startTime < 0 := by
    rw [heap_charge, if_pos rfl]
    exact not_lt.2 (h.recorded.started e.task hk.running)
  have hglobal := globalPass_settle (m := m.pop e) (h.not_ready hk.running)
  rw [settle_of_left hleft] at hglobal ⊢
  have hglobal' : (policy (fl.charge (m.pop e) 0 e.task)).globalPass
      = ((policy m).updateGlobalPass m.heap).globalPass := hglobal
  rw [pass, passValue_requeue, if_neg hstarted, StrideScheduler.toNat_max, hcharged, hglobal',
    max_eq_left hclamp, ← hstride]
  rfl

/-- The history of a steady slice -/
theorem quanta_settle {quantum : ℚ} :
    quanta quantum k (fl.settle m 0 p).history = quanta quantum k m.history
    + if p = k ∧ m.granted 0 = quantum then 1 else 0 := by
  rw [settle_history]
  rfl

/-- **What a turn does to the pass of a task** that has arrived and is not completed: it is one
stride further on when a slice of the task ends, which was a full quantum, and else the same. -/
theorem pass_step (h : Sound params w m) (hover : NoOverflow m e) (hsteady : Steady k m e)
    (ht : Turn fl cfg m e m') (harr : k ∉ m.events.arrivals) (he : e ∈ m.events)
    (hcomp : k ∉ m'.completedTasks) :
    (Requeues m e k → pass m' k = pass m k + stride params w k ∧
      quanta params.quantum k m'.history = quanta params.quantum k m.history + 1) ∧
    (¬ Requeues m e k → pass m' k = pass m k ∧
      quanta params.quantum k m'.history = quanta params.quantum k m.history) := by
  have hne : e.type = .arrival → k ≠ e.task := by
    rintro htype rfl
    exact harr (EventQueue.mem_arrivals.2 ⟨e, he, htype, rfl⟩)
  have henqueue : e.type = .arrival → pass ((m.pop e).enqueue () e.task) k = pass m k := by
    intro htype
    rw [pass, heap_enqueue, if_neg (hne htype)]
    rfl
  have harrival : e.type = .arrival → ¬ Requeues m e k := by
    intro htype hk
    rw [hk.type] at htype
    cases htype
  cases ht with
  | skip hna hstale =>
    refine ⟨fun hk => absurd ?_ (hstale hk.type), fun _ => ⟨rfl, rfl⟩⟩
    rw [hk.running, hk.task]
  | queued htype => exact ⟨fun hk => absurd hk (harrival htype), fun _ => ⟨henqueue htype, rfl⟩⟩
  | woken htype hidle hp =>
    obtain ⟨hpass, -, -, -, -, hquanta, -⟩ := hp.spec hidle
    refine ⟨fun hk => absurd hk (harrival htype), fun _ => ⟨?_, hquanta _ _⟩⟩
    rw [hpass, henqueue htype]
  | expired hts hc hp =>
    obtain ⟨hpass, -, -, hcompleted, -, hquanta, -⟩ := hp.spec settle_runningTasks
    rw [hpass, hquanta, quanta_settle]
    constructor
    · intro hk
      refine ⟨pass_settle h hover hsteady hk, ?_⟩
      have hgranted : (m.pop e).granted 0 = params.quantum := by
        rw [← h.recorded.params]
        exact (hsteady hk).1
      rw [if_pos ⟨hk.task, hgranted⟩]
      rfl
    · intro hk
      have hke : k ≠ e.task := by
        rintro rfl
        exact hcomp (hcompleted ▸ completed_settle hc hts hk)
      rw [pass, heap_settle_of_ne hke, if_neg fun h => hke h.1.symm]
      exact ⟨rfl, rfl⟩

/-- Who runs after a turn ran before and was not interrupted, or has just been dispatched, ahead of
nobody who waits. -/
theorem running_step (ht : Turn fl cfg m e m') (hrun : m'.runningTasks 0 = some k) :
    (m.runningTasks 0 = some k ∧ ¬ Requeues m e k ∧ m'.lastEventTime 0 = m.lastEventTime 0) ∨
      (m'.lastEventTime 0 = e.time ∧ ∀ r ∈ m'.ready (), pass m' k ≤ pass m' r) := by
  cases ht with
  | skip _ hstale =>
    refine .inl ⟨hrun, fun hk => hstale hk.type ?_, rfl⟩
    rw [hk.running, hk.task]
  | queued htype =>
    refine .inl ⟨hrun, fun hk => ?_, rfl⟩
    rw [hk.type] at htype
    cases htype
  | woken _ hidle hp => exact .inr ((hp.spec hidle).2.2.2.2.2.2 k hrun)
  | expired _ _ hp =>
    obtain ⟨htime, hleast⟩ := (hp.spec settle_runningTasks).2.2.2.2.2.2 k hrun
    exact .inr ⟨htime.trans settle_currentTime, hleast⟩

/-- A task starts at the global pass, which its arrival does not change. -/
theorem pass_arrival (h : Sound params w m) (he : m.events.IsNext e) (htype : e.type = .arrival)
    (ht : Turn fl cfg m e m') : pass m' e.task = globalPass m ∧ globalPass m' = globalPass m := by
  have hfresh : (m.heap e.task).startTime < 0 :=
    h.recorded.fresh e.task (EventQueue.mem_arrivals.2 ⟨e, he.1, htype, rfl⟩)
  have hpass : pass ((m.pop e).enqueue () e.task) e.task = globalPass m := by
    rw [pass, heap_enqueue, if_pos rfl]
    dsimp only [Task.markReady]
    rw [if_pos (show ((m.pop e).heap e.task).startTime < 0 from hfresh)]
    rfl
  cases ht with
  | skip hna => exact absurd htype hna
  | queued => exact ⟨hpass, rfl⟩
  | woken _ hidle hp =>
    obtain ⟨hsame, hglobal, -⟩ := hp.spec hidle
    exact ⟨(hsame _).trans hpass, hglobal⟩
  | expired hts => rw [hts] at htype; cases htype

/-- The global pass stays where it is while a task waits that is not past it. -/
theorem globalPass_step (h : Sound params w m) (ht : Turn fl cfg m e m')
    (hr : e.type = .timeSlice → m.runningTasks 0 = some e.task →
      ∃ r ∈ m.ready (), pass m r ≤ globalPass m) : globalPass m' = globalPass m := by
  cases ht with
  | skip => rfl
  | queued => rfl
  | woken _ hidle hp => exact (hp.spec hidle).2.1
  | expired hts hc hp =>
    obtain ⟨r, hready, hle⟩ := hr hts hc
    have hpass : (m.heap r).passValue.toNat ≤ (policy m).globalPass.toNat := by
      refine hle.trans ?_
      rw [globalPass, UInt64.toNat_toUInt32]
      exact Nat.mod_le _ _
    rw [(hp.spec settle_runningTasks).2.1, globalPass,
      globalPass_settle (m := m.pop e) (h.not_ready hc)]
    exact congrArg (fun g : UInt64 => g.toUInt32.toNat)
      (StrideScheduler.updateGlobalPass_eq hready hpass)

/-! ## Two tasks -/

/-- A task that has arrived and is not completed is ready or on the core. -/
theorem Sound.active (h : Sound params w m) (hadd : k ∈ w.added) (harr : k ∉ m.events.arrivals)
    (hcomp : k ∉ m.completedTasks) : k ∈ m.ready () ∨ m.runningTasks 0 = some k := by
  have hplaces := h.places k
  rw [List.count_eq_one_of_mem w.nodup hadd, Machine.places, List.count_eq_zero.2 harr,
    List.count_eq_zero.2 hcomp] at hplaces
  by_cases hready : k ∈ m.ready ()
  · exact .inl hready
  · right
    have hwaiting : m.waiting k = 0 := by
      rw [← Nat.le_zero, ← not_lt, waiting_pos]
      rintro ⟨⟨⟩, hmem⟩
      exact hready hmem
    have hcard : 0 < (m.coresOf k).card := by omega
    obtain ⟨c, hc⟩ := Finset.card_pos.1 hcard
    obtain rfl : c = 0 := Subsingleton.elim _ _
    exact (Finset.mem_filter.1 hc).2

/-- Task `i` has arrived at the instant at which `j` will, and has not been charged. -/
structure Early (w : Workload) (i : TaskPtr) (m : Simulator (Rounded fl) 1) : Prop where
  pass : pass m i = globalPass m
  now : (w.args i).arrivalTime ≤ m.currentTime
  dispatched : m.runningTasks 0 = some i → (w.args i).arrivalTime ≤ m.lastEventTime 0

/-- Task `i` is at most a stride ahead of task `j`, and not ahead at all while it runs. -/
structure Abreast (params : StrideParams) (w : Workload) (i j : TaskPtr)
    (m : Simulator (Rounded fl) 1) : Prop where
  pass_le : pass m i ≤ pass m j + stride params w i
  running : m.runningTasks 0 = some i → pass m i ≤ pass m j

/-- Two tasks that arrive together are early, and then abreast. -/
structure Level (params : StrideParams) (w : Workload) (i j : TaskPtr)
    (m : Simulator (Rounded fl) 1) : Prop where
  early : i ∉ m.events.arrivals → j ∈ m.events.arrivals → i ∉ m.completedTasks → Early w i m
  abreast : i ∉ m.events.arrivals → j ∉ m.events.arrivals → i ∉ m.completedTasks →
    j ∉ m.completedTasks → Abreast params w i j m

/-- What one turn needs to be about. -/
structure TurnOf (params : StrideParams) (w : Workload) (cfg : SimConfig) (i j : TaskPtr)
    (m : Simulator (Rounded fl) 1) (e : Event 1) (m' : Simulator (Rounded fl) 1) : Prop where
  sound : Sound params w m
  sound' : Sound params w m'
  next : m.events.IsNext e
  turn : Turn fl cfg m e m'
  noOverflow : NoOverflow m e
  steady : Steady i m e ∧ Steady j m e
  added : i ∈ w.added ∧ j ∈ w.added
  ne : i ≠ j
  together : (w.args i).arrivalTime = (w.args j).arrivalTime

theorem TurnOf.symm (h : TurnOf params w cfg i j m e m') : TurnOf params w cfg j i m e m' :=
  { h with
    steady := h.steady.symm
    added := h.added.symm
    ne := h.ne.symm
    together := h.together.symm }

theorem Turn.arrivals (h : Turn fl cfg m e m') :
    m'.events.arrivals = EventQueue.arrivals (m.events.erase e) := by
  cases h with
  | skip => rfl
  | queued => rfl
  | woken _ hidle hp => exact (hp.spec hidle).2.2.1
  | expired _ _ hp =>
    rw [(hp.spec settle_runningTasks).2.2.1, settle_events]
    rfl

theorem Turn.currentTime (h : Turn fl cfg m e m') : m'.currentTime = e.time := by
  cases h with
  | skip => rfl
  | queued => rfl
  | woken _ hidle hp => exact (hp.spec hidle).2.2.2.2.1
  | expired _ _ hp => exact (hp.spec settle_runningTasks).2.2.2.2.1.trans settle_currentTime

theorem Turn.completedTasks_subset (h : Turn fl cfg m e m') :
    m.completedTasks ⊆ m'.completedTasks := by
  cases h with
  | skip => exact fun _ => id
  | queued => exact fun _ => id
  | woken _ hidle hp =>
    rw [(hp.spec hidle).2.2.2.1]
    exact fun _ => id
  | expired _ _ hp =>
    rw [(hp.spec settle_runningTasks).2.2.2.1]
    intro r hr
    cases hdone : fl.isCompleted ((fl.charge (m.pop e) 0 e.task).heap e.task) with
    | true =>
      rw [settle_of_done hdone]
      exact List.mem_append_left _ hr
    | false =>
      rw [settle_of_left hdone]
      exact hr

theorem Turn.completed (h : Turn fl cfg m e m') (hts : e.type = .timeSlice)
    (hc : m.runningTasks 0 = some e.task) (hleft : ¬ Requeues m e e.task) :
    e.task ∈ m'.completedTasks := by
  cases h with
  | skip _ hstale => exact absurd hc (hstale hts)
  | queued htype => rw [hts] at htype; cases htype
  | woken htype => rw [hts] at htype; cases htype
  | expired _ _ hp =>
    rw [(hp.spec settle_runningTasks).2.2.2.1]
    exact completed_settle hc hts hleft

/-- An arrival that is not pending any more was the event of the turn. -/
theorem Turn.arrived (h : Turn fl cfg m e m') (he : e ∈ m.events) (hr : r ∈ m.events.arrivals)
    (hr' : r ∉ m'.events.arrivals) : e.type = .arrival ∧ e.task = r := by
  by_contra hne
  have hcount := EventQueue.count_arrivals_erase m.events he r
  rw [← h.arrivals, List.count_eq_zero.2 hr', if_neg hne] at hcount
  have := List.count_pos_iff.2 hr
  omega

theorem Turn.arrivals_subset (h : Turn fl cfg m e m') :
    m'.events.arrivals ⊆ m.events.arrivals := by
  rw [h.arrivals]
  intro r hr
  obtain ⟨d, hd, harr, rfl⟩ := EventQueue.mem_arrivals.1 hr
  exact EventQueue.mem_arrivals.2 ⟨d, List.mem_of_mem_erase hd, harr, rfl⟩

namespace TurnOf

variable (h : TurnOf params w cfg i j m e m')

include h

/-- While the arrival of the other task is pending, time stands still, so no slice is measured as a
full quantum. -/
theorem not_requeues (hearly : Early w i m) (hj : j ∈ m.events.arrivals)
    (hquantum : 0 < params.quantum) : ¬ Requeues m e i := by
  intro hi
  obtain ⟨d, hd, harr, rfl⟩ := EventQueue.mem_arrivals.1 hj
  have htime : e.time ≤ m.lastEventTime 0 := by
    calc e.time ≤ d.time := h.next.2 d hd
      _ = (w.args d.task).arrivalTime := h.sound.timely.arrival d hd harr
      _ = (w.args i).arrivalTime := h.together.symm
      _ ≤ m.lastEventTime 0 := hearly.dispatched hi.running
  have hround : ∀ x : ℚ, x ≤ 0 → fl x ≤ 0 := fun x hx => (fl.monotone hx).trans_eq fl.round_zero
  have helapsed := hround _ (sub_nonpos.2 htime)
  have hfraction := hround _ (div_nonpos_of_nonpos_of_nonneg helapsed hquantum.le)
  have hproduct : fl ((m.heap i).stride.toNat
      * fl (fl (e.time - m.lastEventTime 0) / params.quantum)) ≤ 0 :=
    hround _ (mul_nonpos_of_nonneg_of_nonpos (Nat.cast_nonneg _) hfraction)
  have hadvance : (advance m e i).toNat = 0 := by
    have hzero := truncate_toNat_le (n := 0) (hproduct.trans_eq Nat.cast_zero.symm)
    rw [advance, Rounded.passAdvance, h.sound.recorded.params, Nat.le_zero.1 hzero]
    rfl
  have hone := StrideScheduler.one_le_strideOf (StrideScheduler.new params) (w.heap i).weight
  rw [(h.steady.1 hi).2.1, h.sound.stride_eq (.inr hi.running), stride] at hadvance
  omega

theorem early (hquantum : 0 < params.quantum) (hij : Level params w i j m)
    (hi : i ∉ m'.events.arrivals) (hj : j ∈ m'.events.arrivals) (hcomp : i ∉ m'.completedTasks) :
    Early w i m' := by
  have hj' : j ∈ m.events.arrivals := h.turn.arrivals_subset hj
  by_cases harr : i ∈ m.events.arrivals
  · -- the task has just arrived
    obtain ⟨htype, rfl⟩ := h.turn.arrived h.next.1 harr hi
    have htime := h.sound.timely.arrival e h.next.1 htype
    obtain ⟨hpass, hglobal⟩ := pass_arrival h.sound h.next htype h.turn
    refine ⟨hpass.trans hglobal.symm, ?_, fun hrun => ?_⟩
    · rw [h.turn.currentTime, htime]
    · rcases running_step h.turn hrun with ⟨hrun, -⟩ | ⟨hlast, -⟩
      · have hone := h.sound.places_le_one e.task
        have hplace : 0 < (m.coresOf e.task).card :=
          Finset.card_pos.2 ⟨0, by simpa [coresOf] using hrun⟩
        have := List.count_pos_iff.2 harr
        rw [Machine.places] at hone
        omega
      · rw [hlast, htime]
  · have hcomp' : i ∉ m.completedTasks := fun hmem => hcomp (h.turn.completedTasks_subset hmem)
    have hearly := hij.early harr hj' hcomp'
    have hleft := h.not_requeues hearly hj' hquantum
    have hpass := ((pass_step h.sound h.noOverflow h.steady.1 h.turn harr h.next.1 hcomp).2 hleft).1
    have hnow : (w.args i).arrivalTime ≤ e.time :=
      hearly.now.trans (h.sound.timely.clock e h.next.1).1
    have hglobal : globalPass m' = globalPass m := by
      refine globalPass_step h.sound h.turn fun hts hc => ?_
      rcases h.sound.active h.added.1 harr hcomp' with hready | hrun
      · exact ⟨i, hready, hearly.pass.le⟩
      · obtain rfl := Option.some.inj (hc.symm.trans hrun)
        exact absurd (h.turn.completed hts hc hleft) hcomp
    refine ⟨by rw [hpass, hglobal, hearly.pass], h.turn.currentTime ▸ hnow, fun hrun => ?_⟩
    rcases running_step h.turn hrun with ⟨hrun, -, hlast⟩ | ⟨hlast, -⟩
    · rw [hlast]
      exact hearly.dispatched hrun
    · rw [hlast]
      exact hnow

theorem abreast (hij : Level params w i j m) (hji : Level params w j i m)
    (hi : i ∉ m'.events.arrivals) (hj : j ∉ m'.events.arrivals) (hci : i ∉ m'.completedTasks)
    (hcj : j ∉ m'.completedTasks) : Abreast params w i j m' := by
  have hci' : i ∉ m.completedTasks := fun hmem => hci (h.turn.completedTasks_subset hmem)
  have hcj' : j ∉ m.completedTasks := fun hmem => hcj (h.turn.completedTasks_subset hmem)
  by_cases harri : i ∈ m.events.arrivals
  · -- the other task is there already, and has not been charged
    obtain ⟨htype, rfl⟩ := h.turn.arrived h.next.1 harri hi
    have harrj : j ∉ m.events.arrivals := fun harrj =>
      h.ne (h.turn.arrived h.next.1 harrj hj).2
    have hearly := hji.early harrj harri hcj'
    have hleft : ¬ Requeues m e j := fun hk => by rw [hk.type] at htype; cases htype
    have hpass := (pass_arrival h.sound h.next htype h.turn).1
    have hpass' := ((pass_step h.sound h.noOverflow h.steady.2 h.turn harrj h.next.1 hcj).2 hleft).1
    have heq : pass m' e.task = pass m' j := by rw [hpass, hpass', hearly.pass]
    exact ⟨by omega, fun _ => heq.le⟩
  · obtain ⟨hback, hstay⟩ := pass_step h.sound h.noOverflow h.steady.1 h.turn harri h.next.1 hci
    by_cases harrj : j ∈ m.events.arrivals
    · obtain ⟨htype, rfl⟩ := h.turn.arrived h.next.1 harrj hj
      have hearly := hij.early harri harrj hci'
      have hleft : ¬ Requeues m e i := fun hk => by rw [hk.type] at htype; cases htype
      have hpass := (pass_arrival h.sound h.next htype h.turn).1
      have heq : pass m' i = pass m' e.task := by rw [(hstay hleft).1, hpass, hearly.pass]
      exact ⟨by omega, fun _ => heq.le⟩
    · obtain ⟨hle, hrunning⟩ := hij.abreast harri harrj hci' hcj'
      obtain ⟨hback', hstay'⟩ :=
        pass_step h.sound h.noOverflow h.steady.2 h.turn harrj h.next.1 hcj
      have hgrows : pass m j ≤ pass m' j := by
        by_cases hk : Requeues m e j
        · rw [(hback' hk).1]
          exact Nat.le_add_right _ _
        · exact (hstay' hk).1.ge
      constructor
      · by_cases hk : Requeues m e i
        · have := hrunning hk.running
          rw [(hback hk).1]
          omega
        · rw [(hstay hk).1]
          omega
      · intro hrun
        rcases running_step h.turn hrun with ⟨hrun', hk, -⟩ | ⟨-, hleast⟩
        · rw [(hstay hk).1]
          exact (hrunning hrun').trans hgrows
        · rcases h.sound'.active h.added.2 hj hcj with hready | hrun'
          · exact hleast j hready
          · exact absurd (Option.some.inj (hrun.symm.trans hrun')) h.ne

/-- **One turn keeps two tasks level.** -/
theorem level (hquantum : 0 < params.quantum) (hij : Level params w i j m)
    (hji : Level params w j i m) : Level params w i j m' :=
  ⟨h.early hquantum hij, h.abreast hij hji⟩

end TurnOf

/-! ## Runs -/

section Runs

variable (hids : w.DistinctIds) (hvalid : w.Valid)
  (htimes : ∀ p ∈ w.added, fl (w.args p).arrivalTime = (w.args p).arrivalTime)
  (hquantum : 0 < params.quantum) (hadd : i ∈ w.added ∧ j ∈ w.added) (hne : i ≠ j)
  (htogether : (w.args i).arrivalTime = (w.args j).arrivalTime)

include hids hvalid htimes hquantum

theorem sound_of_steady
    (h : Lts.Reachable (SteadyStep cfg i j) (init fl params w) m) :
    Sound params w m :=
  sound_of_reachable hids hvalid htimes hquantum
    (h.simulate (f := id) fun _ _ _ hstep => hstep.1)

include hadd hne htogether

theorem turnOf
    (h : Lts.Reachable (SteadyStep cfg i j) (init fl params w) m)
    (hstep : SteadyStep cfg i j m e m') : TurnOf params w cfg i j m e m' where
  sound := sound_of_steady hids hvalid htimes hquantum h
  sound' := sound_of_steady hids hvalid htimes hquantum (h.tail hstep)
  next := hstep.1.1
  turn := hstep.1.turn shouldPreempt_eq_false
  noOverflow := hstep.2.1
  steady := hstep.2.2
  added := hadd
  ne := hne
  together := htogether

/-- Two tasks that arrive together are level in every run with steady slices. -/
theorem level_of_reachable
    (h : Lts.Reachable (SteadyStep cfg i j) (init fl params w) m) :
    Level params w i j m ∧ Level params w j i m := by
  refine h.induction (I := fun m => Level params w i j m ∧ Level params w j i m) ?_ ?_
  · have harr : (init fl params w).events.arrivals
        = w.added := arrivals_init
    constructor
    · refine ⟨fun hi => ?_, fun hi => ?_⟩ <;> exact absurd (harr ▸ hadd.1) hi
    · refine ⟨fun hj => ?_, fun hj => ?_⟩ <;> exact absurd (harr ▸ hadd.2) hj
  · rintro s e t hs ⟨hij, hji⟩ hstep
    have hturn := turnOf hids hvalid htimes hquantum hadd hne htogether hs hstep
    exact ⟨hturn.level hquantum hij hji, hturn.symm.level hquantum hji hij⟩

/-- The pass of either task grows by a stride for every full quantum. -/
theorem pass_run {s t : Simulator (Rounded fl) 1} {es : List (Event 1)}
    (h : Lts.Reachable (SteadyStep cfg i j) (init fl params w) s)
    (hrun : Lts.Run (SteadyStep cfg i j) s es t) (hk : k = i ∨ k = j)
    (harr : k ∉ s.events.arrivals) (hcomp : k ∉ t.completedTasks) :
    k ∉ t.events.arrivals ∧
      pass t k + quanta params.quantum k s.history * stride params w k
        = pass s k + quanta params.quantum k t.history * stride params w k := by
  induction hrun with
  | nil => exact ⟨harr, rfl⟩
  | @snoc u v es e hrun hstep ih =>
    have hturn := turnOf hids hvalid htimes hquantum hadd hne htogether (h.run hrun) hstep
    obtain ⟨harru, heq⟩ := ih fun hmem => hcomp (hturn.turn.completedTasks_subset hmem)
    have hsteady : Steady k u e := by
      rcases hk with rfl | rfl
      · exact hturn.steady.1
      · exact hturn.steady.2
    obtain ⟨hback, hstay⟩ := pass_step hturn.sound hturn.noOverflow hsteady hturn.turn harru
      hturn.next.1 hcomp
    refine ⟨fun hmem => harru (hturn.turn.arrivals_subset hmem), ?_⟩
    by_cases hrequeues : Requeues u e k
    · obtain ⟨hpass, hquanta⟩ := hback hrequeues
      rw [hpass, hquanta, add_one_mul]
      omega
    · obtain ⟨hpass, hquanta⟩ := hstay hrequeues
      rw [hpass, hquanta, heq]

/-- What is completed stays completed. -/
theorem completedTasks_of_run {s t : Simulator (Rounded fl) 1} {es : List (Event 1)}
    (h : Lts.Reachable (SteadyStep cfg i j) (init fl params w) s)
    (hrun : Lts.Run (SteadyStep cfg i j) s es t) : s.completedTasks ⊆ t.completedTasks := by
  refine hrun.induction_of_reachable (I := fun u => s.completedTasks ⊆ u.completedTasks) h
    (fun _ => id) ?_
  intro u e v hu hsub hstep
  have hturn := turnOf hids hvalid htimes hquantum hadd hne htogether hu hstep
  exact fun p hp => hturn.turn.completedTasks_subset (hsub hp)

end Runs

end Rounding

/-! ## The bound -/

namespace StrideScheduler

open Rounding Machine

/-- **Proportional shares**: while the slices of two tasks that arrived together are steady, and no
pass overflows, they get full quanta in inverse proportion to their strides, up to one quantum of
each. -/
theorem proportionalShare (fl : Rounding) (params : StrideParams) (hquantum : 0 < params.quantum)
    (cfg : SimConfig) (w : Workload) (hids : w.DistinctIds) (hvalid : w.Valid)
    (htimes : ∀ p ∈ w.added, fl (w.args p).arrivalTime = (w.args p).arrivalTime) (i j : TaskPtr)
    (s t : Simulator (Rounded fl) 1) (time time' : ℚ)
    (h : SharedInterval (SteadyStep cfg i j) (new params : Rounded fl) w i j s t time time') :
    |((quanta params.quantum i t.history : ℚ) - quanta params.quantum i s.history)
          * stride params w i
        - ((quanta params.quantum j t.history : ℚ) - quanta params.quantum j s.history)
          * stride params w j|
      ≤ stride params w i + stride params w j := by
  obtain rfl | hne := eq_or_ne i j
  · rw [sub_self, abs_zero]
    positivity
  obtain ⟨es, hrun⟩ := h.interval
  have ht := h.run.run hrun
  obtain ⟨hij, hji⟩ := level_of_reachable hids hvalid htimes hquantum h.added hne h.arrival h.run
  obtain ⟨hij', hji'⟩ := level_of_reachable hids hvalid htimes hquantum h.added hne h.arrival ht
  have hgrowth := fun k hk => pass_run (k := k) hids hvalid htimes hquantum h.added hne h.arrival
    h.run hrun hk
  have hsub := completedTasks_of_run hids hvalid htimes hquantum h.added hne h.arrival h.run hrun
  obtain ⟨harri, hi⟩ := hgrowth i (.inl rfl) h.arrived.1 h.unfinished.1
  obtain ⟨harrj, hj⟩ := hgrowth j (.inr rfl) h.arrived.2 h.unfinished.2
  have hcompi := fun hmem => h.unfinished.1 (hsub hmem)
  have hcompj := fun hmem => h.unfinished.2 (hsub hmem)
  -- neither is more than its stride ahead of the other, before and after
  have hahead := (hij.abreast h.arrived.1 h.arrived.2 hcompi hcompj).pass_le
  have hbehind := (hji.abreast h.arrived.2 h.arrived.1 hcompj hcompi).pass_le
  have hahead' := (hij'.abreast harri harrj h.unfinished.1 h.unfinished.2).pass_le
  have hbehind' := (hji'.abreast harrj harri h.unfinished.2 h.unfinished.1).pass_le
  have cast : ∀ {a b : ℕ}, a ≤ b → (a : ℚ) ≤ b := fun h => Nat.cast_le.2 h
  have hi' := congrArg (Nat.cast : ℕ → ℚ) hi
  have hj' := congrArg (Nat.cast : ℕ → ℚ) hj
  have h₁ := cast hahead
  have h₂ := cast hbehind
  have h₃ := cast hahead'
  have h₄ := cast hbehind'
  push_cast at hi' hj' h₁ h₂ h₃ h₄
  rw [abs_le]
  constructor <;> linarith

/-- Tasks 1 and 2 of three that arrive at the double next to a tenth, up to the double next to
55.1: by then the clamp has lifted task 0, and a slice of it was measured as more than a quantum. -/
theorem proportionalShare_three :
    let cfg : SimConfig := { stopTime := 500 }
    let tenth := Binary64.nearest (1 / 10)
    let w := Workload.ofList [⟨0, tenth, 1000, 0⟩, ⟨1, tenth, 1000, 5⟩, ⟨2, tenth, 1000, 3⟩]
    let s := Rounding.binary64.turns cfg 3 (Rounding.init .binary64 {} w)
    let t := Rounding.binary64.turns cfg 11 s
    quanta 5 1 t.history = 2 ∧ quanta 5 2 t.history = 3 ∧
      |((quanta 5 1 t.history : ℚ) - quanta 5 1 s.history) * stride {} w 1
          - ((quanta 5 2 t.history : ℚ) - quanta 5 2 s.history) * stride {} w 2|
        ≤ stride {} w 1 + stride {} w 2 := by
  intro cfg tenth w s t
  have hs : Lts.Reachable (SteadyStep cfg 1 2) (Rounding.init .binary64 {} w) s :=
    Rounding.binary64.reachable_turns_of cfg 3 _ (by decide +kernel)
  have ht : Lts.Reachable (SteadyStep cfg 1 2) s t :=
    Rounding.binary64.reachable_turns_of cfg 11 _ (by decide +kernel)
  have hinterval : SharedInterval (SteadyStep cfg 1 2) (new {} : Rounded .binary64) w 1 2 s t
      s.currentTime t.currentTime :=
    ⟨hs, ht, by decide, by decide +kernel, by decide +kernel, by decide +kernel,
      ⟨le_rfl, by decide +kernel⟩, ⟨le_rfl, by decide +kernel⟩⟩
  exact ⟨by decide +kernel, by decide +kernel,
    proportionalShare .binary64 {} (by norm_num) cfg w (by decide) (by decide +kernel)
      (by decide +kernel) 1 2 s t _ _ hinterval⟩

/-- **The bound does not hold when the clamp lifts a task.**  Task 1 has had one quantum and waits
with a pass of 666; every return of task 0 to the queue lifts its pass to at least that. -/
theorem proportionalShare_false :
    let cfg : SimConfig := { stopTime := 500 }
    let w := Workload.ofList [⟨0, 0, 1000, -20⟩, ⟨1, 0, 1000, 19⟩]
    ¬ ∀ (s t : Simulator (Rounded .binary64) 1) (time time' : ℚ),
      SharedInterval (fun m e m' => Rounding.binary64.Step cfg m e m' ∧ Rounding.NoOverflow m e)
        (new {} : Rounded .binary64) w 0 1 s t time time' →
      |((quanta 5 0 t.history : ℚ) - quanta 5 0 s.history) * stride {} w 0
          - ((quanta 5 1 t.history : ℚ) - quanta 5 1 s.history) * stride {} w 1|
        ≤ stride {} w 0 + stride {} w 1 := by
  intro cfg w h
  let s := Rounding.binary64.turns cfg 2 (Rounding.init .binary64 {} w)
  let t := Rounding.binary64.turns cfg 5 s
  have hs : Lts.Reachable
      (fun m e m' => Rounding.binary64.Step cfg m e m' ∧ Rounding.NoOverflow m e)
      (Rounding.init .binary64 {} w) s :=
    Rounding.binary64.reachable_turns_of cfg 2 _ (by decide +kernel)
  have ht : Lts.Reachable
      (fun m e m' => Rounding.binary64.Step cfg m e m' ∧ Rounding.NoOverflow m e) s t :=
    Rounding.binary64.reachable_turns_of cfg 5 _ (by decide +kernel)
  have hinterval : SharedInterval
      (fun m e m' => Rounding.binary64.Step cfg m e m' ∧ Rounding.NoOverflow m e)
      (new {} : Rounded .binary64) w 0 1 s t 0 25 :=
    ⟨hs, ht, by decide, by decide +kernel, by decide +kernel, by decide +kernel,
      ⟨by decide +kernel, by decide +kernel⟩, ⟨by decide +kernel, by decide +kernel⟩⟩
  exact absurd (h s t _ _ hinterval) (by decide +kernel)

/-- Nor when a quantum is measured as less than one: the slices of task 1 that end at 12.13 and
32.13 take 4.999… and cost it 2 instead of 3.  The clamp is idle all the time. -/
example :
    let cfg : SimConfig := { stopTime := 500 }
    let start := Binary64.nearest (213 / 100)
    let w := Workload.ofList [⟨0, start, 1000, -6⟩, ⟨1, start, 1000, -5⟩]
    let s := Rounding.binary64.turns cfg 3 (Rounding.init .binary64 {} w)
    let t := Rounding.binary64.turns cfg 7 s
    (stride {} w 0 = 2 ∧ stride {} w 1 = 3) ∧
      quanta 5 0 t.history = quanta 5 0 s.history + 3 ∧
      quanta 5 1 t.history = quanta 5 1 s.history + 4 := by
  decide +kernel

end StrideScheduler

end SchedSim
