import SchedSim.Moves
import SchedSim.Schedulers.Factory

/-!
# What ends a slice

The event that ends a slice stays in the queue when its task is preempted,
since `cancel_task` does nothing, and `handle_time_slice` tells events apart by
task and core only.  So an event left behind by one dispatch can end a later one.

* `Machine.SlicePending` — the event of every current dispatch is pending; it
  holds in every reachable state, so no slice is ever too long.
* `Machine.CleanDispatch` — a step whose dispatch finds no event left behind
  that is due before the new slice ends.
* `fullSlice_of_cleanDispatch` — when all dispatches of a run are clean, every
  slice that is not preempted has its full length.
* `Simulator.fullSlice_false` — and a run in which one is not.
-/

namespace SchedSim

namespace Machine

variable {σ Q : Type} {n : ℕ}

/-- The event that ends the current slice of a core. -/
def sliceEvent (m : Machine σ Q n) (c : Fin n) (p : TaskPtr) : Event n :=
  ⟨.timeSlice, m.lastEventTime c + m.granted c, p, c⟩

/-- The event of every current dispatch is pending. -/
def SlicePending (m : Machine σ Q n) : Prop :=
  ∀ c p, m.runningTasks c = some p → m.sliceEvent c p ∈ m.events

/-- The event passes the check at the head of `handle_time_slice`. -/
def Acts (m : Machine σ Q n) (e : Event n) : Prop :=
  e.type = .timeSlice ∧ m.runningTasks e.coreId = some e.task

/-- No event is pending that would cut a current slice short. -/
def NoneLeftBehind (m : Machine σ Q n) : Prop :=
  ∀ e ∈ m.events, m.Acts e → m.lastEventTime e.coreId + m.granted e.coreId ≤ e.time

/-- If the step from `m` to `m'` dispatches a task on a core, then no other
pending event for this task and this core is due before the granted slice ends. -/
def CleanDispatch (m : Machine σ Q n) (e : Event n) (m' : Machine σ Q n) : Prop :=
  ∀ new c p granted, m'.history = new ++ m.history → .dispatched c p granted ∈ new →
    ∀ e' ∈ m.events.erase e, e'.type = .timeSlice → e'.task = p → e'.coreId = c →
      m'.currentTime + granted ≤ e'.time

/-- The event that is handled next ends a slice, and it comes when it should. -/
theorem elapsed_eq_granted {m : Machine σ Q n} {e : Event n} (hp : m.SlicePending)
    (hl : m.NoneLeftBehind) (he : m.events.IsNext e) (ha : m.Acts e) :
    e.time - m.lastEventTime e.coreId = m.granted e.coreId := by
  have hlate := hl e he.1 ha
  have hearly : e.time ≤ m.lastEventTime e.coreId + m.granted e.coreId :=
    he.2 _ (hp e.coreId e.task ha.2)
  linarith

/-- No slice is ever longer than granted. -/
theorem elapsed_le_granted {m : Machine σ Q n} {e : Event n} (hp : m.SlicePending)
    (he : m.events.IsNext e) {c : Fin n} {p : TaskPtr} (hc : m.runningTasks c = some p) :
    e.time - m.lastEventTime c ≤ m.granted c := by
  have hle : e.time ≤ m.lastEventTime c + m.granted c := he.2 _ (hp c p hc)
  linarith

variable [Scheduler σ] [DecidableEq Q] {m m' m₁ : Machine σ Q n} {e : Event n} {c : Fin n}
  {cfg : SimConfig} {slot : Fin n → Q}

/-! ## One step -/

/-- The state a step reaches before it calls `dispatch_next`, as far as the
cores and the events are concerned. -/
structure Before (m : Machine σ Q n) (e : Event n) (m₁ : Machine σ Q n) : Prop where
  events : m₁.events = m.events.erase e
  currentTime : m₁.currentTime = e.time
  lastEventTime : m₁.lastEventTime = m.lastEventTime
  history : ∃ charges, m₁.history = charges ++ m.history ∧ ∀ c p g, .dispatched c p g ∉ charges
  running : ∀ c p, m₁.runningTasks c = some p →
    m.runningTasks c = some p ∧ ¬(e.type = .timeSlice ∧ e.task = p ∧ e.coreId = c)

omit [Scheduler σ] [DecidableEq Q] in
theorem Before.granted (h : Before m e m₁) (c : Fin n) : m₁.granted c = m.granted c := by
  obtain ⟨charges, hhist, hnone⟩ := h.history
  have : charges.findSome? (grantedOn c) = none := by
    rw [List.findSome?_eq_none_iff]
    intro a ha
    cases a with
    | dispatched c' p g => exact absurd ha (hnone c' p g)
    | charged => rfl
  rw [Machine.granted, hhist, List.findSome?_append, this, Option.none_or, Machine.granted]

omit [Scheduler σ] [DecidableEq Q] in
theorem Before.sliceEvent (h : Before m e m₁) (c : Fin n) (p : TaskPtr) :
    m₁.sliceEvent c p = m.sliceEvent c p := by
  rw [Machine.sliceEvent, h.lastEventTime, h.granted, Machine.sliceEvent]

/-- Every step is some work without a dispatch, and possibly `dispatch_next`. -/
theorem Move.before (h : Move cfg slot m e m') :
    ∃ m₁, Before m e m₁ ∧ (m' = m₁ ∨ ∃ c, m₁.runningTasks c = none ∧ Next cfg slot c m₁ m') := by
  cases h with
  | skip hna hne =>
    refine ⟨m.pop e, ⟨rfl, rfl, rfl, ⟨[], rfl, by simp⟩, fun c p hc => ⟨hc, ?_⟩⟩, .inl rfl⟩
    rintro ⟨hts, rfl, rfl⟩
    exact hne hts hc
  | @queued q harr =>
    refine ⟨(m.pop e).enqueue q e.task,
      ⟨rfl, rfl, rfl, ⟨[], rfl, by simp⟩, fun c p hc => ⟨hc, by simp [harr]⟩⟩, .inl rfl⟩
  | @woken c _ harr hidle hn =>
    exact ⟨(m.pop e).enqueue (slot c) e.task,
      ⟨rfl, rfl, rfl, ⟨[], rfl, by simp⟩, fun c p hc => ⟨hc, by simp [harr]⟩⟩,
      .inr ⟨c, hidle, hn⟩⟩
  | @preempted c p _ harr hc _ _ hn =>
    refine ⟨(((m.pop e).enqueue (slot c) e.task).yieldCore (slot c) c p).countSwitch,
      ⟨rfl, rfl, rfl, ⟨[.charged c p (e.time - m.lastEventTime c)], rfl, by simp⟩,
        fun c' p' hc' => ⟨?_, by simp [harr]⟩⟩, .inr ⟨c, ?_, hn⟩⟩
    · rw [countSwitch_runningTasks, yieldCore_runningTasks] at hc'
      by_cases hcc : c' = c
      · subst hcc
        simp at hc'
      · simpa [hcc] using hc'
    · rw [countSwitch_runningTasks, yieldCore_runningTasks, setAt_self]
  | expired hts hc hn =>
    refine ⟨(m.pop e).settle (slot e.coreId) e.coreId e.task,
      ⟨by simp, by simp, by simp, ⟨[.charged e.coreId e.task (e.time - m.lastEventTime e.coreId)],
        by rw [settle_history]; rfl, by simp⟩, fun c' p' hc' => ?_⟩, .inr ⟨e.coreId, ?_, hn⟩⟩
    · rw [settle_runningTasks] at hc'
      by_cases hcc : c' = e.coreId
      · subst hcc
        simp at hc'
      · exact ⟨by simpa [hcc] using hc', fun h => hcc h.2.2.symm⟩
    · rw [settle_runningTasks, setAt_self]

omit [Scheduler σ] [DecidableEq Q] in
/-- The event of a core that keeps its task survives. -/
theorem Before.slicePending (h : Before m e m₁) (hm : m.SlicePending) : m₁.SlicePending := by
  intro c p hc
  obtain ⟨hrun, hne⟩ := h.running c p hc
  rw [h.sliceEvent, h.events]
  refine (List.mem_erase_of_ne ?_).2 (hm c p hrun)
  rintro rfl
  exact hne ⟨rfl, rfl, rfl⟩

/-- What `dispatch_next` does to the cores: either the core stays idle, or a
task is put on it and the end of its slice is scheduled. -/
theorem Next.core_cases (h : Next cfg slot c m m') (hc : m.runningTasks c = none) :
    (m'.runningTasks = m.runningTasks ∧ m'.lastEventTime = m.lastEventTime ∧
        m'.events = m.events ∧ m'.history = m.history) ∨
      ∃ p granted, m'.runningTasks = setAt m.runningTasks c (some p) ∧
        m'.lastEventTime = setAt m.lastEventTime c m.currentTime ∧
        m'.events = m.events ++ [⟨.timeSlice, m.currentTime + granted, p, c⟩] ∧
        m'.history = .dispatched c p granted :: m.history := by
  cases h with
  | idle => rw [clearCore_eq_self m c hc]; exact .inl ⟨rfl, rfl, rfl, rfl⟩
  | own => exact .inr ⟨_, _, rfl, rfl, rfl, rfl⟩
  | steal => exact .inr ⟨_, _, rfl, rfl, rfl, rfl⟩

theorem Next.slicePending (h : Next cfg slot c m m') (hc : m.runningTasks c = none)
    (hm : m.SlicePending) : m'.SlicePending := by
  intro c' p' hc'
  rcases h.core_cases hc with ⟨hrun, hlast, hev, hhist⟩ | ⟨p, granted, hrun, hlast, hev, hhist⟩
  · rw [sliceEvent, granted_congr hhist, hlast, hev]
    exact hm c' p' (hrun ▸ hc')
  · rw [sliceEvent, Machine.granted, hhist, hlast, hev]
    rw [hrun] at hc'
    by_cases hcc : c' = c
    · subst hcc
      obtain rfl : p = p' := by simpa using hc'
      simp [grantedOn]
    · have := hm c' p' (by simpa [hcc] using hc')
      rw [sliceEvent, Machine.granted] at this
      exact List.mem_append_left _ (by simpa [hcc, grantedOn, Ne.symm hcc] using this)

theorem Move.slicePending (h : Move cfg slot m e m') (hm : m.SlicePending) : m'.SlicePending := by
  obtain ⟨m₁, hbefore, rfl | ⟨c, hc, hn⟩⟩ := h.before
  · exact hbefore.slicePending hm
  · exact hn.slicePending hc (hbefore.slicePending hm)

/-- In every reachable state the end of every current slice is scheduled. -/
theorem slicePending_of_reachable [NeZero n] {schedulers : Q → σ} {w : Workload}
    (h : Lts.Reachable (Step cfg slot) (init schedulers w) m) : m.SlicePending := by
  refine h.induction (I := SlicePending) ?_ ?_
  · rintro c p ⟨⟩
  · intro s e t _ hm hstep
    exact hstep.2.2.slicePending hm

/-- A clean step leaves no event behind that would cut a slice short. -/
theorem Move.noneLeftBehind (h : Move cfg slot m e m') (hclean : CleanDispatch m e m')
    (hm : m.NoneLeftBehind) : m'.NoneLeftBehind := by
  obtain ⟨m₁, hbefore, hcase⟩ := h.before
  have hm₁ : m₁.NoneLeftBehind := by
    intro e' he' ⟨hts, hrun⟩
    rw [hbefore.events] at he'
    rw [hbefore.lastEventTime, hbefore.granted]
    exact hm e' (List.mem_of_mem_erase he') ⟨hts, (hbefore.running _ _ hrun).1⟩
  rcases hcase with rfl | ⟨c, hc, hn⟩
  · exact hm₁
  intro e' he' ⟨hts, hrun'⟩
  rcases hn.core_cases hc with ⟨hrun, hlast, hev, hhist⟩ | ⟨p, granted, hrun, hlast, hev, hhist⟩
  · rw [hlast, granted_congr hhist]
    exact hm₁ e' (hev ▸ he') ⟨hts, hrun ▸ hrun'⟩
  · rw [hlast, Machine.granted, hhist]
    rw [hrun] at hrun'
    rw [hev, List.mem_append, List.mem_singleton] at he'
    by_cases hcc : e'.coreId = c
    · have hp : p = e'.task := by simpa [hcc] using hrun'
      rcases he' with he' | rfl
      · -- an event of an earlier dispatch: the step is clean
        obtain ⟨charges, hch, -⟩ := hbefore.history
        have := hclean (.dispatched c p granted :: charges) c p granted (by simp [hhist, hch])
          (by simp) e' (hbefore.events ▸ he') hts hp.symm hcc
        rw [h.currentTime] at this
        simpa [hcc, grantedOn, hbefore.currentTime] using this
      · simp [grantedOn]
    · have he' : e' ∈ m₁.events := by
        rcases he' with he' | rfl
        · exact he'
        · exact absurd rfl hcc
      have := hm₁ e' he' ⟨hts, by simpa [hcc] using hrun'⟩
      simpa [hcc, grantedOn, Ne.symm hcc, Machine.granted] using this

/-- In a run whose steps are all clean no current slice is ever cut short. -/
theorem noneLeftBehind_of_reachable [NeZero n] {schedulers : Q → σ} {w : Workload}
    (h : Lts.Reachable (fun m e m' => Step cfg slot m e m' ∧ CleanDispatch m e m')
      (init schedulers w) m) : m.NoneLeftBehind := by
  refine h.induction (I := NoneLeftBehind) ?_ ?_
  · rintro e he ⟨-, ⟨⟩⟩
  · intro s e t _ hm hstep
    exact hstep.1.2.2.noneLeftBehind hstep.2 hm

/-- In such a run every slice event that is acted on ends a full slice. -/
theorem fullSlice [NeZero n] {schedulers : Q → σ} {w : Workload}
    (h : Lts.Reachable (fun m e m' => Step cfg slot m e m' ∧ CleanDispatch m e m')
      (init schedulers w) m) (he : m.events.IsNext e) (ha : m.Acts e) :
    e.time - m.lastEventTime e.coreId = m.granted e.coreId := by
  have hr := h.simulate (r := Step cfg slot) (f := id) fun _ _ _ hstep => hstep.1
  exact elapsed_eq_granted (slicePending_of_reachable hr) (noneLeftBehind_of_reachable h) he ha

end Machine

/-! ## The two simulators -/

/-- **A dispatch runs its full slice unless an arrival preempts it**, in every
run of either simulator in which no dispatch finds an event left behind by an
earlier dispatch of the same task on the same core that is due before the new
slice ends. -/
theorem fullSlice_of_cleanDispatch {n : ℕ} [NeZero n] (kind : SchedulerKind) (w : Workload) :
    (∀ (cfg : SimConfig) (s : Simulator kind.State n),
      Lts.Reachable (fun s e s' => Simulator.Step cfg s e s' ∧ s.CleanDispatch e s')
        (Simulator.init kind.make w) s →
      ∀ e s', Simulator.Step cfg s e s' → s.Acts e →
        e.time - s.lastEventTime e.coreId = s.granted e.coreId) ∧
    (∀ (balancer : LoadBalancer) (cfg : MultiConfig) (s : MultiCoreSimulator kind.State n),
      Lts.Reachable (fun s e s' => MultiCoreSimulator.Step cfg s e s' ∧
          s.CleanDispatch e s'.toMachine)
        (MultiCoreSimulator.init kind.make balancer w) s →
      ∀ e s', MultiCoreSimulator.Step cfg s e s' → s.Acts e →
        e.time - s.lastEventTime e.coreId = s.granted e.coreId) := by
  constructor
  · intro cfg s hs e s' hstep ha
    have hm := hs.simulate (f := id) (r := fun m e m' =>
      Machine.Step cfg Simulator.slot m e m' ∧ m.CleanDispatch e m')
      fun _ _ _ h => ⟨Simulator.step_machine h.1, h.2⟩
    exact Machine.fullSlice hm hstep.1 ha
  · intro balancer cfg s hs e s' hstep ha
    have hm := hs.simulate (f := MultiCoreSimulator.toMachine) (r := fun m e m' =>
      Machine.Step cfg.toSimConfig MultiCoreSimulator.slot m e m' ∧ m.CleanDispatch e m')
      fun _ _ _ h => ⟨MultiCoreSimulator.step_machine h.1, h.2⟩
    exact Machine.fullSlice hm hstep.1 ha

/-- The new actions of a step are at the head of the history. -/
instance {σ Q : Type} {n : ℕ} (m : Machine σ Q n) (e : Event n) (m' : Machine σ Q n) :
    Decidable (m.CleanDispatch e m') :=
  decidable_of_iff (m.history <:+ m'.history →
      ∀ a ∈ m'.history.take (m'.history.length - m.history.length), ∀ e' ∈ m.events.erase e,
        e'.type = .timeSlice → ∀ granted ∈ Machine.grantedOn e'.coreId a,
          a = .dispatched e'.coreId e'.task granted → m'.currentTime + granted ≤ e'.time) <| by
    constructor
    · intro h new c p granted hnew hmem e' he' hts htask hcore
      subst htask hcore
      have htake : m'.history.take (m'.history.length - m.history.length) = new := by
        rw [hnew, List.length_append, Nat.add_sub_cancel, List.take_left]
      exact h ⟨new, hnew.symm⟩ _ (htake ▸ hmem) e' he' hts granted (by simp [Machine.grantedOn]) rfl
    · rintro h ⟨new, hnew⟩ a ha e' he' hts granted - rfl
      rw [← hnew, List.length_append, Nat.add_sub_cancel, List.take_left] at ha
      exact h new e'.coreId e'.task granted hnew.symm ha e' he' hts rfl rfl

/-- Task 0 is preempted at 1 and dispatched again at 4, after the event of its first slice has
passed at 3 without effect; its second slice ends at 7.  In the other simulator task 1 runs on a
second core meanwhile. -/
theorem fullSlice_of_cleanDispatch_preempted :
    let kind := SchedulerKind.eevdf {}
    let cfg : MultiConfig := { stopTime := 50 }
    let single : Simulator kind.State 1 := Simulator.turns cfg.toSimConfig 4
      (Simulator.init kind.make (.ofList [⟨0, 0, 100, 0⟩, ⟨1, 1, 3, -5⟩]))
    let multi : MultiCoreSimulator kind.State 2 := MultiCoreSimulator.turns cfg 7
      (MultiCoreSimulator.init kind.make .leastLoaded
        (.ofList [⟨0, 0, 100, 0⟩, ⟨1, 0, 100, 0⟩, ⟨2, 1, 3, -5⟩]))
    (7 : ℚ) - single.lastEventTime 0 = single.granted 0 ∧
      (7 : ℚ) - multi.lastEventTime 0 = multi.granted 0 := by
  intro kind cfg single multi
  constructor
  · have hs := Simulator.reachable_turns_of (P := fun s e =>
      s.CleanDispatch e (Simulator.handle cfg.toSimConfig s e)) cfg.toSimConfig 4
      (Simulator.init (n := 1) kind.make (.ofList [⟨0, 0, 100, 0⟩, ⟨1, 1, 3, -5⟩]))
      (by decide +kernel)
    have hclean := hs.simulate (f := id) (r := fun s e s' =>
      Simulator.Step cfg.toSimConfig s e s' ∧ s.CleanDispatch e s')
      fun s e s' h => ⟨h.1, h.1.2.2 ▸ h.2⟩
    refine (fullSlice_of_cleanDispatch kind _).1 cfg.toSimConfig single hclean
      ⟨.timeSlice, 7, 0, 0⟩ _ ⟨?_, ?_, rfl⟩ ⟨rfl, ?_⟩ <;> decide +kernel
  · have hs := MultiCoreSimulator.reachable_turns_of (P := fun s e =>
      s.CleanDispatch e (MultiCoreSimulator.handle cfg s e).toMachine) cfg 7
      (MultiCoreSimulator.init (n := 2) kind.make .leastLoaded
        (.ofList [⟨0, 0, 100, 0⟩, ⟨1, 0, 100, 0⟩, ⟨2, 1, 3, -5⟩])) (by decide +kernel)
    have hclean := hs.simulate (f := id) (r := fun s e s' =>
      MultiCoreSimulator.Step cfg s e s' ∧ s.CleanDispatch e s'.toMachine)
      fun s e s' h => ⟨h.1, h.1.2.2 ▸ h.2⟩
    refine (fullSlice_of_cleanDispatch kind _).2 .leastLoaded cfg multi hclean
      ⟨.timeSlice, 7, 0, 0⟩ _ ⟨?_, ?_, rfl⟩ ⟨rfl, ?_⟩ <;> decide +kernel

/-- **Not every run is like that.**  Task 0 is dispatched at 0 and preempted by
task 1 at 1; task 1 is done at 1.5 and task 0 is dispatched again, until 4.5; the
event of its first dispatch ends the second one at 3. -/
theorem Simulator.fullSlice_false :
    ¬ ∀ (s : Simulator (SchedulerKind.eevdf {}).State 1),
      Lts.Reachable (Step { stopTime := 50 })
        (init (SchedulerKind.eevdf {}).make (.ofList [⟨0, 0, 100, 0⟩, ⟨1, 1, 1 / 2, -5⟩])) s →
      ∀ e s', Step { stopTime := 50 } s e s' → s.Acts e →
        e.time - s.lastEventTime e.coreId = s.granted e.coreId := by
  intro h
  have := h _ (reachable_turns _ 3 _) ⟨.timeSlice, 3, 0, 0⟩ _
    ⟨by decide +kernel, by decide +kernel, rfl⟩ ⟨rfl, by decide +kernel⟩
  exact absurd this (by decide +kernel)

end SchedSim
