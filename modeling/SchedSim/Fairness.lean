import SchedSim.SameStart

/-!
# How fairly two tasks share a core

The bound of `FairShare.service_gap_le`, in the terms of the simulator.  An
interval of a run goes from an instant at a state `s` to an instant at a later
state `t`; the tasks `i` and `j` arrived at the same instant, before the
interval, and neither is completed in it.

* `Machine.cpuTime` — the CPU time a task has had at an instant between events.
* `Machine.SharedInterval` — such an interval.
* `exists_bothArrived` — before it there is a state in which both tasks have just
  arrived.
* `Together.abs_cpuTime_le` — how far the CPU time of the tasks in the interval
  differs.
-/

namespace SchedSim

namespace Machine

variable {σ : Type} [Scheduler σ] {V : VirtualClock σ} {w : Workload} {m m' : Machine σ Unit 1}
  {e : Event 1} {p i j : TaskPtr} {cfg : SimConfig} {x y time : ℚ}

/-! ## CPU time between events -/

/-- The CPU time a task has had at an instant, if nothing happens before. -/
def cpuTime (m : Machine σ Unit 1) (time : ℚ) (p : TaskPtr) : ℚ :=
  (m.heap p).served + if m.runningTasks 0 = some p then time - m.lastEventTime 0 else 0

/-- The instants at which the simulator is in a state. -/
structure Current (m : Machine σ Unit 1) (time : ℚ) : Prop where
  now : m.currentTime ≤ time
  next : ∀ e ∈ m.events, time ≤ e.time

/-- The weighted CPU time between events is the service of the server in the
middle of a slice. -/
theorem Orderly.received (hm : m.Orderly V w) (hslice : m.SlicePending) (ht : m.Current time) :
    ∃ x, 0 ≤ x ∧ (∀ p, m.runningTasks 0 = some p → x ≤ (m.view V).slice p) ∧
      ∀ p, (m.view V).received x p = V.rate (w.heap p) * m.cpuTime time p := by
  have hrate : ∀ p, V.rate (m.heap p) = V.rate (w.heap p) := fun p =>
    V.rate_congr _ _ (hm.fixed p)
  cases hc : m.runningTasks 0 with
  | none =>
    refine ⟨0, le_rfl, fun p hp => (by cases hp), fun p => ?_⟩
    simp [FairShare.Server.received, view, cpuTime, VirtualClock.service, hrate, hc]
  | some q =>
    have hpast : 0 ≤ time - m.lastEventTime 0 :=
      sub_nonneg.2 (((hm.books.booked q).running 0 hc).past.trans ht.now)
    have hgranted : time - m.lastEventTime 0 ≤ m.lastGrant q := by
      have hle : time ≤ m.lastEventTime 0 + m.granted 0 := ht.next _ (hslice 0 q hc)
      rw [hm.clocked.granted q hc]
      linarith
    refine ⟨V.rate (m.heap q) * (time - m.lastEventTime 0), mul_nonneg (V.rate_nonneg _) hpast,
      fun p hp => ?_, fun p => ?_⟩
    · obtain rfl := Option.some.inj hp
      exact mul_le_mul_of_nonneg_left hgranted (V.rate_nonneg _)
    · rw [FairShare.Server.received, cpuTime, ← hrate]
      show V.service (m.heap p) + (if m.runningTasks 0 = some p then _ else 0) = _
      rw [VirtualClock.service, mul_add, hc]
      by_cases hqp : q = p
      · subst hqp
        rw [if_pos rfl, if_pos rfl]
      · have hne : some q ≠ some p := fun h => hqp (Option.some.inj h)
        rw [if_neg hne, if_neg hne, mul_zero]

/-! ## The state in which both tasks have just arrived -/

/-- An interval of a run, from an instant at the state `s` to one at the state
`t`, in which two tasks that arrived at the same instant both stay unfinished. -/
structure SharedInterval (step : Machine σ Unit 1 → Event 1 → Machine σ Unit 1 → Prop)
    (scheduler : σ) (w : Workload) (i j : TaskPtr) (s t : Machine σ Unit 1) (time time' : ℚ) :
    Prop where
  run : Lts.Reachable step (Simulator.init scheduler w) s
  interval : Lts.Reachable step s t
  added : i ∈ w.added ∧ j ∈ w.added
  arrival : (w.args i).arrivalTime = (w.args j).arrivalTime
  arrived : i ∉ s.events.arrivals ∧ j ∉ s.events.arrivals
  unfinished : i ∉ t.completedTasks ∧ j ∉ t.completedTasks
  start : s.Current time
  stop : t.Current time'

/-- A state of the run up to `s`, at the instant at which both tasks arrived. -/
structure BothArrived (step : Machine σ Unit 1 → Event 1 → Machine σ Unit 1 → Prop)
    (scheduler : σ) (w : Workload) (i j : TaskPtr) (a s : Machine σ Unit 1) : Prop where
  run : Lts.Reachable step (Simulator.init scheduler w) a
  before : Lts.Reachable step a s
  arrived : i ∉ a.events.arrivals ∧ j ∉ a.events.arrivals
  now : (w.args i).arrivalTime = a.currentTime

/-- Two tasks that arrived at the same instant and are not completed at `t`; `a`
is a state at the instant of their arrival. -/
structure Together (cfg : SimConfig) (scheduler : σ) (w : Workload) (i j : TaskPtr)
    (a s t : Machine σ Unit 1) : Prop where
  start : Lts.Reachable (Step cfg Simulator.slot) (init (fun _ => scheduler) w) a
  before : Lts.Reachable (Step cfg Simulator.slot) a s
  interval : Lts.Reachable (Step cfg Simulator.slot) s t
  added : i ∈ w.added ∧ j ∈ w.added
  arrived : i ∉ a.events.arrivals ∧ j ∉ a.events.arrivals
  now : (w.args i).arrivalTime = a.currentTime ∧ (w.args j).arrivalTime = a.currentTime
  unfinished : i ∉ t.completedTasks ∧ j ∉ t.completedTasks

variable {scheduler : σ} {a s t : Machine σ Unit 1}

theorem Together.symm (h : Together cfg scheduler w i j a s t) :
    Together cfg scheduler w j i a s t :=
  ⟨h.start, h.before, h.interval, h.added.symm, h.arrived.symm, h.now.symm, h.unfinished.symm⟩

/-- A task whose arrival is pending no more has just arrived. -/
theorem Move.arrived {slot : Fin 1 → Unit} (h : Move cfg slot m e m') (hm : m.Orderly V w)
    (hp : p ∈ m.events.arrivals) (hp' : p ∉ m'.events.arrivals) :
    m'.currentTime = (w.args p).arrivalTime := by
  obtain ⟨e', he', ht, rfl⟩ := EventQueue.mem_arrivals.1 hp
  have hkept : ∀ d ∈ m.events.erase e, d ∈ m'.events := by
    intro d hd
    obtain ⟨m₁, hbefore, rfl | ⟨c, hc, hn⟩⟩ := h.before
    · rwa [hbefore.events]
    · rcases hn.core_cases hc with ⟨-, -, hev, -⟩ | ⟨_, _, -, -, hev, -⟩
      · rwa [hev, hbefore.events]
      · rw [hev, hbefore.events]
        exact List.mem_append_left _ hd
  have heq : e' = e := by
    by_contra hne
    exact hp' (EventQueue.mem_arrivals.2 ⟨e', hkept e' ((List.mem_erase_of_ne hne).2 he'), ht, rfl⟩)
  rw [h.currentTime, ← heq, hm.announced e' he' ht]
  exact congrArg (fun f => f.1.arrivalTime) (hm.fixed e'.task)

variable [LawfulScheduler σ]

section Arrival

variable {step : Machine σ Unit 1 → Event 1 → Machine σ Unit 1 → Prop}
  (hstep : ∀ m e m', step m e m' → Step cfg Simulator.slot m e m') (hgood : V.Good scheduler)
  (hempty : readyTasks scheduler = []) (hvalid : w.Valid)

include hstep hgood hempty hvalid

/-- Two tasks that arrive at the same instant have both just arrived in some state. -/
theorem exists_bothArrived (hs : Lts.Reachable step (Simulator.init scheduler w) s)
    (hi : i ∈ w.added) (harrival : (w.args i).arrivalTime = (w.args j).arrivalTime)
    (his : i ∉ s.events.arrivals) (hjs : j ∉ s.events.arrivals) :
    ∃ a, BothArrived step scheduler w i j a s := by
  obtain ⟨es, hrun⟩ := hs
  induction hrun with
  | nil =>
    have harr : i ∉ (init (fun _ => scheduler) w : Machine σ Unit 1).events.arrivals := his
    rw [arrivals_init] at harr
    exact absurd hi harr
  | @snoc u v es e hr hlast ih =>
    have hu : Lts.Reachable (Step cfg Simulator.slot) (init (fun _ => scheduler) w) u :=
      hr.reachable.simulate (f := id) hstep
    have horderly : u.Orderly V w := orderly_of_reachable hgood hempty hvalid hu
    have hmove := (hstep u e v hlast).2.2
    by_cases hboth : i ∉ u.events.arrivals ∧ j ∉ u.events.arrivals
    · obtain ⟨a, ha⟩ := ih hboth.1 hboth.2
      exact ⟨a, ha.run, ha.before.tail hlast, ha.arrived, ha.now⟩
    · -- the last of the two arrives in this step
      refine ⟨v, hr.reachable.tail hlast, .refl, ⟨his, hjs⟩, ?_⟩
      by_cases hiu : i ∈ u.events.arrivals
      · exact (hmove.arrived horderly hiu his).symm
      · have hju : j ∈ u.events.arrivals := by
          by_contra hju
          exact hboth ⟨hiu, hju⟩
        rw [harrival]
        exact (hmove.arrived horderly hju hjs).symm

theorem SharedInterval.together {time time' : ℚ}
    (h : SharedInterval step scheduler w i j s t time time') :
    ∃ a, BothArrived step scheduler w i j a s ∧ Together cfg scheduler w i j a s t := by
  obtain ⟨a, ha⟩ := exists_bothArrived hstep hgood hempty hvalid h.run h.added.1 h.arrival
    h.arrived.1 h.arrived.2
  exact ⟨a, ha, ha.run.simulate (f := id) hstep, ha.before.simulate (f := id) hstep,
    h.interval.simulate (f := id) hstep, h.added, ha.arrived,
    ⟨ha.now, h.arrival.symm.trans ha.now⟩, h.unfinished⟩

end Arrival

/-- A task that has arrived and is not completed is ready or on the core. -/
theorem active_of_arrived (hempty : readyTasks scheduler = []) (hids : w.DistinctIds)
    (hvalid : w.Valid) (h : Lts.Reachable (Step cfg Simulator.slot) (init (fun _ => scheduler) w) m)
    (hp : p ∈ w.added) (harr : p ∉ m.events.arrivals) (hcomp : p ∉ m.completedTasks) :
    p ∈ (m.view V).active := by
  have hacc := accounted_of_reachable (fun _ => hempty) hids hvalid h hp
  rcases hacc.live harr hcomp with ⟨q, hq⟩ | ⟨c, hc⟩
  · exact .inl hq
  · obtain rfl : c = 0 := Subsingleton.elim _ _
    exact .inr hc

/-- A bound on the slices of every dispatch bounds the last slice of every task. -/
theorem lastGrant_le_of_reachable {b : TaskPtr → ℚ} (hgood : V.Good scheduler)
    (hempty : readyTasks scheduler = []) (hvalid : w.Valid) (hbound : ∀ p, 0 ≤ b p)
    (hgrant : ∀ (m : Machine σ Unit 1) (p : TaskPtr) (x : ℚ), m.Orderly V w →
      schedule (m.schedulers ()) m.heap = ⟨some p, x⟩ →
      grant cfg x (m.heap p).remainingTime ≤ b p)
    (h : Lts.Reachable (Step cfg Simulator.slot) (init (fun _ => scheduler) w) m) (p : TaskPtr) :
    m.lastGrant p ≤ b p := by
  obtain ⟨es, hrun⟩ := h
  have hblocks := blocks_of_run hgood hempty hvalid Lts.Reachable.refl hrun
  clear hrun
  induction hblocks with
  | refl => exact hbound p
  | @tail u v hbs hb ih =>
    have horderly := Blocks.orderly hbs hvalid (orderly_init hgood hempty hvalid)
    cases hb with
    | skip => exact ih
    | arrive => exact ih
    | yield => exact ih
    | finish => exact ih
    | countSwitch => exact ih
    | @dispatch q x hc hs =>
      by_cases hpq : p = q
      · subst hpq
        rw [lastGrant_dispatch_self]
        exact hgrant u p x horderly hs
      · rw [lastGrant_dispatch_of_ne hpq]
        exact ih

/-! ## The bound -/

/-- The weighted length of the longer one of the last slices granted to a task
before `s` and before `t`. -/
def longestGrant (V : VirtualClock σ) (w : Workload) (s t : Machine σ Unit 1) (p : TaskPtr) : ℚ :=
  V.rate (w.heap p) * max (s.lastGrant p) (t.lastGrant p)

section Gap

variable {base : ℚ} (hgood : V.Good scheduler) (hempty : readyTasks scheduler = [])
  (hids : w.DistinctIds) (hvalid : w.Valid) (h : Together cfg scheduler w i j a s t)

include hgood hempty hids hvalid h in
/-- In the state `a` both tasks are ready or on the core. -/
theorem Together.active : i ∈ (a.view V).active ∧ j ∈ (a.view V).active := by
  obtain ⟨es, hrun⟩ := h.before
  obtain ⟨es', hrun'⟩ := h.interval
  have hblocks := blocks_of_run hgood hempty hvalid h.start hrun
  have hblocks' := blocks_of_run hgood hempty hvalid (h.start.run hrun) hrun'
  have hsub := Blocks.completedTasks_subset (hblocks.trans hblocks')
  exact ⟨active_of_arrived hempty hids hvalid h.start h.added.1 h.arrived.1 fun hmem =>
      h.unfinished.1 (hsub hmem),
    active_of_arrived hempty hids hvalid h.start h.added.2 h.arrived.2 fun hmem =>
      h.unfinished.2 (hsub hmem)⟩

include hgood hempty hids hvalid h in
/-- In the state `a` neither task has had any service. -/
theorem Together.service_eq_zero : V.service (a.heap i) = 0 ∧ V.service (a.heap j) = 0 := by
  obtain ⟨hi, hj⟩ := h.active hgood hempty hids hvalid
  have horderly := orderly_of_reachable hgood hempty hvalid h.start
  have hservice : ∀ p, p ∈ (a.view V).active → (w.args p).arrivalTime = a.currentTime →
      V.service (a.heap p) = 0 := by
    intro p hp hnow
    rw [VirtualClock.service, horderly.served_eq_zero hp
      ((arrivalTime_of_fixed (horderly.fixed p)).trans hnow), mul_zero]
  exact ⟨hservice i hi h.now.1, hservice j hj h.now.2⟩

include hgood hempty hids hvalid h in
/-- In the state `a` neither task is ahead of the other. -/
theorem Together.lead (hbase : base ≤ V.vtime (a.heap i)) (hbase' : base ≤ V.vtime (a.heap j)) :
    FairShare.Lead (slackIn V w) base i j (a.view V) := by
  obtain ⟨hi0, hj0⟩ := h.service_eq_zero hgood hempty hids hvalid
  have horderly := orderly_of_reachable hgood hempty hvalid h.start
  have hslice : 0 ≤ if (a.view V).running = some i then 0 else (a.view V).slice i := by
    split
    · exact le_rfl
    · exact mul_nonneg (V.rate_nonneg _) (horderly.granted i)
  refine ⟨?_, ?_⟩
  · show base ≤ V.lift (a.heap i)
    rw [VirtualClock.lift, hi0, sub_zero]
    exact hbase
  · show V.service (a.heap i) - V.service (a.heap j)
      ≤ V.lift (a.heap j) - base + slackIn V w i j + _
    have hslack : 0 ≤ slackIn V w i j := V.slack_nonneg _ _
    rw [hi0, hj0, VirtualClock.lift, hj0]
    linarith

include hgood hempty hids hvalid h in
/-- If new tasks start at a floor, the two start with the same virtual time. -/
theorem Together.vtime_eq (F : V.Floor) : V.vtime (a.heap i) = V.vtime (a.heap j) := by
  obtain ⟨hi, hj⟩ := h.active hgood hempty hids hvalid
  have horderly := orderly_of_reachable hgood hempty hvalid h.start
  have hlevel := level_of_reachable F hgood hempty hvalid h.start
  rw [hlevel i hi ((arrivalTime_of_fixed (horderly.fixed i)).trans h.now.1),
    hlevel j hj ((arrivalTime_of_fixed (horderly.fixed j)).trans h.now.2)]

include hgood hempty hvalid h in
/-- What the tasks were given without CPU time until `t`. -/
theorem Together.lift_eq :
    V.lift (t.heap i) = V.vtime (t.heap i) - V.rate (w.heap i) * (t.heap i).served ∧
      V.lift (t.heap j) = V.vtime (t.heap j) - V.rate (w.heap j) * (t.heap j).served := by
  obtain ⟨es, hrun⟩ := h.before
  obtain ⟨es', hrun'⟩ := h.interval
  have ht := orderly_of_reachable hgood hempty hvalid ((h.start.run hrun).run hrun')
  rw [VirtualClock.lift, VirtualClock.lift, VirtualClock.service, VirtualClock.service,
    V.rate_congr _ _ (ht.fixed i), V.rate_congr _ _ (ht.fixed j)]
  exact ⟨rfl, rfl⟩

include hgood hempty hids hvalid h in
/-- Task `i` gets no more service than task `j`, up to the bound. -/
theorem Together.gap_le (hcap : w.added.length ≤ V.capacity) (hbase : base ≤ V.vtime (a.heap i))
    (hbase' : base ≤ V.vtime (a.heap j)) (hx : 0 ≤ x)
    (hxcap : ∀ p, s.runningTasks 0 = some p → x ≤ (s.view V).slice p) (hy : 0 ≤ y)
    (hycap : ∀ p, t.runningTasks 0 = some p → y ≤ (t.view V).slice p) :
    (t.view V).received y i - (s.view V).received x i
        - ((t.view V).received y j - (s.view V).received x j)
      ≤ longestGrant V w s t i + longestGrant V w s t j + (slackIn V w i j + slackIn V w j i)
        + (V.lift (t.heap i) - base) + (V.lift (t.heap j) - base) := by
  obtain ⟨es, hrun⟩ := h.before
  obtain ⟨es', hrun'⟩ := h.interval
  have hs := h.start.run hrun
  have hordera := orderly_of_reachable hgood hempty hvalid h.start
  have horders := orderly_of_reachable hgood hempty hvalid hs
  have hordert := orderly_of_reachable hgood hempty hvalid (hs.run hrun')
  have hblocks := blocks_of_run hgood hempty hvalid h.start hrun
  have hblocks' := blocks_of_run hgood hempty hvalid hs hrun'
  obtain ⟨as, hview, hfin⟩ := hblocks.refines hordera hvalid hids hcap
  obtain ⟨as', hview', hfin'⟩ := hblocks'.refines horders hvalid hids hcap
  -- neither task finishes before `t`
  have hsub := Blocks.completedTasks_subset hblocks'
  have hfinish : ∀ {p}, p ∉ t.completedTasks → .finish p ∉ as ∧ .finish p ∉ as' := fun hp =>
    ⟨fun hmem => hp (hsub (hfin _ hmem)), fun hmem => hp (hfin' _ hmem)⟩
  obtain ⟨hia, hja⟩ := h.active hgood hempty hids hvalid
  obtain ⟨hleadi, hi, hj, -, -⟩ := (h.lead hgood hempty hids hvalid hbase hbase').run hview hia hja
    (hfinish h.unfinished.1).1 (hfinish h.unfinished.2).1
  obtain ⟨hleadj, -⟩ := (h.symm.lead hgood hempty hids hvalid hbase' hbase).run hview hja hia
    (hfinish h.unfinished.2).1 (hfinish h.unfinished.1).1
  have hgap := FairShare.service_gap_le hview' hi hj (hfinish h.unfinished.1).2
    (hfinish h.unfinished.2).2 hleadi hleadj hx hxcap hy hycap
  have hslicet : (t.view V).slice i ≤ longestGrant V w s t i := by
    show V.rate (t.heap i) * t.lastGrant i ≤ _
    rw [V.rate_congr _ _ (hordert.fixed i)]
    exact mul_le_mul_of_nonneg_left (le_max_right _ _) (V.rate_nonneg _)
  have hslices : (s.view V).slice j ≤ longestGrant V w s t j := by
    show V.rate (s.heap j) * s.lastGrant j ≤ _
    rw [V.rate_congr _ _ (horders.fixed j)]
    exact mul_le_mul_of_nonneg_left (le_max_left _ _) (V.rate_nonneg _)
  refine hgap.trans ?_
  show _ + _ + _ + (V.lift (t.heap i) - base) + (V.lift (t.heap j) - base) ≤ _
  linarith

include hgood hempty hids hvalid h in
/-- The bound for both tasks. -/
theorem Together.abs_gap_le (hcap : w.added.length ≤ V.capacity)
    (hbase : base ≤ V.vtime (a.heap i)) (hbase' : base ≤ V.vtime (a.heap j)) (hx : 0 ≤ x)
    (hxcap : ∀ p, s.runningTasks 0 = some p → x ≤ (s.view V).slice p) (hy : 0 ≤ y)
    (hycap : ∀ p, t.runningTasks 0 = some p → y ≤ (t.view V).slice p) :
    |(t.view V).received y i - (s.view V).received x i
        - ((t.view V).received y j - (s.view V).received x j)|
      ≤ longestGrant V w s t i + longestGrant V w s t j + (slackIn V w i j + slackIn V w j i)
        + (V.lift (t.heap i) - base) + (V.lift (t.heap j) - base) := by
  have hij := h.gap_le hgood hempty hids hvalid hcap hbase hbase' hx hxcap hy hycap
  have hji := h.symm.gap_le hgood hempty hids hvalid hcap hbase' hbase hx hxcap hy hycap
  rw [abs_le]
  constructor
  · linarith
  · linarith

include hgood hempty hids hvalid h in
/-- **The CPU time of the tasks in the interval, weighted, differs by no more
than the longest slice of each, the slack of the policy, and what they were
given without CPU time.** -/
theorem Together.abs_cpuTime_le (hcap : w.added.length ≤ V.capacity)
    (hbase : base ≤ V.vtime (a.heap i)) (hbase' : base ≤ V.vtime (a.heap j)) {time' : ℚ}
    (htime : s.Current time) (htime' : t.Current time') :
    |V.rate (w.heap i) * (t.cpuTime time' i - s.cpuTime time i)
        - V.rate (w.heap j) * (t.cpuTime time' j - s.cpuTime time j)|
      ≤ longestGrant V w s t i + longestGrant V w s t j + (slackIn V w i j + slackIn V w j i)
        + (V.lift (t.heap i) - base) + (V.lift (t.heap j) - base) := by
  obtain ⟨es, hrun⟩ := h.before
  obtain ⟨es', hrun'⟩ := h.interval
  have hs := h.start.run hrun
  have ht := hs.run hrun'
  obtain ⟨x, hx, hxcap, hxrec⟩ := (orderly_of_reachable hgood hempty hvalid hs).received
    (slicePending_of_reachable hs) htime
  obtain ⟨y, hy, hycap, hyrec⟩ := (orderly_of_reachable hgood hempty hvalid ht).received
    (slicePending_of_reachable ht) htime'
  have hgap := h.abs_gap_le hgood hempty hids hvalid hcap hbase hbase' hx hxcap hy hycap
  rw [hxrec, hxrec, hyrec, hyrec] at hgap
  rwa [mul_sub, mul_sub]

end Gap

end Machine

end SchedSim
