import SchedSim.Allotments
import SchedSim.UsefulPreemption

/-!
# Queues and task levels agree

The level of a task lives in the record that all schedulers share, and the queue it stands in
in one of them.  Every operation that touches one of the two has to keep them in agreement, and
the allotments and the boost timer in their bounds with them.

* `Machine.Regulated`, `Part.regulated` — every task has some of its allotment left, never more
  than all of it, and a boost is never overdue.
* `levels_agree` — queues, levels, allotments and timers agree in every state of every run.
-/

namespace SchedSim

namespace MLFQScheduler

variable {s : MLFQScheduler} {h : Heap} {p : TaskPtr} {x : ℚ} {t : Task} {params : MLFQParams}

/-- When the scheduler boosts at all, the next boost is not overdue. -/
def BoostInTime (s : MLFQScheduler) : Prop :=
  s.params.enableBoost = true → 0 < s.params.boostInterval →
    0 ≤ s.timeSinceLastBoost ∧ s.timeSinceLastBoost < s.params.boostInterval

/-- A charge advances the timer; the boost that is due turns it back. -/
theorem timeSinceLastBoost_onCpuUsed (s : MLFQScheduler) (h : Heap) (p : TaskPtr) (x : ℚ) :
    (s.onCpuUsed h p x).1.timeSinceLastBoost
      = if s.params.enableBoost then
          if s.params.boostInterval ≤ s.timeSinceLastBoost + x then 0
          else s.timeSinceLastBoost + x
        else s.timeSinceLastBoost := by
  simp only [onCpuUsed]
  split
  · split <;> rfl
  · rfl

theorem BoostInTime.onCpuUsed (hs : s.BoostInTime) (hx : 0 ≤ x) :
    (s.onCpuUsed h p x).1.BoostInTime := by
  intro hboost hinterval
  rw [onCpuUsed_params] at hboost hinterval
  obtain ⟨hlow, -⟩ := hs hboost hinterval
  rw [timeSinceLastBoost_onCpuUsed, onCpuUsed_params, if_pos hboost]
  split
  next => exact ⟨le_rfl, hinterval⟩
  next hdue => exact ⟨add_nonneg hlow hx, not_le.1 hdue⟩

/-- A gauge shows some of the allotment of the level, and not more than all of it. -/
def InBounds (params : MLFQParams) (g : ℤ × ℚ) : Prop :=
  0 < g.2 ∧ g.2 ≤ (new params).allotmentForLevel g.1

/-- A fresh allotment is in bounds. -/
theorem inBounds_full {level : ℤ}
    (hquanta : ∀ config ∈ params.queueConfigs, 0 < config.timeQuantum) (hlow : 0 ≤ level)
    (hhigh : level < params.queueConfigs.length) :
    InBounds params (level, (new params).allotmentForLevel level) :=
  ⟨allotmentForLevel_pos hquanta hlow hhigh, le_rfl⟩

theorem inBounds_top (hquanta : ∀ config ∈ params.queueConfigs, 0 < config.timeQuantum) :
    InBounds params (0, (new params).allotmentForLevel 0) := by
  have hpos := List.length_pos_of_ne_nil params.configs_ne
  exact inBounds_full hquanta le_rfl (by omega)

/-- A charge leaves some of the allotment, or sets the allotment of a level that exists. -/
theorem inBounds_chargeAllotment
    (hquanta : ∀ config ∈ params.queueConfigs, 0 < config.timeQuantum) (hs : s.params = params)
    (hlow : 0 ≤ t.currentQueue) (hhigh : t.currentQueue < params.queueConfigs.length)
    (hx : 0 ≤ x) (ht : InBounds params t.gauge) :
    InBounds params (s.chargeAllotment x t).gauge := by
  obtain ⟨-, hle⟩ := ht
  rw [Task.gauge] at hle
  rw [← numLevels_of_params hs] at hhigh
  obtain ⟨hlow', hhigh'⟩ := level_chargeAllotment_range (x := x) hlow hhigh
  rw [numLevels_of_params hs] at hhigh'
  rw [gauge_chargeAllotment] at *
  split
  next hout =>
    -- the allotment is used up, and that of the new level is set
    have hlevel : (s.chargeAllotment x t).currentQueue = _ :=
      congrArg Prod.fst (s.gauge_chargeAllotment x t)
    rw [if_pos hout] at hlevel
    rw [hlevel] at hlow' hhigh'
    have hfull := inBounds_full hquanta hlow' hhigh'
    rw [← allotmentForLevel_of_params hs] at hfull
    exact hfull
  next hout =>
    refine ⟨sub_pos.2 (not_le.1 hout), ?_⟩
    exact (sub_le_self _ hx).trans hle

end MLFQScheduler

namespace Machine

/-! ## The allotments and the timers -/

section Regulated

variable {Q : Type} [DecidableEq Q] {n : ℕ} {m m' : Machine MLFQScheduler Q n} {q : Q} {c : Fin n}
  {p r : TaskPtr} {cfg : SimConfig} {slot : Fin n → Q} {w : Workload} {params : MLFQParams}

omit [DecidableEq Q] in
/-- The allotments of the tasks that are ready or running are in bounds, and no boost is
overdue. -/
structure Regulated (params : MLFQParams) (slot : Fin n → Q) (m : Machine MLFQScheduler Q n) :
    Prop where
  allotment : ∀ q r, Under slot m q r → MLFQScheduler.InBounds params (m.gauge r)
  boost : ∀ q, (m.schedulers q).BoostInTime

omit [DecidableEq Q] in
/-- A task keeps its gauge, or gets one in bounds. -/
theorem Regulated.of_cases (hm : m.Regulated params slot)
    (hboost : ∀ q, (m'.schedulers q).BoostInTime)
    (h : ∀ q r, Under slot m' q r → MLFQScheduler.InBounds params (m'.gauge r) ∨
      ∃ q', Under slot m q' r ∧ m'.gauge r = m.gauge r) : m'.Regulated params slot := by
  refine ⟨fun q r hr => ?_, hboost⟩
  rcases h q r hr with hbounds | ⟨q', hunder, hsame⟩
  · exact hbounds
  · rw [hsame]
    exact hm.allotment q' r hunder

omit [DecidableEq Q] in
/-- The gauge of the task that is charged stays in bounds. -/
theorem Regulated.chargeAllotment
    (hquanta : ∀ config ∈ params.queueConfigs, 0 < config.timeQuantum)
    (hm : m.Regulated params slot) (hlev : m.Leveled params slot) (htimely : m.Timely w)
    (hc : m.runningTasks c = some p) : MLFQScheduler.InBounds params
      ((m.schedulers (slot c)).chargeAllotment (m.elapsed c) (m.heap p)).gauge := by
  have hunder : Under slot m (slot c) p := .inr ⟨c, rfl, hc⟩
  obtain ⟨hlow, hhigh⟩ := hlev.range (slot c) p hunder
  exact MLFQScheduler.inBounds_chargeAllotment hquanta (hlev.sameParams (slot c)) hlow hhigh
    (sub_nonneg.2 (htimely.past c p hc)) (hm.allotment (slot c) p hunder)

/-- A charge leaves no boost overdue. -/
theorem Regulated.boost_charge (hm : m.Regulated params slot) (htimely : m.Timely w)
    (hc : m.runningTasks c = some p) (q : Q) :
    ((m.charge (slot c) c p).schedulers q).BoostInTime :=
  forall_setAt (P := MLFQScheduler.BoostInTime) hm.boost
    ((hm.boost (slot c)).onCpuUsed (sub_nonneg.2 (htimely.past c p hc))) q

variable [Fintype Q]

/-- **Every part keeps the allotments in bounds and the boosts in time.** -/
theorem Part.regulated (hquanta : ∀ config ∈ params.queueConfigs, 0 < config.timeQuantum)
    (h : Part w cfg slot m m') (hroster : m.Roster w) (hlev : m.Leveled params slot)
    (htimely : m.Timely w) (hm : m.Regulated params slot) : m'.Regulated params slot := by
  have htop := MLFQScheduler.inBounds_top hquanta
  have hset : ∀ {schedulers : Q → MLFQScheduler} {q : Q} {s : MLFQScheduler},
      (∀ q, (schedulers q).BoostInTime) → s.BoostInTime →
      ∀ q', (setAt schedulers q s q').BoostInTime := fun h hs =>
    forall_setAt (P := MLFQScheduler.BoostInTime) h hs
  cases h with
  | pop => exact ⟨hm.allotment, hm.boost⟩
  | @enter q p _ hp hneg =>
    refine hm.of_cases (hset hm.boost (hm.boost q)) fun q' r hr => ?_
    rw [gauge_enqueue, MLFQScheduler.allotmentForLevel_of_params (hlev.sameParams q)]
    rcases under_of_enqueue hp hr with ⟨-, rfl⟩ | ⟨hrp, hunder⟩
    · left
      rwa [if_pos rfl, if_pos hneg]
    · exact .inr ⟨q', hunder, if_neg hrp⟩
  | @yield c p hc =>
    have hcharged := hm.boost_charge htimely hc
    refine hm.of_cases (hset hcharged (hcharged (slot c))) fun q' r hr => ?_
    have hunder := under_of_yieldCore hc hr
    rw [hlev.gauge_yielded hroster hc]
    split
    next =>
      left
      split
      · exact htop
      · exact hm.chargeAllotment hquanta hlev htimely hc
    next hrp =>
      rcases hlev.gauge_charge hroster hc hrp with hsame | hboosted
      · exact .inr ⟨q', hunder, hsame⟩
      · exact .inl (hboosted ▸ htop)
  | @finish c p hc =>
    refine hm.of_cases (hm.boost_charge htimely hc) fun q' r hr => ?_
    obtain ⟨hrp, hunder⟩ := under_of_finish (hroster.le_one p) hc hr
    rw [gauge_finish]
    rcases hlev.gauge_charge hroster hc hrp with hsame | hboosted
    · exact .inr ⟨q', hunder, hsame⟩
    · exact .inl (hboosted ▸ htop)
  | countSwitch => exact ⟨hm.allotment, hm.boost⟩
  | @migrate b c p _ _ hs =>
    have hp := schedule_mem _ m.heap p hs
    have hremoved : ∀ q, ((m.removeReady b p).schedulers q).BoostInTime :=
      hset hm.boost (hm.boost b)
    refine hm.of_cases (hset hremoved (hremoved (slot c))) fun q' r hr => .inr ?_
    rw [hlev.gauge_migrate hp]
    rcases under_of_migrate (hroster.le_one p) hp hr with ⟨-, rfl⟩ | ⟨-, hunder⟩
    · exact ⟨b, .inl hp, rfl⟩
    · exact ⟨q', hunder, rfl⟩
  | @dispatch c p x _ _ hs =>
    refine hm.of_cases (hset hm.boost (hm.boost (slot c))) fun q' r hr => .inr ?_
    exact ⟨q', under_of_dispatch (mem_ready_of_schedule hs) hr, gauge_dispatch⟩

/-! ## Runs -/

omit [DecidableEq Q] [Fintype Q] in
/-- Queues and task levels agree. -/
structure Agrees (slot : Fin n → Q) (m : Machine MLFQScheduler Q n) : Prop where
  /-- A task in the queue of a level has that level. -/
  queue : ∀ q k, ∀ r ∈ (m.schedulers q).queues.getD k [], (m.heap r).currentQueue = k
  /-- The level of a task that is ready or running exists. -/
  level : ∀ q r, Under slot m q r →
    0 ≤ (m.heap r).currentQueue ∧ (m.heap r).currentQueue < (m.schedulers q).numLevels
  /-- It has some of its allotment left, and not more than all of it. -/
  allotment : ∀ q r, Under slot m q r → 0 < (m.heap r).allotmentRemaining ∧
    (m.heap r).allotmentRemaining ≤ (m.schedulers q).allotmentForLevel (m.heap r).currentQueue
  /-- No boost is overdue. -/
  boost : ∀ q, (m.schedulers q).params.enableBoost = true →
    0 < (m.schedulers q).params.boostInterval → 0 ≤ (m.schedulers q).timeSinceLastBoost ∧
      (m.schedulers q).timeSinceLastBoost < (m.schedulers q).params.boostInterval

omit [DecidableEq Q] [Fintype Q] in
theorem Regulated.agrees (hm : m.Regulated params slot) (hlev : m.Leveled params slot) :
    m.Agrees slot where
  queue := hlev.placed
  level q r hr := by
    rw [MLFQScheduler.numLevels_of_params (hlev.sameParams q)]
    exact hlev.range q r hr
  allotment q r hr := by
    rw [MLFQScheduler.allotmentForLevel_of_params (hlev.sameParams q)]
    exact hm.allotment q r hr
  boost := hm.boost

theorem agrees_of_reachable [NeZero n]
    (hquanta : ∀ config ∈ params.queueConfigs, 0 < config.timeQuantum)
    (hwork : ∀ p ∈ w.added, 0 ≤ (w.args p).executionTime)
    (h : Lts.Reachable (Step cfg slot) (init (fun _ => MLFQScheduler.new params) w) m) :
    m.Agrees slot := by
  have hempty := MLFQScheduler.readyTasks_new params
  have hparts := parts_of_reachable (fun _ => hempty) h
  have hnil : Parts w cfg slot (init (fun _ => MLFQScheduler.new params) w)
      (init (fun _ => MLFQScheduler.new params) w) := .refl
  have hlev := leveled_of_parts hnil
  have htimely : (init (fun _ => MLFQScheduler.new params) w :
      Machine MLFQScheduler Q n).Timely w := timely_of_parts (fun _ => hempty) hwork hnil
  have hregulated : (init (fun _ => MLFQScheduler.new params) w :
      Machine MLFQScheduler Q n).Regulated params slot := by
    refine ⟨fun q r hr => ?_, fun q _ hinterval => ⟨le_rfl, hinterval⟩⟩
    rcases hr with hr | ⟨c, -, hc⟩
    · rw [ready, init, hempty] at hr
      cases hr
    · cases hc
  obtain ⟨-, hlev', -, hm⟩ := Parts.invariant
    (I := fun m => m.Leveled params slot ∧ m.Timely w ∧ m.Regulated params slot)
    (fun _ => hempty) ⟨hlev, htimely, hregulated⟩
    (fun m m' hroster hm hpart => ⟨hpart.leveled hroster hm.1, hpart.timely hroster hm.2.1,
      hpart.regulated hquanta hroster hm.1 hm.2.1 hm.2.2⟩) hparts
  exact hm.agrees hlev'

end Regulated

end Machine

/-! ## The two simulators -/

/-- **Queues and task levels agree** in every state of every run of either simulator, whatever
the levels are, as long as there is one and their quanta are positive. -/
theorem levels_agree {n : ℕ} [NeZero n] (params : MLFQParams) (w : Workload)
    (hquanta : ∀ config ∈ params.queueConfigs, 0 < config.timeQuantum)
    (hwork : ∀ p ∈ w.added, 0 ≤ (w.args p).executionTime) :
    (∀ (cfg : SimConfig) (s : Simulator MLFQScheduler n),
      Lts.Reachable (Simulator.Step cfg) (Simulator.init (MLFQScheduler.new params) w) s →
      Machine.Agrees Simulator.slot s) ∧
    (∀ (balancer : LoadBalancer) (cfg : MultiConfig) (s : MultiCoreSimulator MLFQScheduler n),
      Lts.Reachable (MultiCoreSimulator.Step cfg)
        (MultiCoreSimulator.init (MLFQScheduler.new params) balancer w) s →
      Machine.Agrees MultiCoreSimulator.slot s.toMachine) := by
  constructor
  · intro cfg s hs
    have hreach := hs.simulate (f := id) fun _ _ _ => Simulator.step_machine
    exact Machine.agrees_of_reachable hquanta hwork hreach
  · intro balancer cfg s hs
    have hreach := hs.simulate (f := MultiCoreSimulator.toMachine) fun _ _ _ =>
      MultiCoreSimulator.step_machine
    exact Machine.agrees_of_reachable hquanta hwork hreach

/-- Task 1 has arrived at 5 and runs; task 0 has been demoted, and waits in the queue of level 1. -/
theorem levels_agree_waiting :
    let cfg : SimConfig := { stopTime := 50 }
    let s : Simulator MLFQScheduler 1 := Simulator.turns cfg 4
      (Simulator.init (MLFQScheduler.new {}) (.ofList [⟨0, 0, 10, 0⟩, ⟨1, 5, 10, 0⟩]))
    (s.schedulers ()).queues.getD 1 [] = [0] ∧ s.runningTasks 0 = some 1 ∧
      (s.heap 0).currentQueue = 1 ∧
      ∀ r, r = 0 ∨ r = 1 → 0 < (s.heap r).allotmentRemaining ∧
        (s.heap r).allotmentRemaining ≤ (s.schedulers ()).allotmentForLevel
          (s.heap r).currentQueue := by
  intro cfg s
  have hagrees := (levels_agree {} (.ofList [⟨0, 0, 10, 0⟩, ⟨1, 5, 10, 0⟩]) (by decide)
    (by decide)).1 cfg s (Simulator.reachable_turns cfg 4 _)
  have hqueue : (s.schedulers ()).queues.getD 1 [] = [0] := by decide +kernel
  have hready : 0 ∈ readyTasks (s.schedulers ()) := by decide +kernel
  have hrun : s.runningTasks 0 = some 1 := by decide +kernel
  refine ⟨hqueue, hrun, hagrees.queue () 1 0 ?_, fun r hr => hagrees.allotment () r ?_⟩
  · rw [hqueue]
    exact List.mem_singleton.2 rfl
  · rcases hr with rfl | rfl
    · exact .inl hready
    · exact .inr ⟨0, rfl, hrun⟩

end SchedSim
