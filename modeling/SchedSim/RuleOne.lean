import SchedSim.Interruptions
import SchedSim.Priorities
import SchedSim.WorkConserving

/-!
# Rule 1 of the feedback queue

No task holds a core while a task of a higher priority waits for it.  In the
multi-queue simulator each core has a scheduler of its own, and the rule holds in
every run.  In the single-queue simulator the cores share one, and it may fail in
two ways: `handle_arrival` preempts the *first* core that runs a task of a lower
priority than the new one, not the core that runs the lowest; and a boost lifts the
tasks that wait but not those that run.

* `MultiCoreSimulator.ruleOne_perCore` — the rule for each core of the multi-queue
  simulator.
* `Simulator.KeepsOrder` — no other core runs a task that the step ranks too low.
* `Simulator.ruleOne_sharedQueue` and `ruleOne_sharedQueue_false` — the rule for the
  single-queue simulator.
-/

namespace SchedSim

namespace Machine

variable {Q : Type} [DecidableEq Q] [Fintype Q] {n : ℕ} {m : Machine MLFQScheduler Q n}
  {e : Event n} {q : Q}

/-- A task that arrives is in no place before, and only in the queue it joins after. -/
theorem arrive_spec (he : e ∈ m.events) (harr : e.type = .arrival) (hm : m.Placed)
    (hone : ∀ r, m.places r ≤ 1) :
    ((m.pop e).enqueue q e.task).Placed ∧ (∀ r, ((m.pop e).enqueue q e.task).places r ≤ 1) ∧
      (∀ d, m.runningTasks d ≠ some e.task) ∧ ∀ b, e.task ∉ m.ready b := by
  have hzero : (m.pop e).places e.task = 0 := places_pop_arrival he harr hone
  obtain ⟨-, hready, hrun, -⟩ := places_eq_zero.1 hzero
  refine ⟨placed_enqueue (m := m.pop e) hm hready, fun r => ?_, hrun, hready⟩
  rw [places_enqueue]
  split
  next hr => rw [hr, hzero]
  next => exact places_pop_le he hone r

end Machine

namespace MultiCoreSimulator

open Machine

variable {n : ℕ} {cfg : MultiConfig} {s s' : MultiCoreSimulator MLFQScheduler n}
  {m m' m'' : Machine MLFQScheduler (Fin n) n} {c d : Fin n} {e : Event n} {p r : TaskPtr}

/-! ## What concerns one core only -/

/-- Between `m` and `m'`, nothing happens to the other cores than `c`, nor to the
levels of their tasks. -/
structure KeepsOthers (c : Fin n) (m m' : Machine MLFQScheduler (Fin n) n) : Prop where
  running : ∀ d, d ≠ c → m'.runningTasks d = m.runningTasks d
  ready : ∀ d, d ≠ c → m'.ready d = m.ready d
  level : ∀ d, d ≠ c → ∀ r, m.runningTasks d = some r ∨ r ∈ m.ready d → m'.level r = m.level r

theorem KeepsOthers.trans (h : KeepsOthers c m m') (h' : KeepsOthers c m' m'') :
    KeepsOthers c m m'' where
  running d hd := (h'.running d hd).trans (h.running d hd)
  ready d hd := (h'.ready d hd).trans (h.ready d hd)
  level d hd r hr := by
    refine (h'.level d hd r ?_).trans (h.level d hd r hr)
    rwa [h.running d hd, h.ready d hd]

/-- The order of the other cores is kept. -/
theorem KeepsOthers.ordered (h : KeepsOthers c m m') (hm : Ordered slot m) (hd : d ≠ c)
    {u : TaskPtr} (hu : m'.runningTasks d = some u) (hr : r ∈ m'.ready d) :
    m'.level u ≤ m'.level r := by
  rw [h.running d hd] at hu
  rw [h.ready d hd] at hr
  rw [h.level d hd u (.inl hu), h.level d hd r (.inr hr)]
  exact hm d u hu r hr

/-- A task that is in no place yet is queued for core `c`. -/
theorem keepsOthers_enqueue (hp : ∀ q, p ∉ m.ready q) (hrun : ∀ d, m.runningTasks d ≠ some p) :
    KeepsOthers c m (m.enqueue c p) where
  running _ _ := rfl
  ready d hd := by
    rw [enqueue, ready_setAt, if_neg hd]
  level d _ r hr := by
    refine level_enqueue_of_ne ?_
    rintro rfl
    exact hr.elim (hrun d) (hp d)

theorem keepsOthers_charge (hm : m.Placed) (hone : ∀ r, m.places r ≤ 1)
    (hc : m.runningTasks c = some p) : KeepsOthers c m (m.charge c c p) where
  running _ _ := rfl
  ready d hd := by
    rw [charge, ready]
    simp only [setAt_of_ne _ _ _ hd]
    rfl
  level d hd r hr := by
    rw [level_charge hm (not_ready_of_running (hone p) hc c)]
    have hrp : r ≠ p := by
      rintro rfl
      rcases hr with hr | hr
      · exact hd (core_unique (hone r) hr hc)
      · exact not_ready_of_running (hone r) hc d hr
    have hrc : r ∉ m.ready c := by
      intro hmem
      rcases hr with hr | hr
      · exact not_ready_of_running (hone r) hr c hmem
      · exact hd (ready_unique (hone r) hr hmem)
    rw [if_neg hrp, if_neg fun h => hrc h.2]

theorem keepsOthers_yieldCore (hm : m.Placed) (hone : ∀ r, m.places r ≤ 1)
    (hc : m.runningTasks c = some p) : KeepsOthers c m (m.yieldCore c c p) := by
  have hcharge := keepsOthers_charge hm hone hc
  refine ⟨fun d hd => ?_, fun d hd => ?_, fun d hd r hr => ?_⟩
  · rw [yieldCore_runningTasks, setAt_of_ne _ _ _ hd]
  · refine Eq.trans ?_ (hcharge.ready d hd)
    rw [yieldCore, requeue, enqueue, ready_setAt, if_neg hd]
    rfl
  · refine (level_yieldCore_of_ne ?_).trans (hcharge.level d hd r hr)
    rintro rfl
    rcases hr with hr | hr
    · exact hd (core_unique (hone r) hr hc)
    · exact not_ready_of_running (hone r) hc d hr

theorem keepsOthers_settle (hm : m.Placed) (hone : ∀ r, m.places r ≤ 1)
    (hc : m.runningTasks c = some p) : KeepsOthers c m (m.settle c c p) := by
  rw [settle_eq]
  split
  · have hcharge := keepsOthers_charge hm hone hc
    refine ⟨fun d hd => ?_, hcharge.ready, fun d hd r hr => ?_⟩
    · rw [finish_runningTasks, setAt_of_ne _ _ _ hd, charge_runningTasks]
    · exact level_finish.trans (hcharge.level d hd r hr)
  · exact keepsOthers_yieldCore hm hone hc

/-! ## One turn -/

variable [NeZero n]

/-- What the arrival of a task does before a core is given to it. -/
theorem receive_spec (he : e ∈ s.events) (harr : e.type = .arrival) (hm : s.Placed)
    (hone : ∀ r, s.places r ≤ 1) :
    (s.receive e).Placed ∧ (∀ r, (s.receive e).places r ≤ 1) ∧
      KeepsOthers s.target (s.pop e) (s.receive e).toMachine ∧
      (∀ d, s.runningTasks d ≠ some e.task) ∧ ∀ d, e.task ∉ s.ready d := by
  obtain ⟨hplaced, hunique, hrun, hready⟩ := arrive_spec (q := s.target) he harr hm hone
  exact ⟨hplaced, hunique, keepsOthers_enqueue hready hrun, hrun, hready⟩

/-- Every turn keeps the order of each core. -/
theorem Turn.ordered (h : Turn cfg s e s') (he : e ∈ s.events) (hm : s.Placed)
    (hone : ∀ r, s.places r ≤ 1) (hord : Ordered slot s.toMachine) :
    s'.Placed ∧ Ordered slot s'.toMachine := by
  have hpord : Ordered slot (s.pop e) := hord
  cases h with
  | skip => exact ⟨hm, hord⟩
  | @queued p harr hrun hwait =>
    obtain ⟨hplaced, -, hkeeps, hnew, hready⟩ := receive_spec he harr hm hone
    refine ⟨hplaced, fun d u hu r hr => ?_⟩
    by_cases hd : d = s.target
    · subst hd
      obtain rfl : p = u := Option.some.inj (hrun.symm.trans hu)
      rcases mem_ready_enqueue (m := s.pop e).1 hr with ⟨-, rfl⟩ | hr
      · exact not_lt.1 (of_decide_eq_false hwait)
      · -- an old task of the core
        have hp : p ≠ e.task := fun heq => hnew _ (heq ▸ hrun)
        have hre : r ≠ e.task := fun heq => hready _ (heq ▸ hr)
        have hlevel : ∀ t, t ≠ e.task → (s.receive e).level t = s.level t := fun t ht =>
          level_enqueue_of_ne (m := s.pop e) ht
        rw [hlevel p hp, hlevel r hre]
        exact hord s.target p hrun r hr
    · exact hkeeps.ordered hpord hd hu hr
  | woken harr hrun hres =>
    obtain ⟨hplaced, hunique, hkeeps, -⟩ := receive_spec he harr hm hone
    exact hres.next.ordered hplaced hunique hrun fun d hd u hu r hr _ =>
      hkeeps.ordered hpord hd hu hr
  | @preempted p _ harr hrun _ hres =>
    obtain ⟨hplaced, hunique, hkeeps, -⟩ := receive_spec he harr hm hone
    have hcur : (s.receive e).runningTasks s.target = some p := hrun
    have hyield := keepsOthers_yieldCore hplaced hunique hcur
    have hidle : ((s.receive e).displace s.target p).runningTasks s.target = none :=
      setAt_self s.runningTasks s.target none
    have hplaced' : ((s.receive e).displace s.target p).Placed :=
      placed_yieldCore hplaced hunique hcur
    have hunique' : ∀ r, ((s.receive e).displace s.target p).places r ≤ 1 := fun r =>
      (places_countSwitch.trans (places_yieldCore hcur)).trans_le (hunique r)
    have hkeeps' : KeepsOthers s.target (s.pop e) ((s.receive e).displace s.target p).toMachine :=
      hkeeps.trans ⟨hyield.running, hyield.ready, hyield.level⟩
    exact hres.next.ordered hplaced' hunique' hidle fun d hd u hu r hr _ =>
      hkeeps'.ordered hpord hd hu hr
  | expired hts hrun hres =>
    have hpop := places_pop_le he hone
    have hcur : (s.pop e).runningTasks e.coreId = some e.task := hrun
    have hkeeps : KeepsOthers e.coreId (s.pop e) (s.expire e).toMachine :=
      keepsOthers_settle (m := s.pop e) hm hpop hcur
    have hidle : (s.expire e).runningTasks e.coreId = none := by
      show ((s.pop e).settle e.coreId e.coreId e.task).runningTasks e.coreId = none
      rw [settle_runningTasks, setAt_self]
    have hplaced : (s.expire e).Placed := placed_settle (m := s.pop e) hm hpop hcur
    have hunique : ∀ r, (s.expire e).places r ≤ 1 := fun r =>
      (places_settle (m := s.pop e) hcur).trans_le (hpop r)
    exact hres.next.ordered hplaced hunique hidle fun d hd u hu r hr _ =>
      hkeeps.ordered hpord hd hu hr

theorem ordered_of_reachable {params : MLFQParams} {balancer : LoadBalancer} {w : Workload}
    (h : Lts.Reachable (Step cfg) (init (MLFQScheduler.new params) balancer w) s) :
    s.Placed ∧ Ordered slot s.toMachine := by
  have hempty := MLFQScheduler.readyTasks_new params
  refine h.induction (I := fun s : MultiCoreSimulator MLFQScheduler n =>
    s.Placed ∧ Ordered slot s.toMachine) ⟨fun _ => MLFQScheduler.placed_of_empty hempty, ?_⟩ ?_
  · intro c p hc
    cases hc
  · intro s e t hs hm hstep
    have hplaces := places_le_count (fun _ => hempty) (hs.simulate (f := toMachine) fun _ _ _ =>
      step_machine)
    have hone : ∀ r, s.places r ≤ 1 := fun r =>
      (hplaces r).trans (List.nodup_iff_count_le_one.1 w.nodup r)
    exact (turn_of_step hstep).ordered hstep.1.1 hm.1 hone hm.2

/-- **Rule 1 on each core**: in every run of the multi-queue simulator, no task of
a core's queue has a higher priority than the task on the core. -/
theorem ruleOne_perCore (params : MLFQParams) (balancer : LoadBalancer) (w : Workload)
    (cfg : MultiConfig) (s : MultiCoreSimulator MLFQScheduler n)
    (hs : Lts.Reachable (Step cfg) (init (MLFQScheduler.new params) balancer w) s) (c : Fin n)
    (p r : TaskPtr) (hc : s.runningTasks c = some p) (hr : r ∈ readyTasks (s.schedulers c)) :
    (s.heap p).currentQueue ≤ (s.heap r).currentQueue :=
  (ordered_of_reachable hs).2 c p hc r hr

/-- Task 1 has preempted task 0, which is back in the queue one level down. -/
theorem ruleOne_perCore_pair :
    let cfg : MultiConfig := { stopTime := 50 }
    let s := MultiCoreSimulator.turns (n := 1) cfg 4 (init (MLFQScheduler.new {}) .leastLoaded
      (.ofList [⟨0, 0, 10, 0⟩, ⟨1, 5, 10, 0⟩]))
    s.runningTasks 0 = some 1 ∧ 0 ∈ readyTasks (s.schedulers 0) ∧
      (s.heap 1).currentQueue ≤ (s.heap 0).currentQueue := by
  intro cfg s
  have hrun : s.runningTasks 0 = some 1 := by decide +kernel
  have hready : 0 ∈ readyTasks (s.schedulers 0) := by decide +kernel
  exact ⟨hrun, hready, ruleOne_perCore {} .leastLoaded _ cfg s
    (reachable_turns _ 4 _) 0 1 0 hrun hready⟩

end MultiCoreSimulator

/-! ## One scheduler for all cores -/

namespace Simulator

open Machine

variable {n : ℕ} {cfg : SimConfig} {s s' : Simulator MLFQScheduler n} {c d : Fin n} {e : Event n}
  {p r u : TaskPtr}

/-- The core whose task the event takes off. -/
def leaving (s : Simulator MLFQScheduler n) (e : Event n) : Option (Fin n) :=
  match e.type with
  | .arrival => s.victim e
  | .timeSlice => if s.runningTasks e.coreId = some e.task then some e.coreId else none
  | .completion | .priorityBoost => none

/-- How many tasks wait when the one on the core is charged. -/
def waitingAt (s : Simulator MLFQScheduler n) (e : Event n) : ℕ :=
  (s.ready ()).length + if e.type = .arrival then 1 else 0

/-- The task that leaves its core goes back to the queue. -/
def Returns (s : Simulator MLFQScheduler n) (e : Event n) (c : Fin n) (p : TaskPtr) : Prop :=
  e.type = .arrival ∨ ((s.heap p).execute (e.time - s.lastEventTime c)).isCompleted = false

/-- The event does not rank a task that waits above one that runs on.  A task that
is preempted, or that comes back when the others are boosted, keeps its level or is
demoted by one; a boost puts the other tasks at the top. -/
def KeepsOrder (s : Simulator MLFQScheduler n) (e : Event n) : Prop :=
  ∀ c p, s.leaving e = some c → s.runningTasks c = some p →
    ∀ d u, d ≠ c → s.runningTasks d = some u →
      ((e.type = .arrival ∨ (s.schedulers ()).BoostDue (e.time - s.lastEventTime c)) →
        s.Returns e c p → s.waitingAt e ≠ 0 →
        s.level u ≤ (s.schedulers ()).returnLevel (e.time - s.lastEventTime c) (s.heap p)) ∧
      ((s.schedulers ()).BoostDue (e.time - s.lastEventTime c) → 2 ≤ s.waitingAt e →
        s.level u ≤ 0)

section Charge

variable {m m' : Machine MLFQScheduler Unit n} {q : Unit}

theorem level_charge_of_running (hm : m.Placed) (hone : ∀ r, m.places r ≤ 1)
    (hc : m.runningTasks c = some p) (hd : d ≠ c) (hu : m.runningTasks d = some u) :
    u ≠ p ∧ (m.charge q c p).level u = m.level u := by
  have hup : u ≠ p := by
    rintro rfl
    exact hd (core_unique (hone u) hu hc)
  refine ⟨hup, ?_⟩
  rw [level_charge hm (not_ready_of_running (hone p) hc q), if_neg hup,
    if_neg fun h => not_ready_of_running (hone u) hu q h.2]

theorem level_charge_of_ready (hm : m.Placed) (hone : ∀ r, m.places r ≤ 1)
    (hc : m.runningTasks c = some p) (hr : r ∈ m.ready q) :
    r ≠ p ∧ (m.charge q c p).level r
      = if (m.schedulers q).BoostDue (m.elapsed c) then 0 else m.level r := by
  have hrp : r ≠ p := by
    rintro rfl
    exact not_ready_of_running (hone r) hc q hr
  refine ⟨hrp, ?_⟩
  rw [level_charge hm (not_ready_of_running (hone p) hc q), if_neg hrp]
  simp only [hr, and_true]

theorem two_le_length {l : List TaskPtr} (hp : p ∈ l) (hr : r ∈ l) (hne : p ≠ r) :
    2 ≤ l.length := by
  cases l with
  | nil => cases hp
  | cons a l =>
    cases l with
    | nil => exact absurd ((List.mem_singleton.1 hp).trans (List.mem_singleton.1 hr).symm) hne
    | cons => simp

/-- A task that has been charged leaves core `c`, and the queue is asked for the
next one: when does the task `u` of another core have no lower priority than the
task `r` that waits on?  The scheduled task is of the lowest level, so one of the
two is compared with it, or with `r`. -/
theorem level_le_of_unscheduled {b : Prop} [Decidable b] {a : Option TaskPtr}
    (hm : m'.Placed) (hready : ∀ r ∈ m'.ready q, r = p ∨ r ∈ m.ready q)
    (hlevel : ∀ r ∈ m.ready q, m'.level r = if b then 0 else m.level r)
    (hold : ∀ r ∈ m.ready q, a ≠ some r → m.level u ≤ m.level r)
    (hback : ∀ r ∈ m.ready q, a = some r ∨ b → p ∈ m'.ready q → m.level u ≤ m'.level p)
    (hboost : b → 2 ≤ (m.ready q).length → m.level u ≤ 0)
    (hr : r ∈ m'.ready q) (hs : (schedule (m'.schedulers q) m'.heap).task ≠ some r) :
    m.level u ≤ m'.level r := by
  cases hbest : schedule (m'.schedulers q) m'.heap with
  | mk task x =>
    rw [hbest] at hs
    cases task with
    | none =>
      have hnil : m'.ready q = [] := schedule_none (m'.schedulers q) m'.heap (by rw [hbest])
      rw [hnil] at hr
      cases hr
    | some best =>
      have hmem : best ∈ m'.ready q := schedule_mem _ m'.heap best (by rw [hbest])
      have hle : m'.level best ≤ m'.level r :=
        MLFQScheduler.level_le_of_schedule (hm q) hbest hr
      have hne : best ≠ r := fun heq => hs (congrArg some heq)
      -- a task that waited before, is not the a one and was not boosted
      have hkept : ∀ t ∈ m.ready q, a ≠ some t → ¬ b → m.level u ≤ m'.level t := by
        intro t ht hnew hno
        rw [hlevel t ht, if_neg hno]
        exact hold t ht hnew
      rcases hready best hmem with rfl | hbest'
      · have hr' : r ∈ m.ready q := (hready r hr).resolve_left hne.symm
        by_cases hspecial : a = some r ∨ b
        · exact (hback r hr' hspecial hmem).trans hle
        · rw [not_or] at hspecial
          exact hkept r hr' hspecial.1 hspecial.2
      · rcases hready r hr with rfl | hr'
        · by_cases hspecial : a = some best ∨ b
          · exact hback best hbest' hspecial hr
          · rw [not_or] at hspecial
            exact (hkept best hbest' hspecial.1 hspecial.2).trans hle
        · by_cases hb : b
          · rw [hlevel r hr', if_pos hb]
            exact hboost hb (two_le_length hbest' hr' hne)
          · by_cases hnew : a = some r
            · refine (hkept best hbest' (fun h => hne ?_) hb).trans hle
              exact Option.some.inj (h.symm.trans hnew)
            · exact hkept r hr' hnew hb

end Charge

/-! ## One turn -/

/-- What the arrival of a task does before a core is given to it. -/
theorem receive_spec (he : e ∈ s.events) (harr : e.type = .arrival) (hm : s.Placed)
    (hone : ∀ r, s.places r ≤ 1) :
    (s.receive e).Placed ∧ (∀ r, (s.receive e).places r ≤ 1) ∧
      (∀ d, s.runningTasks d ≠ some e.task) ∧ e.task ∉ s.ready () := by
  obtain ⟨hplaced, hunique, hrun, hready⟩ := arrive_spec (q := ()) he harr hm hone
  exact ⟨hplaced, hunique, hrun, hready ()⟩

theorem level_receive_of_ne (hr : r ≠ e.task) : (s.receive e).level r = s.level r :=
  level_enqueue_of_ne (m := s.pop e) hr

theorem mem_ready_receive (hr : r ∈ (s.receive e).ready ()) : r = e.task ∨ r ∈ s.ready () :=
  (mem_ready_enqueue (m := s.pop e).1 hr).imp_left (·.2)

/-- A task that should take no core has no higher priority than those that run. -/
theorem ordered_queued (he : e ∈ s.events) (harr : e.type = .arrival)
    (hwait : ∀ c, s.shouldTake e c = false) (hm : s.Placed) (hone : ∀ r, s.places r ≤ 1)
    (hord : Ordered slot s) : (s.receive e).Placed ∧ Ordered slot (s.receive e) := by
  obtain ⟨hplaced, -, hnew, hready⟩ := receive_spec he harr hm hone
  refine ⟨hplaced, fun d u hu r hr => ?_⟩
  have hrun : s.runningTasks d = some u := hu
  have hue : u ≠ e.task := fun heq => hnew d (heq ▸ hrun)
  rcases mem_ready_receive hr with rfl | hr
  · have hwait := hwait d
    rw [shouldTake, hrun] at hwait
    exact not_lt.1 (of_decide_eq_false hwait)
  · have hre : r ≠ e.task := fun heq => hready (heq ▸ hr)
    rw [level_receive_of_ne hue, level_receive_of_ne hre]
    exact hord d u hrun r hr

/-- Where a core is idle the queue is empty, and the new task gets the core. -/
theorem ordered_woken (he : e ∈ s.events) (harr : e.type = .arrival)
    (hrun : s.runningTasks c = none) (hn : Next cfg slot c (s.receive e) s')
    (hempty : IdleEmpty slot s) (hm : s.Placed) (hone : ∀ r, s.places r ≤ 1) :
    s'.Placed ∧ Ordered slot s' := by
  obtain ⟨hplaced, hunique, hnew, hready⟩ := receive_spec he harr hm hone
  refine hn.ordered hplaced hunique hrun fun d hd u hu r hr hs => ?_
  -- an idle core means an empty queue, so the new task is alone and is dispatched
  have honly : ∀ t ∈ (s.receive e).ready (), t = e.task := by
    intro t ht
    refine (mem_ready_receive ht).resolve_right fun ht => ?_
    have hnil : s.ready () = [] := hempty c hrun
    rw [hnil] at ht
    cases ht
  exfalso
  cases hbest : (schedule ((s.receive e).schedulers ()) (s.receive e).heap).task with
  | none =>
    have hnil : (s.receive e).ready () = [] := schedule_none _ _ hbest
    have hr' : r ∈ (s.receive e).ready () := hr
    rw [hnil] at hr'
    cases hr'
  | some best =>
    refine hs (hbest.trans (congrArg some ?_))
    exact (honly best (schedule_mem _ _ best hbest)).trans (honly r hr).symm

/-- The task that is preempted goes back to the queue, and the new one is there too. -/
theorem ordered_preempted (he : e ∈ s.events) (hkeeps : s.KeepsOrder e)
    (harr : e.type = .arrival) (hbusy : ∀ c, s.runningTasks c ≠ none)
    (hrun : s.runningTasks c = some p)
    (hfind : (List.finRange n).find? (s.shouldTake e) = some c)
    (hn : Next cfg slot c ((s.receive e).displace c p) s') (hm : s.Placed)
    (hone : ∀ r, s.places r ≤ 1) (hord : Ordered slot s) : s'.Placed ∧ Ordered slot s' := by
  obtain ⟨hplaced, hunique, hnew, hready⟩ := receive_spec he harr hm hone
  have hcur : (s.receive e).runningTasks c = some p := hrun
  have hplaced' : ((s.receive e).displace c p).Placed := placed_yieldCore hplaced hunique hcur
  have hunique' : ∀ r, ((s.receive e).displace c p).places r ≤ 1 := fun r =>
    (places_countSwitch.trans (places_yieldCore hcur)).trans_le (hunique r)
  have hidle : ((s.receive e).displace c p).runningTasks c = none :=
    setAt_self s.runningTasks c none
  refine hn.ordered hplaced' hunique' hidle fun d hd u hu r hr hs => ?_
  have hud : s.runningTasks d = some u := (setAt_of_ne s.runningTasks c none hd).symm.trans hu
  have hue : u ≠ e.task := fun heq => hnew d (heq ▸ hud)
  have hpe : p ≠ e.task := fun heq => hnew c (heq ▸ hrun)
  obtain ⟨hup, hu'⟩ := level_charge_of_running (q := ()) hplaced hunique hcur hd hud
  have hlu : ((s.receive e).displace c p).level u = (s.receive e).level u :=
    (level_yieldCore_of_ne hup).trans hu'
  have hleaving : s.leaving e = some c := by
    simp only [leaving, harr]
    rw [Simulator.victim, if_pos ⟨harr, hbusy⟩, hfind]
  have hlen : ((s.receive e).ready ()).length = s.waitingAt e := by
    rw [waitingAt, if_pos harr]
    exact length_ready_enqueue (m := s.pop e)
  obtain ⟨hreturn, hboost⟩ := hkeeps c p hleaving hrun d u hd hud
  rw [hlu]
  refine level_le_of_unscheduled (m := s.receive e) (p := p) (a := some e.task)
    (b := (s.schedulers ()).BoostDue (e.time - s.lastEventTime c)) hplaced'
    (fun r hr => (mem_ready_yieldCore.1 hr).imp_left (·.2)) (fun r hr => ?_) (fun r hr hne => ?_)
    (fun r hr _ _ => ?_) (fun hb hw => ?_) hr hs
  · obtain ⟨hrp, hlevel⟩ := level_charge_of_ready hplaced hunique hcur hr
    exact (level_yieldCore_of_ne hrp).trans hlevel
  · have hre : r ≠ e.task := fun heq => hne (congrArg some heq.symm)
    rw [level_receive_of_ne hue, level_receive_of_ne hre]
    exact hord d u hud r ((mem_ready_receive hr).resolve_left hre)
  · have hself : ((s.receive e).displace c p).level p
        = (s.schedulers ()).returnLevel (e.time - s.lastEventTime c) ((s.receive e).heap p) :=
      level_yieldCore_self hplaced (not_ready_of_running (hunique p) hcur ())
    rw [hself, show (s.receive e).heap p = s.heap p from task_enqueue_of_ne (m := s.pop e) hpe,
      level_receive_of_ne hue]
    refine hreturn (.inl harr) (.inl harr) ?_
    rw [← hlen]
    exact (List.length_pos_of_mem hr).ne'
  · rw [level_receive_of_ne hue]
    exact hboost hb (hlen ▸ hw)

/-- The task whose slice is over goes back to the queue, unless it is done. -/
theorem ordered_expired (he : e ∈ s.events) (hkeeps : s.KeepsOrder e) (hts : e.type = .timeSlice)
    (hrun : s.runningTasks e.coreId = some e.task)
    (hn : Next cfg slot e.coreId ((s.pop e).settle () e.coreId e.task) s') (hm : s.Placed)
    (hone : ∀ r, s.places r ≤ 1) (hord : Ordered slot s) : s'.Placed ∧ Ordered slot s' := by
  have hpop := places_pop_le he hone
  have hcur : (s.pop e).runningTasks e.coreId = some e.task := hrun
  have hplaced' := placed_settle (m := s.pop e) (q := ()) hm hpop hcur
  have hunique' : ∀ r, ((s.pop e).settle () e.coreId e.task).places r ≤ 1 := fun r =>
    (places_settle (m := s.pop e) hcur).trans_le (hpop r)
  have hidle : ((s.pop e).settle () e.coreId e.task).runningTasks e.coreId = none := by
    rw [settle_runningTasks, setAt_self]
  refine hn.ordered hplaced' hunique' hidle fun d hd u hu r hr hs => ?_
  rw [settle_runningTasks, setAt_of_ne _ _ _ hd] at hu
  have hud : s.runningTasks d = some u := hu
  obtain ⟨hup, hu'⟩ := level_charge_of_running (m := s.pop e) (q := ()) hm hpop hcur hd hud
  have hlu : ((s.pop e).settle () e.coreId e.task).level u = s.level u :=
    (level_settle_of_ne hup).trans hu'
  have hleaving : s.leaving e = some e.coreId := by
    simp only [leaving, hts]
    exact if_pos hrun
  have hlen : (s.ready ()).length = s.waitingAt e := by
    rw [waitingAt, hts]
    rfl
  obtain ⟨hreturn, hboost⟩ := hkeeps e.coreId e.task hleaving hrun d u hd hud
  rw [hlu]
  refine level_le_of_unscheduled (m := s.pop e) (p := e.task) (u := u) (a := none)
    (b := (s.schedulers ()).BoostDue (e.time - s.lastEventTime e.coreId)) hplaced'
    (fun r hr => (mem_ready_settle hr).imp_left (·.2)) (fun r hr => ?_) (fun r hr _ => ?_)
    (fun r hr hb hback => ?_) (fun hb hw => ?_) hr hs
  · obtain ⟨hrp, hlevel⟩ := level_charge_of_ready (m := s.pop e) hm hpop hcur hr
    exact (level_settle_of_ne hrp).trans hlevel
  · exact hord d u hud r hr
  · have hno := not_ready_of_running (hpop e.task) hcur ()
    -- a task that is done does not come back
    have hdone : (((s.pop e).charge () e.coreId e.task).heap e.task).isCompleted = false := by
      by_contra hdone
      rw [settle_eq, if_pos (by simpa using hdone), ready_finish, mem_ready_charge] at hback
      exact hno hback
    have hself : ((s.pop e).settle () e.coreId e.task).level e.task
        = (s.schedulers ()).returnLevel (e.time - s.lastEventTime e.coreId) (s.heap e.task) := by
      rw [settle_eq, hdone]
      exact level_yieldCore_self (m := s.pop e) hm hno
    have hreturns : s.Returns e e.coreId e.task := by
      have hcharge := Task.congrLedger Task.remainingTime (ledger_charge (m := s.pop e) (q := ())
        (c := e.coreId) (p := e.task) (r := e.task))
      rw [if_pos rfl] at hcharge
      exact .inr ((Task.isCompleted_congr hcharge).symm.trans hdone)
    rw [hself]
    exact hreturn (.inr (hb.resolve_left (by simp))) hreturns
      (hlen ▸ (List.length_pos_of_mem hr).ne')
  · exact hboost hb (hlen ▸ hw)

/-- A turn keeps the order, if the event does. -/
theorem Turn.ordered (h : Turn cfg s e s') (he : e ∈ s.events) (hkeeps : s.KeepsOrder e)
    (hempty : IdleEmpty slot s) (hm : s.Placed) (hone : ∀ r, s.places r ≤ 1)
    (hord : Ordered slot s) : s'.Placed ∧ Ordered slot s' := by
  cases h with
  | skip => exact ⟨hm, hord⟩
  | queued harr _ hwait => exact ordered_queued he harr hwait hm hone hord
  | woken harr hrun hn => exact ordered_woken he harr hrun hn hempty hm hone
  | preempted harr hbusy hrun hfind hn =>
    exact ordered_preempted he hkeeps harr hbusy hrun hfind hn hm hone hord
  | expired hts hrun hn => exact ordered_expired he hkeeps hts hrun hn hm hone hord

/-! ## Runs -/

theorem ordered_of_reachable [NeZero n] {params : MLFQParams} {w : Workload}
    (h : Lts.Reachable (fun s e s' => Step cfg s e s' ∧ s.KeepsOrder e)
      (init (MLFQScheduler.new params) w) s) : s.Placed ∧ Ordered slot s := by
  have hempty := MLFQScheduler.readyTasks_new params
  refine h.induction (I := fun s : Simulator MLFQScheduler n => s.Placed ∧ Ordered slot s)
    ⟨fun _ => MLFQScheduler.placed_of_empty hempty, ?_⟩ ?_
  · intro c p hc
    cases hc
  · intro s e t hs hm hstep
    have hmachine := hs.simulate (f := id) fun _ _ _ h => step_machine h.1
    have hone : ∀ r, s.places r ≤ 1 := fun r =>
      (places_le_count (fun _ => hempty) hmachine r).trans (List.nodup_iff_count_le_one.1 w.nodup r)
    exact (turn_of_step hstep.1).ordered hstep.1.1.1 hstep.2
      (idleEmpty_of_reachable (fun _ => hempty) hmachine) hm.1 hone hm.2

/-- **Rule 1 on a shared queue**: in every run of the single-queue simulator whose
events keep the order, no task that waits has a higher priority than one that runs. -/
theorem ruleOne_sharedQueue [NeZero n] (params : MLFQParams) (w : Workload) (cfg : SimConfig)
    (s : Simulator MLFQScheduler n)
    (hs : Lts.Reachable (fun s e s' => Step cfg s e s' ∧ s.KeepsOrder e)
      (init (MLFQScheduler.new params) w) s) (c : Fin n) (p r : TaskPtr)
    (hc : s.runningTasks c = some p) (hr : r ∈ readyTasks (s.schedulers ())) :
    (s.heap p).currentQueue ≤ (s.heap r).currentQueue :=
  (ordered_of_reachable hs).2 c p hc r hr

instance (s : Simulator MLFQScheduler n) (e : Event n) (c : Fin n) (p : TaskPtr) :
    Decidable (s.Returns e c p) := inferInstanceAs (Decidable (_ ∨ _))

instance (s : Simulator MLFQScheduler n) (e : Event n) : Decidable (s.KeepsOrder e) :=
  decidable_of_iff (∀ c, s.leaving e = some c → ∀ p ∈ s.runningTasks c,
      ∀ d, d ≠ c → ∀ u ∈ s.runningTasks d,
      ((e.type = .arrival ∨ (s.schedulers ()).BoostDue (e.time - s.lastEventTime c)) →
        s.Returns e c p → s.waitingAt e ≠ 0 →
        s.level u ≤ (s.schedulers ()).returnLevel (e.time - s.lastEventTime c) (s.heap p)) ∧
      ((s.schedulers ()).BoostDue (e.time - s.lastEventTime c) → 2 ≤ s.waitingAt e →
        s.level u ≤ 0))
    ⟨fun h c p hc hp d u hd hu => h c hc p hp d hd u hu,
      fun h c hc p hp d hd u hu => h c p hc hp d u hd hu⟩

/-- At 13 core 0 runs task 0 on level 2 and core 1 runs task 2 on level 1.  Task 3 preempts the
first of the two, and none that runs is on a lower level than task 0, which waits. -/
theorem ruleOne_sharedQueue_preempted :
    let cfg : SimConfig := { stopTime := 50 }
    let s := turns (n := 2) cfg 11 (init (MLFQScheduler.new {})
      (.ofList [⟨0, 0, 100, 0⟩, ⟨1, 0, 1, 0⟩, ⟨2, 8, 100, 0⟩, ⟨3, 13, 10, 0⟩]))
    s.level 3 = 0 ∧ s.level 2 = 1 ∧ s.level 0 = 2 ∧
      (s.heap 3).currentQueue ≤ (s.heap 0).currentQueue ∧
      (s.heap 2).currentQueue ≤ (s.heap 0).currentQueue := by
  intro cfg s
  have hs := reachable_turns_of (P := fun s e => s.KeepsOrder e) cfg 11 (init (n := 2)
    (MLFQScheduler.new {}) (.ofList [⟨0, 0, 100, 0⟩, ⟨1, 0, 1, 0⟩, ⟨2, 8, 100, 0⟩, ⟨3, 13, 10, 0⟩]))
    (by decide +kernel)
  refine ⟨?_, ?_, ?_, ruleOne_sharedQueue {} _ cfg s hs 0 3 0 ?_ ?_,
    ruleOne_sharedQueue {} _ cfg s hs 1 2 0 ?_ ?_⟩ <;> decide +kernel

/-- **Otherwise it may fail.**  At 13 core 0 runs task 2 on level 1 and core 1 runs
task 1 on level 2.  Task 3 arrives on level 0 and preempts the first of the two, and
task 2 waits for the second. -/
theorem ruleOne_sharedQueue_false :
    let cfg : SimConfig := { stopTime := 50 }
    let w := Workload.ofList [⟨0, 0, 1, 0⟩, ⟨1, 0, 100, 0⟩, ⟨2, 8, 100, 0⟩, ⟨3, 13, 10, 0⟩]
    ¬ ∀ s : Simulator MLFQScheduler 2, Lts.Reachable (Step cfg) (init (MLFQScheduler.new {}) w) s →
      ∀ c p r, s.runningTasks c = some p → r ∈ readyTasks (s.schedulers ()) →
      (s.heap p).currentQueue ≤ (s.heap r).currentQueue := by
  intro cfg w h
  have := h _ (reachable_turns cfg 11 _) 1 1 2 (by decide +kernel) (by decide +kernel)
  exact absurd this (by decide +kernel)

end Simulator

end SchedSim
