import SchedSim.Allotments

/-!
# Whom a boost misses

A boost moves the tasks in the queues to the top.  The task that is being charged is in no queue
then, and neither are those on other cores.

* `Machine.Lifted` — every task of a scheduler is at the top.
* `Simulator.BoostReaches`, `MultiCoreSimulator.BoostReaches` — the tasks a boost misses are at the
  top anyway.
* `Outcome.lifted_afterCharge` — when a boost has lifted everyone by the time `dispatch_next` is
  called.
* `boost_liftsAll` — the boosts of a run lift everyone when they reach everyone, and only then.
-/

namespace SchedSim

namespace MLFQScheduler

variable {s : MLFQScheduler} {t : Task} {x : ℚ}

/-- When the task is charged and goes back to the queue, it is at the top: it stays there, or it
is taken for a new task. -/
def KeepsTop (s : MLFQScheduler) (t : Task) (x : ℚ) : Prop :=
  t.startTime < 0 ∨ (t.currentQueue = 0 ∧ (x < t.allotmentRemaining ∨ s.numLevels = 1))

instance : Decidable (s.KeepsTop t x) := inferInstanceAs (Decidable (_ ∨ _))

/-- A task that is charged is at the top afterwards if it was and is not demoted. -/
theorem level_chargeAllotment_eq_zero (hlow : 0 ≤ t.currentQueue) :
    (s.chargeAllotment x t).currentQueue = 0 ↔
      t.currentQueue = 0 ∧ (x < t.allotmentRemaining ∨ s.numLevels = 1) := by
  have hpos := s.numLevels_pos
  have hlevel : (s.chargeAllotment x t).currentQueue = _ :=
    congrArg Prod.fst (s.gauge_chargeAllotment x t)
  rw [hlevel]
  by_cases hout : t.allotmentRemaining ≤ x
  · rw [if_pos hout]
    simp only [not_lt.2 hout, false_or]
    split <;> omega
  · rw [if_neg hout]
    simp only [not_le.1 hout, true_or, and_true]

end MLFQScheduler

namespace Machine

open MLFQScheduler (BoostDue)

variable {Q : Type} [DecidableEq Q] [Fintype Q] {n : ℕ} {m m' m₀ m₁ : Machine MLFQScheduler Q n}
  {q b : Q} {c d : Fin n} {p r u : TaskPtr} {e : Event n} {cfg : SimConfig} {slot : Fin n → Q}
  {w : Workload} {params : MLFQParams}

omit [DecidableEq Q] [Fintype Q] in
/-- Every task of the scheduler, ready or running, is at the top. -/
def Lifted (slot : Fin n → Q) (m : Machine MLFQScheduler Q n) (q : Q) : Prop :=
  ∀ r, Under slot m q r → (m.heap r).currentQueue = 0

/-! ## Before `dispatch_next` -/

/-- **A boost has lifted everyone** by the time `dispatch_next` is called if the charged task has
kept the top, and the tasks on the other cores of the scheduler are there. -/
theorem Outcome.lifted_afterCharge (h : Outcome cfg slot m e (some (c, m₀)) m')
    (hm₀ : m₀.Leveled params slot) (hroster : m₀.Roster w) (hc : m.runningTasks c = some p)
    (hdue : (m₀.schedulers (slot c)).BoostDue (m₀.elapsed c)) :
    Lifted slot (m₀.afterCharge slot e c p) (slot c) ↔
      (m.GoesBack e c p → (m₀.schedulers (slot c)).KeepsTop (m.heap p) (m₀.elapsed c)) ∧
      ∀ d u, d ≠ c → slot d = slot c → m.runningTasks d = some u → m.level u = 0 := by
  obtain ⟨hc₀, hsame, -⟩ := h.task_charged hroster hc
  have hlow := (hm₀.range (slot c) p (.inr ⟨c, rfl, hc₀⟩)).1
  rw [level, hsame] at hlow
  have hself : (m₀.afterCharge slot e c p).level p
      = if (m.heap p).startTime < 0 ∧ m.GoesBack e c p then 0
        else ((m₀.schedulers (slot c)).chargeAllotment (m₀.elapsed c) (m.heap p)).currentQueue := by
    have hgauge := h.gauge_afterCharge (r := p) hm₀ hroster hc
    rw [if_pos rfl] at hgauge
    refine (congrArg Prod.fst hgauge).trans ?_
    split <;> rfl
  have hkeeps : m.GoesBack e c p → ((m₀.afterCharge slot e c p).level p = 0 ↔
      (m₀.schedulers (slot c)).KeepsTop (m.heap p) (m₀.elapsed c)) := by
    intro hback
    rw [hself]
    by_cases hneg : (m.heap p).startTime < 0
    · rw [if_pos ⟨hneg, hback⟩]
      exact iff_of_true rfl (.inl hneg)
    · rw [if_neg fun h => hneg h.1,
        MLFQScheduler.level_chargeAllotment_eq_zero hlow]
      exact (or_iff_right hneg).symm
  have hother : ∀ d u, d ≠ c → m.runningTasks d = some u →
      (m₀.afterCharge slot e c p).level u = m.level u := by
    intro d u hdc hd
    obtain ⟨hd₀, hsame', -⟩ := h.task_charged hroster hd
    obtain ⟨hup, hcharge⟩ := hm₀.level_charge_of_running hroster hc₀ hd₀ hdc
    have hgauge := h.gauge_afterCharge (r := u) hm₀ hroster hc
    rw [if_neg hup] at hgauge
    exact ((congrArg Prod.fst hgauge).trans hcharge).trans (congrArg Task.currentQueue hsame')
  have hboosted : ∀ r, r ∈ m₀.ready (slot c) → (m₀.afterCharge slot e c p).level r = 0 := by
    intro r hr
    have hno := not_ready_of_running (hroster.le_one p) hc₀ (slot c)
    have hrp : r ≠ p := by
      rintro rfl
      exact hno hr
    have hgauge := h.gauge_afterCharge (r := r) hm₀ hroster hc
    rw [if_neg hrp, Machine.gauge_charge hm₀.placed hno, if_neg hrp, if_pos ⟨hdue, hr⟩] at hgauge
    exact congrArg Prod.fst hgauge
  have hstill : ∀ d u, (m₀.afterCharge slot e c p).runningTasks d = some u ↔
      d ≠ c ∧ m.runningTasks d = some u := by
    intro d u
    rw [afterCharge_runningTasks, setAt_apply, h.runningTasks_charged]
    by_cases hdc : d = c
    · simp [hdc]
    · simp [hdc]
  constructor
  · intro hlifted
    refine ⟨fun hback => (hkeeps hback).1 (hlifted p (.inl ?_)), fun d u hdc hslot hd => ?_⟩
    · exact h.mem_ready_afterCharge.2 (.inl ⟨hback, rfl, rfl⟩)
    · rw [← hother d u hdc hd]
      exact hlifted u (.inr ⟨d, hslot, (hstill d u).2 ⟨hdc, hd⟩⟩)
  · rintro ⟨hback, hcores⟩ r (hr | ⟨d, hslot, hd⟩)
    · rcases h.mem_ready_afterCharge.1 hr with ⟨hgoes, -, rfl⟩ | hr
      · exact (hkeeps hgoes).2 (hback hgoes)
      · exact hboosted r hr
    · obtain ⟨hdc, hd⟩ := (hstill d r).1 hd
      exact (hother d r hdc hd).trans (hcores d r hdc hslot hd)

omit [Fintype Q] in
/-- The queue is empty after the charge if it was before, and the task does not go back. -/
theorem Outcome.ready_afterCharge_eq_nil (h : Outcome cfg slot m e (some (c, m₀)) m') :
    (m₀.afterCharge slot e c p).ready (slot c) = [] ↔
      ¬ m.GoesBack e c p ∧ m.ready (slot c) = [] := by
  simp only [List.eq_nil_iff_forall_not_mem, h.mem_ready_afterCharge, not_or]
  constructor
  · intro hall
    have hno : ¬ m.GoesBack e c p := fun hback => (hall p).1 ⟨hback, trivial, rfl⟩
    refine ⟨hno, fun u hu => (hall u).2 ?_⟩
    rw [h.eq_pop fun harr => hno (.inl harr)]
    exact hu
  · rintro ⟨hno, hall⟩ u
    refine ⟨fun hu => hno hu.1, ?_⟩
    rw [h.eq_pop fun harr => hno (.inl harr)]
    exact hall u

/-! ## After `dispatch_next` -/

section Reachable

variable [NeZero n] (hreach : Lts.Reachable (Step cfg slot)
    (init (fun _ => MLFQScheduler.new params) w) m)
  (he : m.events.IsNext e)

include hreach he

/-- The state of the charge is one a run passes through, and so is the one after it. -/
theorem Outcome.parts_of_reachable (h : Outcome cfg slot m e (some (c, m₀)) m')
    (hc : m.runningTasks c = some p) :
    Parts w cfg slot (init (fun _ => MLFQScheduler.new params) w) m₀ ∧
      Parts w cfg slot (init (fun _ => MLFQScheduler.new params) w)
        (m₀.afterCharge slot e c p) := by
  have hempty := MLFQScheduler.readyTasks_new params
  have hparts := (Machine.parts_of_reachable (fun _ => hempty) hreach).trans
    (h.parts_charged he (roster_of_reachable (fun _ => hempty) hreach)
      (unstarted_of_reachable (fun _ => hempty) hreach))
  have hroster := roster_of_parts (fun _ => hempty) hparts
  exact ⟨hparts, hparts.trans (parts_afterCharge (h.task_charged hroster hc).1)⟩

theorem Outcome.lifted_afterCharge_iff (h : Outcome cfg slot m e (some (c, m₀)) m')
    (hc : m.runningTasks c = some p) (hdue : (m₀.schedulers (slot c)).BoostDue (m₀.elapsed c)) :
    Lifted slot (m₀.afterCharge slot e c p) (slot c) ↔
      (m.GoesBack e c p → (m₀.schedulers (slot c)).KeepsTop (m.heap p) (m₀.elapsed c)) ∧
      ∀ d u, d ≠ c → slot d = slot c → m.runningTasks d = some u → m.level u = 0 := by
  have hparts := (h.parts_of_reachable hreach he hc).1
  exact h.lifted_afterCharge (leveled_of_parts hparts)
    (roster_of_parts (fun _ => MLFQScheduler.readyTasks_new params) hparts) hc hdue

/-- `dispatch_next` changes no level, so it is enough to look at the tasks it brings in. -/
theorem Outcome.lifted (h : Outcome cfg slot m e (some (c, m₀)) m')
    (hc : m.runningTasks c = some p) (hlifted : Lifted slot (m₀.afterCharge slot e c p) (slot c))
    (hnew : ∀ r, Under slot m' (slot c) r → ¬ Under slot (m₀.afterCharge slot e c p) (slot c) r →
      (m₀.afterCharge slot e c p).level r = 0) : Lifted slot m' (slot c) := by
  intro r hr
  have hm₁ := leveled_of_parts (h.parts_of_reachable hreach he hc).2
  refine (congrArg Prod.fst ((h.next hc).gauge hm₁ r)).trans ?_
  by_cases hold : Under slot (m₀.afterCharge slot e c p) (slot c) r
  · exact hlifted r hold
  · exact hnew r hr hold

/-- With distinct ids it takes nobody away. -/
theorem Outcome.lifted_before (h : Outcome cfg slot m e (some (c, m₀)) m')
    (hc : m.runningTasks c = some p) (hids : w.DistinctIds) (hlifted : Lifted slot m' (slot c)) :
    Lifted slot (m₀.afterCharge slot e c p) (slot c) := by
  intro r hr
  have hparts := (h.parts_of_reachable hreach he hc).2
  have hidle : (m₀.afterCharge slot e c p).runningTasks c = none := by
    rw [afterCharge_runningTasks, setAt_self]
  refine (congrArg Prod.fst ((h.next hc).gauge (leveled_of_parts hparts) r)).symm.trans ?_
  refine hlifted r ((h.next hc).under hidle (fun r hr u hu hid => ?_) hr)
  have hready : ∀ {u}, u ∈ (m₀.afterCharge slot e c p).ready (slot c) →
      Under slot (m₀.afterCharge slot e c p) (slot c) u := .inl
  exact eq_of_id_eq_of_parts (fun _ => MLFQScheduler.readyTasks_new params) hparts hids
    (hready hr).places_pos (hready hu).places_pos hid

end Reachable

end Machine

/-! ## The single-queue simulator -/

namespace Simulator

open Machine

variable {n : ℕ} {cfg : SimConfig} {s s' : Simulator MLFQScheduler n} {e : Event n} {w : Workload}
  {params : MLFQParams}

/-- If the event makes the scheduler boost, every task of it is at the top when the event has been
handled. -/
def BoostLifts (s : Simulator MLFQScheduler n) (e : Event n) (s' : Simulator MLFQScheduler n) :
    Prop :=
  ∀ c m₀, s.chargeCall e = some (c, m₀) → (m₀.schedulers ()).BoostDue (m₀.elapsed c) →
    Lifted slot s' ()

/-- If the event makes the scheduler boost, the task that is charged keeps the top, and so do the
tasks on the other cores. -/
def BoostReaches (s : Simulator MLFQScheduler n) (e : Event n) : Prop :=
  ∀ c m₀ p, s.chargeCall e = some (c, m₀) → s.runningTasks c = some p →
    (m₀.schedulers ()).BoostDue (m₀.elapsed c) →
    (s.GoesBack e c p → (m₀.schedulers ()).KeepsTop (s.heap p) (m₀.elapsed c)) ∧
    ∀ d u, d ≠ c → s.runningTasks d = some u → (s.heap u).currentQueue = 0

instance (s : Simulator MLFQScheduler n) (e : Event n) : Decidable (s.BoostReaches e) :=
  decidable_of_iff (∀ call ∈ s.chargeCall e, ∀ p ∈ s.runningTasks call.1,
      (call.2.schedulers ()).BoostDue (call.2.elapsed call.1) →
      (s.GoesBack e call.1 p →
        (call.2.schedulers ()).KeepsTop (s.heap p) (call.2.elapsed call.1)) ∧
      ∀ d, d ≠ call.1 → ∀ u ∈ s.runningTasks d, (s.heap u).currentQueue = 0)
    ⟨fun h c m₀ p hcall hc hdue =>
      (h (c, m₀) hcall p hc hdue).imp_right fun hcores d u hd hu => hcores d hd u hu,
    fun h call hcall p hc hdue =>
      (h call.1 call.2 p hcall hc hdue).imp_right fun hcores d hd u hu => hcores d u hd hu⟩

/-- Nobody comes to the only scheduler from another one. -/
theorem under_of_next {m₁ m' : Simulator MLFQScheduler n} {c : Fin n} {r : TaskPtr}
    (h : Next cfg slot c m₁ m') (hc : m₁.runningTasks c = none) (hr : Under slot m' () r) :
    Under slot m₁ () r := by
  cases h with
  | idle => rwa [clearCore_eq_self m₁ c hc] at hr
  | own hs => exact under_of_dispatch (mem_ready_of_schedule hs) hr
  | steal hb => exact absurd rfl hb

variable [NeZero n] (hreach : Lts.Reachable (Step cfg) (init (MLFQScheduler.new params) w) s)
  (hstep : Step cfg s e s')

include hreach hstep

theorem boostLifts_of_reaches (h : s.BoostReaches e) : s.BoostLifts e s' := by
  intro c m₀ hcall hdue
  have hmachine := hreach.simulate (f := id) fun _ _ _ => step_machine
  have houtcome := outcome_of_step hstep
  rw [hcall] at houtcome
  obtain ⟨p, hc⟩ := houtcome.running_charged
  obtain ⟨hback, hcores⟩ := h c m₀ p hcall hc hdue
  have hlifted := (houtcome.lifted_afterCharge_iff hmachine hstep.1 hc hdue).2
    ⟨hback, fun d u hd _ hu => hcores d u hd hu⟩
  have hidle : (m₀.afterCharge slot e c p).runningTasks c = none := by
    rw [afterCharge_runningTasks, setAt_self]
  refine houtcome.lifted hmachine hstep.1 hc hlifted fun r hr hno => ?_
  exact absurd (under_of_next (houtcome.next hc) hidle hr) hno

theorem boostReaches_of_lifts (hids : w.DistinctIds) (h : s.BoostLifts e s') :
    s.BoostReaches e := by
  intro c m₀ p hcall hc hdue
  have hmachine := hreach.simulate (f := id) fun _ _ _ => step_machine
  have houtcome := outcome_of_step hstep
  rw [hcall] at houtcome
  have hlifted := houtcome.lifted_before hmachine hstep.1 hc hids (h c m₀ hcall hdue)
  obtain ⟨hback, hcores⟩ := (houtcome.lifted_afterCharge_iff hmachine hstep.1 hc hdue).1 hlifted
  exact ⟨hback, fun d u hd hu => hcores d u hd rfl hu⟩

end Simulator

/-! ## The multi-queue simulator -/

namespace MultiCoreSimulator

open Machine

variable {n : ℕ} [NeZero n] {cfg : MultiConfig} {s s' : MultiCoreSimulator MLFQScheduler n}
  {e : Event n} {w : Workload} {params : MLFQParams} {balancer : LoadBalancer}
  {c b : Fin n} {m₀ m₁ : Machine MLFQScheduler (Fin n) n} {p r stolen : TaskPtr}

/-- If the event makes a scheduler boost, every task of it is at the top when the event has been
handled. -/
def BoostLifts (s : MultiCoreSimulator MLFQScheduler n) (e : Event n)
    (s' : MultiCoreSimulator MLFQScheduler n) : Prop :=
  ∀ c m₀, s.chargeCall e = some (c, m₀) → (m₀.schedulers c).BoostDue (m₀.elapsed c) →
    Lifted slot s'.toMachine c

/-- If the event makes a scheduler boost, the task that is charged keeps the top; and if it has
finished and the core steals the next one, that one is at the top. -/
def BoostReaches (cfg : MultiConfig) (s : MultiCoreSimulator MLFQScheduler n) (e : Event n) :
    Prop :=
  ∀ c m₀ p, s.chargeCall e = some (c, m₀) → s.runningTasks c = some p →
    (m₀.schedulers c).BoostDue (m₀.elapsed c) →
    (s.GoesBack e c p → (m₀.schedulers c).KeepsTop (s.heap p) (m₀.elapsed c)) ∧
    (¬ s.GoesBack e c p → readyTasks (s.schedulers c) = [] → cfg.enableWorkStealing = true →
      ∀ b stolen, s.busiestCore c = some b →
        (schedule (s.schedulers b) s.heap).task = some stolen →
        (s.heap stolen).currentQueue = 0)

/-- Whom a scheduler chooses depends on its queues only. -/
theorem schedule_task_congr {s₁ s₂ : MLFQScheduler} (h : s₁ = s₂) (h₁ h₂ : Heap) :
    (schedule s₁ h₁).task = (schedule s₂ h₂).task := by
  subst h
  exact (s₁.schedule_task h₁).trans (s₁.schedule_task h₂).symm

omit [NeZero n] in
/-- A task that waits elsewhere keeps its level when another one finishes. -/
theorem level_afterCharge_of_elsewhere
    (h : Outcome cfg.toSimConfig slot s.toMachine e (some (c, m₀)) s'.toMachine)
    (hm₀ : m₀.Leveled params slot) (hroster : m₀.Roster w) (hc : s.runningTasks c = some p)
    (hno : ¬ s.GoesBack e c p) (hb : b ≠ c) (hr : r ∈ s.ready b) :
    (m₀.afterCharge slot e c p).level r = s.level r := by
  have hna : e.type ≠ .arrival := fun harr => hno (.inl harr)
  obtain rfl := h.eq_pop hna
  have hrp : r ≠ p := by
    rintro rfl
    exact not_ready_of_running (hroster.le_one r) hc b hr
  have hout : r ∉ (s.pop e).ready c := fun hrc => hb (ready_unique (hroster.le_one r) hr hrc)
  have hgauge := h.gauge_afterCharge (r := r) hm₀ hroster hc
  rw [if_neg hrp, gauge_charge hm₀.placed (not_ready_of_running (hroster.le_one p) hc _),
    if_neg hrp, if_neg fun hboost => hout hboost.2] at hgauge
  exact congrArg Prod.fst hgauge

omit [NeZero n] in
/-- A task that is new under the scheduler of the core has been stolen. -/
theorem stolen_of_resumes {s₁ : MultiCoreSimulator MLFQScheduler n} (h : Resumes cfg c s₁ s')
    (hone : ∀ r, s₁.places r ≤ 1) (hidle : s₁.runningTasks c = none)
    (hr : Under slot s'.toMachine c r) (hno : ¬ Under slot s₁.toMachine c r) :
    s₁.ready c = [] ∧ cfg.enableWorkStealing = true ∧ ∃ b, s₁.busiestCore c = some b ∧
      (schedule (s₁.schedulers b) s₁.heap).task = some r := by
  cases h with
  | own hs =>
    have hold : Under slot s₁.toMachine c r := under_of_dispatch (mem_ready_of_schedule hs) hr
    exact absurd hold hno
  | @steal b stolen p x hempty hws hb hst hs =>
    have hp := schedule_mem _ s₁.heap stolen hst
    have hmigrated : Under slot (s₁.migrate b c stolen) c r :=
      under_of_dispatch (mem_ready_of_schedule hs) hr
    rcases under_of_migrate (hone stolen) hp hmigrated with ⟨-, rfl⟩ | ⟨-, hold⟩
    · exact ⟨hempty, hws, b, hb, hst⟩
    · exact absurd hold hno
  | idle =>
    have hr' : Under slot (s₁.clearCore c) c r := hr
    rw [clearCore_eq_self s₁.toMachine c hidle] at hr'
    exact absurd hr' hno

omit [NeZero n] in
/-- What a core steals runs on it. -/
theorem running_of_resumes {s₁ : MultiCoreSimulator MLFQScheduler n} (h : Resumes cfg c s₁ s')
    (hempty : s₁.ready c = []) (hws : cfg.enableWorkStealing = true)
    (hb : s₁.busiestCore c = some b)
    (hst : (schedule (s₁.schedulers b) s₁.heap).task = some stolen) :
    s'.runningTasks c = some stolen := by
  cases h with
  | own hs =>
    have hmem := mem_ready_of_schedule (m := s₁.toMachine) hs
    rw [hempty] at hmem
    cases hmem
  | @steal b' stolen' p x _ _ hb' hst' hs =>
    obtain rfl := Option.some.inj (hb.symm.trans hb')
    obtain rfl := Option.some.inj (hst.symm.trans hst')
    have hmem := mem_ready_of_schedule (m := s₁.migrate b c stolen) hs
    obtain rfl : p = stolen := by
      rcases mem_ready_migrate.1 hmem with ⟨-, hp⟩ | hp
      · exact hp
      · have hp' := (mem_ready_removeReady.1 hp).1
        rw [hempty] at hp'
        cases hp'
    exact setAt_self s₁.runningTasks c (some p)
  | idle _ hnone =>
    rw [hnone hws] at hb
    cases hb

variable (hreach : Lts.Reachable (Step cfg) (init (MLFQScheduler.new params) balancer w) s)
  (hstep : Step cfg s e s')

include hreach hstep

theorem boostLifts_of_reaches (h : s.BoostReaches cfg e) : s.BoostLifts e s' := by
  intro c m₀ hcall hdue
  have hmachine := hreach.simulate (f := toMachine) fun _ _ _ => step_machine
  have houtcome := outcome_of_step hstep
  rw [hcall] at houtcome
  obtain ⟨p, hc⟩ := houtcome.running_charged
  obtain ⟨hback, hsteal⟩ := h c m₀ p hcall hc hdue
  obtain ⟨hparts, hparts'⟩ := houtcome.parts_of_reachable hmachine hstep.1 hc
  have hroster := roster_of_parts (fun _ => MLFQScheduler.readyTasks_new params) hparts
  have hroster' := roster_of_parts (fun _ => MLFQScheduler.readyTasks_new params) hparts'
  have hlifted := (houtcome.lifted_afterCharge_iff hmachine hstep.1 hc hdue).2
    ⟨hback, fun d u hd hslot _ => absurd hslot hd⟩
  refine houtcome.lifted hmachine hstep.1 hc hlifted fun r hr hno => ?_
  obtain ⟨s₁, hs₁, hres⟩ := resumes_of_chargeCall hstep hcall hc
  rw [← hs₁] at hno hroster'
  have hidle : s₁.runningTasks c = none := by
    rw [hs₁, afterCharge_runningTasks, setAt_self]
  obtain ⟨hempty, hws, b, hb, hst⟩ := stolen_of_resumes hres hroster'.le_one hidle hr hno
  rw [hs₁] at hempty
  obtain ⟨hgone, hown⟩ := houtcome.ready_afterCharge_eq_nil.1 hempty
  have hsame : ∀ d, d ≠ c → s₁.schedulers d = s.schedulers d := by
    intro d hd
    rw [hs₁]
    exact houtcome.schedulers_afterCharge hd
  have hbusiest : s.busiestCore c = some b := (busiestCore_congr hsame).symm.trans hb
  have hbc := (busiestCore_spec hbusiest).1
  have hst' : (schedule (s.schedulers b) s.heap).task = some r :=
    (schedule_task_congr (hsame b hbc).symm _ _).trans hst
  rw [level_afterCharge_of_elsewhere houtcome (leveled_of_parts hparts) hroster hc hgone hbc
    (schedule_mem _ s.heap r hst')]
  exact hsteal hgone hown hws b r hbusiest hst'

theorem boostReaches_of_lifts (hids : w.DistinctIds) (h : s.BoostLifts e s') :
    s.BoostReaches cfg e := by
  intro c m₀ p hcall hc hdue
  have hmachine := hreach.simulate (f := toMachine) fun _ _ _ => step_machine
  have houtcome := outcome_of_step hstep
  rw [hcall] at houtcome
  obtain ⟨hparts, -⟩ := houtcome.parts_of_reachable hmachine hstep.1 hc
  have hroster := roster_of_parts (fun _ => MLFQScheduler.readyTasks_new params) hparts
  have hlifted := houtcome.lifted_before hmachine hstep.1 hc hids (h c m₀ hcall hdue)
  refine ⟨((houtcome.lifted_afterCharge_iff hmachine hstep.1 hc hdue).1 hlifted).1, ?_⟩
  intro hgone hown hws b stolen hbusiest hst
  obtain ⟨s₁, hs₁, hres⟩ := resumes_of_chargeCall hstep hcall hc
  have hbc := (busiestCore_spec hbusiest).1
  have hsame : ∀ d, d ≠ c → s₁.schedulers d = s.schedulers d := by
    intro d hd
    rw [hs₁]
    exact houtcome.schedulers_afterCharge hd
  have hempty : s₁.ready c = [] := by
    rw [hs₁]
    exact houtcome.ready_afterCharge_eq_nil.2 ⟨hgone, hown⟩
  have hrun : s'.runningTasks c = some stolen :=
    running_of_resumes hres hempty hws ((busiestCore_congr hsame).trans hbusiest)
      ((schedule_task_congr (hsame b hbc) _ _).trans hst)
  have hlevel := (houtcome.next hc).gauge
    (leveled_of_parts (houtcome.parts_of_reachable hmachine hstep.1 hc).2) stolen
  have hkept := level_afterCharge_of_elsewhere houtcome (leveled_of_parts hparts) hroster hc hgone
    hbc (schedule_mem _ s.heap stolen hst)
  refine hkept.symm.trans ((congrArg Prod.fst hlevel).symm.trans ?_)
  exact h c m₀ hcall hdue stolen (.inr ⟨c, rfl, hrun⟩)

end MultiCoreSimulator

/-! ## Runs -/

/-- **Whom a boost lifts**, in any run of either simulator: if every boost of the run reaches the
tasks it does not find in a queue, then after the handler of each boost every task of the
scheduler is at the top; and with distinct ids, only then. -/
theorem boost_liftsAll {n : ℕ} [NeZero n] (params : MLFQParams) (w : Workload) :
    (∀ (cfg : SimConfig) (es : List (Event n)) (s : Simulator MLFQScheduler n),
      (Lts.Run (fun s e s' => Simulator.Step cfg s e s' ∧ s.BoostReaches e)
          (Simulator.init (MLFQScheduler.new params) w) es s →
        Lts.Run (fun s e s' => Simulator.Step cfg s e s' ∧ s.BoostLifts e s')
          (Simulator.init (MLFQScheduler.new params) w) es s) ∧
      (w.DistinctIds →
        Lts.Run (fun s e s' => Simulator.Step cfg s e s' ∧ s.BoostLifts e s')
          (Simulator.init (MLFQScheduler.new params) w) es s →
        Lts.Run (fun s e s' => Simulator.Step cfg s e s' ∧ s.BoostReaches e)
          (Simulator.init (MLFQScheduler.new params) w) es s)) ∧
    (∀ (balancer : LoadBalancer) (cfg : MultiConfig) (es : List (Event n))
        (s : MultiCoreSimulator MLFQScheduler n),
      (Lts.Run (fun s e s' => MultiCoreSimulator.Step cfg s e s' ∧ s.BoostReaches cfg e)
          (MultiCoreSimulator.init (MLFQScheduler.new params) balancer w) es s →
        Lts.Run (fun s e s' => MultiCoreSimulator.Step cfg s e s' ∧ s.BoostLifts e s')
          (MultiCoreSimulator.init (MLFQScheduler.new params) balancer w) es s) ∧
      (w.DistinctIds →
        Lts.Run (fun s e s' => MultiCoreSimulator.Step cfg s e s' ∧ s.BoostLifts e s')
          (MultiCoreSimulator.init (MLFQScheduler.new params) balancer w) es s →
        Lts.Run (fun s e s' => MultiCoreSimulator.Step cfg s e s' ∧ s.BoostReaches cfg e)
          (MultiCoreSimulator.init (MLFQScheduler.new params) balancer w) es s)) := by
  refine ⟨fun cfg es s => ⟨fun h => ?_, fun hids h => ?_⟩,
    fun balancer cfg es s => ⟨fun h => ?_, fun hids h => ?_⟩⟩
  · refine h.restrict .refl fun t e u ht hstep => ⟨hstep.1, ?_⟩
    have hreach := ht.simulate (f := id) fun _ _ _ h => h.1
    exact Simulator.boostLifts_of_reaches hreach hstep.1 hstep.2
  · refine h.restrict .refl fun t e u ht hstep => ⟨hstep.1, ?_⟩
    have hreach := ht.simulate (f := id) fun _ _ _ h => h.1
    exact Simulator.boostReaches_of_lifts hreach hstep.1 hids hstep.2
  · refine h.restrict .refl fun t e u ht hstep => ⟨hstep.1, ?_⟩
    have hreach := ht.simulate (f := id) fun _ _ _ h => h.1
    exact MultiCoreSimulator.boostLifts_of_reaches hreach hstep.1 hstep.2
  · refine h.restrict .refl fun t e u ht hstep => ⟨hstep.1, ?_⟩
    have hreach := ht.simulate (f := id) fun _ _ _ h => h.1
    exact MultiCoreSimulator.boostReaches_of_lifts hreach hstep.1 hids hstep.2

/-- Task 1 arrives at 5, preempts task 0, which has sunk to level 1, and stays at the top.  The
boost at the end of its slice lifts task 0 out of the queue of level 1. -/
theorem boost_liftsAll_waiting :
    let cfg : SimConfig := { stopTime := 50 }
    let start : Simulator MLFQScheduler 1 := Simulator.init
      (MLFQScheduler.new { boostInterval := 7 }) (.ofList [⟨0, 0, 10, 0⟩, ⟨1, 5, 10, 0⟩])
    let e : Event 1 := ⟨.timeSlice, 7, 1, 0⟩
    let s := Simulator.turns cfg 4 start
    let s' := Simulator.handle cfg s e
    readyTasks (s.schedulers ()) = [0] ∧ (s.heap 0).currentQueue = 1 ∧
      ((s.pop e).schedulers ()).BoostDue ((s.pop e).elapsed 0) ∧
      (s'.heap 0).currentQueue = 0 ∧
      ∃ es, Lts.Run (fun s e s' => Simulator.Step cfg s e s' ∧ Simulator.BoostLifts s e s') start
        (es ++ [e]) s' := by
  intro cfg start e s s'
  obtain ⟨es, hrun⟩ := Simulator.reachable_turns_of (P := Simulator.BoostReaches) cfg 4 start
    (by decide +kernel)
  have hstep : Simulator.Step cfg s e s' :=
    ⟨EventQueue.isNext_of_getNext (by decide +kernel), by decide +kernel, rfl⟩
  have hreaches : Simulator.BoostReaches s e := by decide +kernel
  have hlifts := ((boost_liftsAll { boostInterval := 7 } _).1 cfg _ _).1
    (hrun.snoc ⟨hstep, hreaches⟩)
  exact ⟨by decide +kernel, by decide +kernel, by decide +kernel, by decide +kernel, es, hlifts⟩

/-- **A boost misses the task that is charged.**  With the values of the constructor, a task of
200 ms that is alone has sunk to the last level when the first boost is due, and stays there. -/
theorem boost_liftsAll_false :
    let cfg : SimConfig := { stopTime := 1000 }
    let w := Workload.ofList [⟨0, 0, 200, 0⟩]
    ¬ ∀ (s : Simulator MLFQScheduler 1) e s',
      Lts.Reachable (Simulator.Step cfg) (Simulator.init (MLFQScheduler.new {}) w) s →
      Simulator.Step cfg s e s' → s.BoostLifts e s' := by
  intro cfg w h
  let s : Simulator MLFQScheduler 1 :=
    Simulator.turns cfg 15 (Simulator.init (MLFQScheduler.new {}) w)
  let e : Event 1 := ⟨.timeSlice, 100, 0, 0⟩
  have hc : s.runningTasks 0 = some 0 := by decide +kernel
  have hstep : Simulator.Step cfg s e (Simulator.handle cfg s e) :=
    ⟨by decide +kernel, by decide +kernel, rfl⟩
  have hlifted := h s e _ (Simulator.reachable_turns cfg 15 _) hstep 0 (s.pop e)
    (Simulator.chargeCall_of_slice rfl hc) (by decide +kernel)
  have hrun : (Simulator.handle cfg s e).runningTasks 0 = some 0 := by decide +kernel
  have hlow : ((Simulator.handle cfg s e).heap 0).currentQueue ≠ 0 := by decide +kernel
  exact hlow (hlifted 0 (.inr ⟨0, rfl, hrun⟩))

end SchedSim
