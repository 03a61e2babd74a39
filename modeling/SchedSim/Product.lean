import SchedSim.CoreTurns
import SchedSim.CoreView
import SchedSim.Reports
import SchedSim.SharedTurns
import Mathlib.Algebra.BigOperators.Fin

/-!
# The multi-queue simulator as a product

Without stealing, the cores of the multi-queue simulator only meet in the load
balancer.  Once it is known which tasks it assigns to a core, what happens on that
core is a run of the single-queue simulator with one core on just those tasks.

* `MultiCoreSimulator.StepOn` — a turn of the loop, with the core it concerns.
* `MultiCoreSimulator.Shows` — machines with one core that show all the cores.
* `Shows.step` — a turn is a turn of one of them, and the others stay put.
* `MultiCoreSimulator.product` — so every run is made of runs of single cores.
-/

namespace SchedSim

/-- The part of a workload that consists of the given tasks. -/
def Workload.restrict (w : Workload) (tasks : List TaskPtr) : Workload where
  args := w.args
  added := w.added.filter fun p => p ∈ tasks
  nodup := w.nodup.filter _

/-! ## The single-queue simulator with one core -/

namespace Simulator

open Machine

variable {σ : Type} [Scheduler σ] {cfg : SimConfig} {t : Simulator σ 1} {e : Event 1} {p : TaskPtr}

theorem handle_skip (ha : e.type ≠ .arrival)
    (hs : e.type = .timeSlice → t.runningTasks e.coreId ≠ some e.task) :
    handle cfg t e = t.pop e := by
  rw [handle]
  split
  next harr => exact absurd harr ha
  next hslice =>
    rw [handleTimeSlice]
    split
    next => rfl
    next p hp =>
      refine if_pos fun heq => hs hslice ?_
      rw [← heq]
      exact hp
  next => rfl

theorem handle_timeSlice (hs : e.type = .timeSlice) (hp : t.runningTasks e.coreId = some e.task) :
    handle cfg t e = dispatchNext cfg ((t.pop e).settle () e.coreId e.task) e.coreId := by
  rw [handle, hs]
  show handleTimeSlice cfg (t.pop e) e = _
  rw [handleTimeSlice, pop_runningTasks, hp]
  exact if_neg fun h => h rfl

/-- With one core, a new task goes to that core or waits. -/
theorem handle_arrival (ha : e.type = .arrival) :
    handle cfg t e = match t.runningTasks 0 with
      | none => dispatchNext cfg (t.receive e) 0
      | some cur =>
        if shouldPreempt ((t.receive e).schedulers ()) (t.receive e).heap e.task (some cur) then
          dispatchNext cfg (preemptCore (t.receive e) 0) 0
        else t.receive e := by
  have hcores : List.finRange 1 = [0] := rfl
  rw [handle, ha]
  dsimp only
  rw [handleArrival_pop, hcores, List.find?_singleton, List.find?_singleton]
  cases hrun : t.runningTasks 0 with
  | none => rfl
  | some cur =>
    rw [shouldTake, hrun]
    simp only [Option.isNone_some, Bool.false_eq_true, if_false]
    cases shouldPreempt ((t.receive e).schedulers ()) (t.receive e).heap e.task (some cur) <;> rfl

end Simulator

/-! ## A turn on one core -/

namespace MultiCoreSimulator

open Machine

variable {σ : Type} [Scheduler σ] [LawfulScheduler σ] [LocalScheduler σ] {n : ℕ}
  {cfg : MultiConfig} {s s' : MultiCoreSimulator σ n} {t : Simulator σ 1} {c d : Fin n}
  {e : Event n}
  {tasks : Fin n → List TaskPtr} {k l : UInt32}

/-- `dispatch_next`, when there is nobody to steal from, is the one of the
single-queue simulator. -/
theorem Resumes.follows (h : Resumes cfg c s s')
    (hsteal : cfg.enableWorkStealing = true → s.busiestCore c = none)
    (hf : Follows tasks c k l s.toMachine t) :
    Follows tasks c k l s'.toMachine (Simulator.dispatchNext cfg.toSimConfig t 0) ∧
      Aside tasks c s.toMachine s'.toMachine := by
  cases h with
  | @own p x hs =>
    have hp : p ∈ s.ready c := schedule_mem _ s.heap p (by rw [hs])
    have hcount : readyCount (t.schedulers ()) ≠ 0 := by
      rw [hf.scheduler]
      intro hzero
      have hnil : s.ready c = [] := readyCount_eq_zero.1 hzero
      rw [hnil] at hp
      cases hp
    have hs' : schedule (t.schedulers ()) t.heap = ⟨some p, x⟩ := by
      rw [hf.scheduler, schedule_agree (· ∈ tasks c) _ _ _ hf.ready_own hf.heap, hs]
    rw [Simulator.dispatchNext, if_neg hcount, hs']
    exact ⟨hf.dispatch (hf.ready_own p hp), Aside.dispatch (hf.ready_own p hp)⟩
  | steal _ hws hb =>
    rw [hsteal hws] at hb
    cases hb
  | idle hempty =>
    have hcount : readyCount (t.schedulers ()) = 0 := by
      rw [hf.scheduler]
      exact readyCount_eq_zero.2 hempty
    rw [Simulator.dispatchNext, if_pos hcount]
    exact ⟨hf.clearCore, Aside.clearCore⟩

variable [NeZero n]

omit [LawfulScheduler σ] [NeZero n] in
/-- The two machines have admitted the new task and ask whether it goes first. -/
theorem shouldPreempt_follows {m : Machine σ (Fin n) n} {p q : TaskPtr}
    (hf : Follows tasks c k l m t) (hp : p ∈ tasks c) (hq : q ∈ tasks c) :
    shouldPreempt (t.schedulers ()) t.heap p (some q)
      = shouldPreempt (m.schedulers c) m.heap p (some q) := by
  rw [hf.scheduler]
  exact shouldPreempt_agree _ _ _ _ _ (hf.heap p hp) (hf.heap q hq)

/-- An arrival is handled on the core the balancer chooses as the single-queue
simulator handles it on its only core. -/
theorem Turn.follows_arrival (h : Turn cfg s e s') (harr : e.type = .arrival)
    (hsteal : ∀ (s : MultiCoreSimulator σ n) c, cfg.enableWorkStealing = true →
      s.busiestCore c = none)
    (hown : e.task ∈ tasks s.target)
    (hf : Follows tasks s.target k l (s.pop e) (t.pop e.onOneCore)) :
    Follows tasks s.target k l s'.toMachine (Simulator.handle cfg.toSimConfig t e.onOneCore) ∧
      Aside tasks s.target (s.pop e) s'.toMachine := by
  have hreceive : Follows tasks s.target k l (s.receive e).toMachine
      (Simulator.receive t e.onOneCore) :=
    hf.enqueue hown
  have haside : Aside tasks s.target (s.pop e) (s.receive e).toMachine :=
    Aside.enqueue hf.ready_own hown
  have hrunning : t.runningTasks 0 = s.runningTasks s.target := hf.running
  have htask : e.onOneCore.task = e.task := rfl
  rw [Simulator.handle_arrival (e := e.onOneCore) harr, hrunning, htask]
  cases h with
  | skip hna => exact absurd harr hna
  | @queued p _ hrun hwait =>
    have hp : p ∈ tasks s.target := hf.running_own p hrun
    rw [hrun]
    dsimp only
    rw [shouldPreempt_follows hreceive hown hp, hwait]
    exact ⟨hreceive, haside⟩
  | woken _ hrun hres =>
    rw [hrun]
    obtain ⟨hf', haside'⟩ := hres.follows (hsteal _ _) hreceive
    exact ⟨hf', haside.trans haside'⟩
  | @preempted p _ _ hrun hshould hres =>
    have hp : p ∈ tasks s.target := hf.running_own p hrun
    have hcur : (Simulator.receive t e.onOneCore).runningTasks 0 = some p := hrunning.trans hrun
    have hdisplace : Follows tasks s.target k l ((s.receive e).displace s.target p).toMachine
        (Simulator.preemptCore (Simulator.receive t e.onOneCore) 0) := by
      rw [Simulator.preemptCore, Machine.preemptCore_eq hcur]
      exact (hreceive.yieldCore hp).countSwitch
    have haside' : Aside tasks s.target (s.receive e).toMachine
        ((s.receive e).displace s.target p).toMachine :=
      (Aside.yieldCore hreceive.ready_own hp).trans Aside.countSwitch
    rw [hrun]
    dsimp only
    rw [shouldPreempt_follows hreceive hown hp, hshould, if_pos rfl]
    obtain ⟨hf', haside''⟩ := hres.follows (hsteal _ _) hdisplace
    exact ⟨hf', haside.trans (haside'.trans haside'')⟩
  | expired hts => exact absurd (hts.symm.trans harr) (by decide)

/-- So is any other event on its core. -/
theorem Turn.follows_other (h : Turn cfg s e s') (hna : e.type ≠ .arrival)
    (hsteal : ∀ (s : MultiCoreSimulator σ n) c, cfg.enableWorkStealing = true →
      s.busiestCore c = none)
    (hdisjoint : ∀ d, d ≠ e.coreId → ∀ p ∈ tasks d, p ∉ tasks e.coreId)
    (hf : Follows tasks e.coreId k l (s.pop e) (t.pop e.onOneCore)) :
    Follows tasks e.coreId k l s'.toMachine (Simulator.handle cfg.toSimConfig t e.onOneCore) ∧
      Aside tasks e.coreId (s.pop e) s'.toMachine := by
  have hrunning : t.runningTasks 0 = s.runningTasks e.coreId := hf.running
  cases h with
  | skip _ hs =>
    rw [Simulator.handle_skip (t := t) (e := e.onOneCore) hna fun hts hp =>
      hs hts (hrunning.symm.trans hp)]
    exact ⟨hf, Aside.refl _ _ _⟩
  | queued harr => exact absurd harr hna
  | woken harr => exact absurd harr hna
  | preempted harr => exact absurd harr hna
  | expired hts hrun hres =>
    have hp : e.task ∈ tasks e.coreId := hf.running_own e.task hrun
    have hsettle : Follows tasks e.coreId k l (s.expire e).toMachine
        ((t.pop e.onOneCore).settle () 0 e.task) := hf.settle hp
    have haside : Aside tasks e.coreId (s.pop e) (s.expire e).toMachine :=
      Aside.settle hf.ready_own hp hdisjoint
    rw [Simulator.handle_timeSlice (t := t) (e := e.onOneCore) hts (hrunning.trans hrun)]
    obtain ⟨hf', haside'⟩ := hres.follows (hsteal _ _) hsettle
    exact ⟨hf', haside.trans haside'⟩

/-! ## A turn of the whole -/

/-- The core an event concerns: the one the balancer chooses, or its own. -/
def coreOf (s : MultiCoreSimulator σ n) (e : Event n) : Fin n :=
  if e.type = .arrival then s.target else e.coreId

/-- One turn of the loop, labelled with the event and the core it concerns. -/
def StepOn (cfg : MultiConfig) (s : MultiCoreSimulator σ n) (l : Event n × Fin n)
    (s' : MultiCoreSimulator σ n) : Prop :=
  Step cfg s l.1 s' ∧ l.2 = s.coreOf l.1

/-- The tasks that the balancer has assigned to core `c`. -/
def assigned (ls : List (Event n × Fin n)) (c : Fin n) : List TaskPtr :=
  (ls.filter fun l => l.1.type = .arrival ∧ l.2 = c).map fun l => l.1.task

/-- The machines `v c` with one core show the cores of the simulator `s`. -/
structure Shows (tasks : Fin n → List TaskPtr) (s : MultiCoreSimulator σ n)
    (v : Fin n → Simulator σ 1) : Prop where
  view : ∀ c, View tasks c s.toMachine (v c)
  contextSwitches : s.contextSwitches = ∑ c, (v c).contextSwitches
  preemptions : s.preemptions = ∑ c, (v c).preemptions
  arrivals : ∀ e ∈ s.events, e.type = .arrival → e.coreId = 0

omit [NeZero n] in
/-- Taking an event off a queue takes it off the queue of its core. -/
theorem map_erase_onOneCore {l : List (Event n)} (h : ∀ a ∈ l, a.onOneCore = e.onOneCore → a = e) :
    (l.erase e).map Event.onOneCore = (l.map Event.onOneCore).erase e.onOneCore := by
  induction l with
  | nil => rfl
  | cons a l ih =>
    by_cases hae : a = e
    · subst hae
      simp
    · have hne : a.onOneCore ≠ e.onOneCore := fun heq => hae (h a (List.mem_cons_self ..) heq)
      rw [List.erase_cons_tail (by simpa using hae), List.map_cons, List.map_cons,
        List.erase_cons_tail (by simpa using hne), ih fun b hb => h b (List.mem_cons_of_mem _ hb)]

omit [LawfulScheduler σ] [LocalScheduler σ] in
theorem Shows.onCore_injective {v : Fin n → Simulator σ 1} (hv : Shows tasks s v)
    (he : e ∈ s.events)
    (hon : OnCore tasks c e) : ∀ a ∈ s.events.filter fun e => OnCore tasks c e,
      a.onOneCore = e.onOneCore → a = e := by
  intro a ha heq
  obtain ⟨ha, hona⟩ := List.mem_filter.1 ha
  rw [decide_eq_true_iff] at hona
  rw [Event.onOneCore, Event.onOneCore, Event.mk.injEq] at heq
  obtain ⟨htype, htime, htask, -⟩ := heq
  have hcore : a.coreId = e.coreId := by
    by_cases harr : e.type = .arrival
    · rw [hv.arrivals a ha (htype.trans harr), hv.arrivals e he harr]
    · rw [OnCore, if_neg (htype ▸ harr)] at hona
      rw [OnCore, if_neg harr] at hon
      rw [hona, hon]
  cases a
  cases e
  simp_all

omit [LawfulScheduler σ] [LocalScheduler σ] in
/-- The event is taken off in both machines. -/
theorem Shows.follows {v : Fin n → Simulator σ 1} (hv : Shows tasks s v) (he : e ∈ s.events)
    (hon : OnCore tasks c e) :
    Follows tasks c (∑ d ∈ Finset.univ.erase c, (v d).contextSwitches)
      (∑ d ∈ Finset.univ.erase c, (v d).preemptions) (s.pop e) ((v c).pop e.onOneCore) := by
  refine ⟨⟨(hv.view c).scheduler, (hv.view c).heap, ?_, (hv.view c).running, (hv.view c).last,
    (hv.view c).completed, (hv.view c).ready_own, (hv.view c).running_own⟩, rfl, ?_, ?_⟩
  · rw [pop_events, pop_events, (hv.view c).events, ← List.erase_filter,
      map_erase_onOneCore (hv.onCore_injective he hon)]
  · exact hv.contextSwitches.trans (Finset.sum_erase_add _ _ (Finset.mem_univ c)).symm
  · exact hv.preemptions.trans (Finset.sum_erase_add _ _ (Finset.mem_univ c)).symm

omit [Scheduler σ] [LawfulScheduler σ] [LocalScheduler σ] [NeZero n] in
/-- And the other cores do not notice. -/
theorem aside_pop (hother : ∀ d, d ≠ c → ¬ OnCore tasks d e) :
    Aside tasks c s.toMachine (s.pop e) :=
  { Aside.refl tasks c s.toMachine with
    events := fun d hd => by
      rw [pop_events, ← List.erase_filter, List.erase_of_not_mem]
      intro hmem
      exact hother d hd (by simpa using (List.mem_filter.1 hmem).2) }

/-- A turn of the multi-queue simulator is a turn of one of the machines. -/
theorem Shows.step {v : Fin n → Simulator σ 1} {l : Event n × Fin n} (hv : Shows tasks s v)
    (h : StepOn cfg s l s') (hown : l.1.type = .arrival → l.1.task ∈ tasks l.2)
    (hdisjoint : ∀ c d, d ≠ c → ∀ p ∈ tasks d, p ∉ tasks c)
    (hsteal : ∀ (s : MultiCoreSimulator σ n) c, cfg.enableWorkStealing = true →
      s.busiestCore c = none) :
    ∃ u, Simulator.Step cfg.toSimConfig (v l.2) l.1.onOneCore u ∧
      Shows tasks s' (Function.update v l.2 u) := by
  obtain ⟨e, c⟩ := l
  obtain ⟨hstep, hc⟩ := h
  dsimp only at hc hown ⊢ hstep
  have hmem : e ∈ s.events := hstep.1.1
  have hon : OnCore tasks c e := by
    rw [OnCore]
    split
    next harr => exact hown harr
    next harr => rw [hc, coreOf, if_neg harr]
  have hother : ∀ d, d ≠ c → ¬ OnCore tasks d e := by
    intro d hd hond
    rw [OnCore] at hon hond
    split at hon
    next harr =>
      rw [if_pos harr] at hond
      exact hdisjoint c d hd e.task hond hon
    next harr =>
      rw [if_neg harr] at hond
      exact hd (hond.symm.trans hon)
  have hboth : Follows tasks c (∑ d ∈ Finset.univ.erase c, (v d).contextSwitches)
        (∑ d ∈ Finset.univ.erase c, (v d).preemptions) s'.toMachine
        (Simulator.handle cfg.toSimConfig (v c) e.onOneCore) ∧
      Aside tasks c (s.pop e) s'.toMachine := by
    have hf := hv.follows hmem hon
    by_cases harr : e.type = .arrival
    · rw [coreOf, if_pos harr] at hc
      subst hc
      exact (turn_of_step hstep).follows_arrival harr hsteal (hown harr) hf
    · rw [coreOf, if_neg harr] at hc
      subst hc
      exact (turn_of_step hstep).follows_other harr hsteal (hdisjoint e.coreId) hf
  obtain ⟨hf, haside⟩ := hboth
  have hevents : (v c).events = (s.events.filter fun e => OnCore tasks c e).map Event.onOneCore :=
    (hv.view c).events
  have hsum : ∀ (g : Simulator σ 1 → UInt32) (u : Simulator σ 1),
      ∑ d, g (Function.update v c u d) = ∑ d ∈ Finset.univ.erase c, g (v d) + g u := by
    intro g u
    rw [← Finset.sum_erase_add _ _ (Finset.mem_univ c), Function.update_self]
    congr 1
    refine Finset.sum_congr rfl fun d hd => ?_
    rw [Function.update_of_ne (Finset.ne_of_mem_erase hd)]
  refine ⟨_, ⟨⟨?_, fun e' he' => ?_⟩, hstep.2.1, rfl⟩, fun d => ?_, ?_, ?_, fun e' he' harr => ?_⟩
  · rw [hevents]
    exact List.mem_map_of_mem (List.mem_filter.2 ⟨hmem, by simpa using hon⟩)
  · rw [hevents] at he'
    obtain ⟨a, ha, rfl⟩ := List.mem_map.1 he'
    exact hstep.1.2 a (List.mem_of_mem_filter ha)
  · by_cases hd : d = c
    · subst hd
      rw [Function.update_self]
      exact hf.toView
    · rw [Function.update_of_ne hd]
      exact (hv.view d).aside ((aside_pop hother).trans haside) hd (hdisjoint c d hd)
  · rw [hsum fun u => u.contextSwitches]
    exact hf.switches
  · rw [hsum fun u => u.preemptions]
    exact hf.preempted
  · exact hv.arrivals e' ((step_machine hstep).2.2.mem_of_arrival he' harr) harr

/-! ## Runs -/

omit [Scheduler σ] [LawfulScheduler σ] [LocalScheduler σ] [NeZero n] in
theorem mem_assigned_snoc {ls : List (Event n × Fin n)} {l : Event n × Fin n} {p : TaskPtr} :
    p ∈ assigned (ls ++ [l]) c
      ↔ p ∈ assigned ls c ∨ (l.1.type = .arrival ∧ l.2 = c) ∧ l.1.task = p := by
  rw [assigned, List.filter_append, List.map_append, List.mem_append]
  refine or_congr_right ?_
  by_cases hl : l.1.type = .arrival ∧ l.2 = c
  · simp [hl, eq_comm]
  · simp [hl]

variable {scheduler : σ} {balancer : LoadBalancer} {w : Workload} {ls : List (Event n × Fin n)}

omit [LocalScheduler σ] in
/-- A task arrives once, so it is assigned to one core. -/
theorem assigned_unique (h : Lts.Run (StepOn cfg) (init scheduler balancer w) ls s) :
    s.events.arrivals.Nodup ∧ (∀ c, ∀ p ∈ assigned ls c, p ∉ s.events.arrivals) ∧
      ∀ c d, d ≠ c → ∀ p ∈ assigned ls d, p ∉ assigned ls c := by
  induction h with
  | nil =>
    refine ⟨?_, fun c p hp => ?_, fun c d _ p hp => ?_⟩
    · have harrivals : (init scheduler balancer w : MultiCoreSimulator σ n).events.arrivals
          = w.added := by
        simp [init, Machine.init, EventQueue.arrivals, List.filter_map, Function.comp_def]
      rw [harrivals]
      exact w.nodup
    · cases hp
    · cases hp
  | @snoc t u ls l _ hstep ih =>
    obtain ⟨hnodup, hgone, hunique⟩ := ih
    have hmove := (step_machine hstep.1).2.2
    have hperm := EventQueue.arrivals_erase_perm t.events hstep.1.1.1
    have hsubset : ∀ p ∈ u.events.arrivals, p ∈ t.events.arrivals := hmove.arrivals_subset
    have hnodup' := hperm.nodup_iff.1 hnodup
    have hpending : l.1.type = .arrival → l.1.task ∈ t.events.arrivals := fun harr =>
      EventQueue.mem_arrivals.2 ⟨l.1, hstep.1.1.1, harr, rfl⟩
    refine ⟨?_, fun c p hp hmem => ?_, fun c d hd p hp hp' => ?_⟩
    · rw [hmove.arrivals]
      refine hnodup'.sublist ?_
      exact ((List.sublist_cons_self _ _).filter _).map _
    · rcases mem_assigned_snoc.1 hp with hp | ⟨⟨harr, -⟩, rfl⟩
      · exact hgone c p hp (hsubset p hmem)
      · have hcons : EventQueue.arrivals (l.1 :: t.events.erase l.1)
            = l.1.task :: EventQueue.arrivals (t.events.erase l.1) := by
          simp [EventQueue.arrivals, harr]
        rw [hcons] at hnodup'
        rw [hmove.arrivals] at hmem
        exact (List.nodup_cons.1 hnodup').1 hmem
    · rcases mem_assigned_snoc.1 hp with hp | ⟨⟨harr, rfl⟩, rfl⟩
      · rcases mem_assigned_snoc.1 hp' with hp' | ⟨⟨harr, rfl⟩, rfl⟩
        · exact hunique c d hd p hp hp'
        · exact hgone d _ hp (hpending harr)
      · rcases mem_assigned_snoc.1 hp' with hp' | ⟨⟨-, rfl⟩, -⟩
        · exact hgone c _ hp' (hpending harr)
        · exact hd rfl

omit [LawfulScheduler σ] [LocalScheduler σ] in
/-- At the start the machines have the tasks of their cores and nothing else. -/
theorem shows_init (tasks : Fin n → List TaskPtr) (hempty : readyTasks scheduler = []) :
    Shows tasks (init scheduler balancer w)
      fun c => Simulator.init scheduler (w.restrict (tasks c)) where
  view c := by
    refine ⟨rfl, fun _ _ => rfl, ?_, rfl, rfl, rfl, fun p hp => ?_, fun p hp => by cases hp⟩
    · show (w.added.filter _).map _ = ((w.added.map _).filter _).map _
      rw [List.filter_map, List.map_map]
      have hfilter : (w.added.filter fun p => p ∈ tasks c)
          = w.added.filter ((fun e : Event n => decide (OnCore tasks c e)) ∘ fun p =>
            ⟨.arrival, (w.heap p).arrivalTime, p, 0⟩) :=
        List.filter_congr fun p _ => by simp [OnCore]
      rw [← hfilter]
      rfl
    · have hnil : readyTasks scheduler = [] := hempty
      change p ∈ readyTasks scheduler at hp
      rw [hnil] at hp
      cases hp
  contextSwitches := (Finset.sum_const_zero).symm
  preemptions := (Finset.sum_const_zero).symm
  arrivals e he _ := by
    obtain ⟨p, -, rfl⟩ := List.mem_map.1 he
    rfl

omit [LawfulScheduler σ] [LocalScheduler σ] in
/-- Every run can be labelled with the cores its events concern. -/
theorem exists_stepOn {es : List (Event n)} (h : Lts.Run (Step cfg) s es s') :
    ∃ ls, ls.map Prod.fst = es ∧ Lts.Run (StepOn cfg) s ls s' := by
  induction h with
  | nil => exact ⟨[], rfl, .nil s⟩
  | @snoc t u es e _ hstep ih =>
    obtain ⟨ls, hls, hrun⟩ := ih
    refine ⟨ls ++ [(e, t.coreOf e)], ?_, hrun.snoc ⟨hstep, rfl⟩⟩
    rw [List.map_append, hls]
    rfl

/-- **Without stealing, the multi-queue simulator is a product** of single-queue
simulators with one core.  Each of them handles the events of its core, in their
order, and has the tasks the balancer assigned to the core; its tasks are what they
are in the multi-queue simulator, and the counters add up. -/
theorem product (kind : SchedulerKind) (w : Workload) (cfg : MultiConfig) (balancer : LoadBalancer)
    (hws : cfg.enableWorkStealing = false ∨ n = 1) (es : List (Event n))
    (s : MultiCoreSimulator kind.State n)
    (hrun : Lts.Run (Step cfg) (init kind.make balancer w) es s) :
    ∃ ls : List (Event n × Fin n), ls.map Prod.fst = es ∧
      Lts.Run (StepOn cfg) (init kind.make balancer w) ls s ∧
      ∃ v : Fin n → Simulator kind.State 1,
        (∀ c, Lts.Run (Simulator.Step cfg.toSimConfig)
          (Simulator.init kind.make (w.restrict (assigned ls c)))
          ((ls.filter fun l => l.2 = c).map fun l => l.1.onOneCore) (v c)) ∧
        (∀ c, ∀ p ∈ assigned ls c, (v c).heap p = s.heap p) ∧
        (∀ c, (v c).completedTasks = s.completedTasks.filter fun p => p ∈ assigned ls c) ∧
        s.contextSwitches = ∑ c, (v c).contextSwitches ∧
        s.preemptions = ∑ c, (v c).preemptions ∧
        (s.Stops cfg.toSimConfig → ∀ c, (v c).Stops cfg.toSimConfig) := by
  obtain ⟨ls, hls, hruns⟩ := exists_stepOn hrun
  obtain ⟨-, -, hunique⟩ := assigned_unique hruns
  have hsteal : ∀ (s : MultiCoreSimulator kind.State n) c, cfg.enableWorkStealing = true →
      s.busiestCore c = none := by
    intro s c hon
    rcases hws with hoff | hone
    · rw [hoff] at hon
      cases hon
    · subst hone
      exact busiestCore_of_subsingleton s c
  have hown : ∀ l ∈ ls, l.1.type = .arrival → l.1.task ∈ assigned ls l.2 := by
    intro l hl harr
    rw [assigned]
    exact List.mem_map_of_mem (List.mem_filter.2 ⟨hl, by simp [harr]⟩)
  obtain ⟨v, hv, hshows⟩ := hruns.project (R := Shows (assigned ls))
    (k := Simulator.Step cfg.toSimConfig) (P := fun l => l ∈ ls) Event.onOneCore
    (fun s l s' v hl hR hstep => hR.step hstep (hown l hl) hunique hsteal) (fun _ hl => hl)
    (shows_init (assigned ls) kind.readyTasks_make)
  refine ⟨ls, hls, hruns, v, hv, fun c => (hshows.view c).heap, fun c => (hshows.view c).completed,
    hshows.contextSwitches, hshows.preemptions, fun hstops c e he => ?_⟩
  rw [(hshows.view c).events] at he
  obtain ⟨a, ha, rfl⟩ := List.mem_map.1 he
  exact hstops a (List.mem_of_mem_filter ha)

omit [LawfulScheduler σ] [LocalScheduler σ] in
/-- The events decide the cores they concern, and what happens there. -/
theorem stepOn_unique (s : MultiCoreSimulator σ n) (l l' : Event n × Fin n)
    (t t' : MultiCoreSimulator σ n) (hl : l.1 = l'.1) (h : StepOn cfg s l t)
    (h' : StepOn cfg s l' t') : l = l' ∧ t = t' := by
  obtain ⟨⟨-, -, rfl⟩, hcore⟩ := h
  obtain ⟨⟨-, -, rfl⟩, hcore'⟩ := h'
  rw [hl] at hcore ⊢
  exact ⟨Prod.ext hl (hcore.trans hcore'.symm), rfl⟩

/-- Three tasks on two cores that do not steal: task 2 preempts task 0 on core 0 and completes,
and core 1 has task 1. -/
theorem product_three :
    let cfg : MultiConfig := { stopTime := 50, enableWorkStealing := false }
    let kind := SchedulerKind.eevdf {}
    let w := Workload.ofList [⟨0, 0, 100, 0⟩, ⟨1, 0, 100, 0⟩, ⟨2, 1, 1 / 2, -5⟩]
    let s₀ : MultiCoreSimulator kind.State 2 := init kind.make (.roundRobin 0) w
    let s₁ := handle cfg s₀ ⟨.arrival, 0, 0, 0⟩
    let s₂ := handle cfg s₁ ⟨.arrival, 0, 1, 0⟩
    let s₃ := handle cfg s₂ ⟨.arrival, 1, 2, 0⟩
    let s := handle cfg s₃ ⟨.timeSlice, 3 / 2, 2, 0⟩
    s.preemptions = 1 ∧ s.completedTasks = [2] ∧
      ∃ v : Fin 2 → Simulator kind.State 1,
        Lts.Run (Simulator.Step cfg.toSimConfig) (Simulator.init kind.make (w.restrict [0, 2]))
          [⟨.arrival, 0, 0, 0⟩, ⟨.arrival, 1, 2, 0⟩, ⟨.timeSlice, 3 / 2, 2, 0⟩] (v 0) ∧
        Lts.Run (Simulator.Step cfg.toSimConfig) (Simulator.init kind.make (w.restrict [1]))
          [⟨.arrival, 0, 1, 0⟩] (v 1) ∧
        ((v 0).heap 0 = s.heap 0 ∧ (v 1).heap 1 = s.heap 1 ∧ (v 0).heap 2 = s.heap 2) ∧
        ((v 0).completedTasks = [2] ∧ (v 1).completedTasks = []) ∧
        s.contextSwitches = (v 0).contextSwitches + (v 1).contextSwitches ∧
        s.preemptions = (v 0).preemptions + (v 1).preemptions := by
  intro cfg kind w s₀ s₁ s₂ s₃ s
  have hnext : ∀ {t : MultiCoreSimulator kind.State 2} {e c}, t.events.getNext = some e →
      e.time ≤ cfg.stopTime → c = t.coreOf e → StepOn cfg t (e, c) (handle cfg t e) :=
    fun hnext hstop hc => ⟨⟨EventQueue.isNext_of_getNext hnext, hstop, rfl⟩, hc⟩
  have h₀ : StepOn cfg s₀ (_, 0) s₁ := hnext (by decide +kernel) (by decide) (by decide +kernel)
  have h₁ : StepOn cfg s₁ (_, 1) s₂ := hnext (by decide +kernel) (by decide) (by decide +kernel)
  have h₂ : StepOn cfg s₂ (_, 0) s₃ :=
    hnext (by decide +kernel) (by decide +kernel) (by decide +kernel)
  have h₃ : StepOn cfg s₃ (_, 0) s :=
    hnext (by decide +kernel) (by decide +kernel) (by decide +kernel)
  have hlabelled := (((Lts.Run.single h₀).snoc h₁).snoc h₂).snoc h₃
  have hrun := (((Lts.Run.single h₀.1).snoc h₁.1).snoc h₂.1).snoc h₃.1
  obtain ⟨ls, hls, hruns, v, hv, hheap, hcompleted, hswitches, hpreemptions, -⟩ :=
    product kind w cfg (.roundRobin 0) (.inl rfl) _ s hrun
  obtain ⟨rfl, -⟩ := hruns.unique (f := Prod.fst) stepOn_unique hlabelled hls
  refine ⟨by decide +kernel, by decide +kernel, v, hv 0, hv 1, ⟨hheap 0 0 ?_, hheap 1 1 ?_,
    hheap 0 2 ?_⟩, ⟨(hcompleted 0).trans ?_, (hcompleted 1).trans ?_⟩,
    hswitches.trans (Fin.sum_univ_two _), hpreemptions.trans (Fin.sum_univ_two _)⟩ <;>
    decide +kernel

end MultiCoreSimulator

end SchedSim
