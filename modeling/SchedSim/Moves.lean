import SchedSim.Frame
import SchedSim.Lts
import SchedSim.MultiCoreSimulator
import SchedSim.Simulator

/-!
# What one event can do

Everything a simulator can do with one event, said once.  `slot c` is the
scheduler that serves core `c`: the only one in the single-queue simulator, the
core's own one in the multi-queue simulator.

* `Machine.Next` — the outcomes of `dispatch_next`.
* `Machine.Move` — the outcomes of handling an event.
* `Machine.Step` — one turn of the event loop: an event of least time that is
  not past the stop time, and a move.
* `Simulator.step_machine`, `MultiCoreSimulator.step_machine` — both simulators
  only ever take such steps, so what is proved of every run of a machine holds
  of every run of either simulator.
-/

namespace SchedSim

namespace Machine

variable {σ Q : Type} [Scheduler σ] [DecidableEq Q] {n : ℕ}

/-- The outcomes of `dispatch_next` on a core: there is nothing to run, a task
of the own scheduler is dispatched, or one is stolen first. -/
inductive Next (cfg : SimConfig) (slot : Fin n → Q) (c : Fin n) (m : Machine σ Q n) :
    Machine σ Q n → Prop
  | idle : m.ready (slot c) = [] → Next cfg slot c m (m.clearCore c)
  | own {p : TaskPtr} {timeSlice : ℚ} :
      schedule (m.schedulers (slot c)) m.heap = ⟨some p, timeSlice⟩ →
      Next cfg slot c m (m.dispatch cfg (slot c) c p timeSlice)
  | steal {b : Q} {stolen p : TaskPtr} {timeSlice : ℚ} :
      b ≠ slot c → m.ready (slot c) = [] → 1 < (m.ready b).length →
      (schedule (m.schedulers b) m.heap).task = some stolen →
      schedule ((m.migrate b (slot c) stolen).schedulers (slot c))
        (m.migrate b (slot c) stolen).heap = ⟨some p, timeSlice⟩ →
      Next cfg slot c m
        ((m.migrate b (slot c) stolen).dispatch cfg (slot c) c p timeSlice)

/-- The outcomes of handling an event. -/
inductive Move (cfg : SimConfig) (slot : Fin n → Q) (m : Machine σ Q n) (e : Event n) :
    Machine σ Q n → Prop
  /-- The event is ignored. -/
  | skip : e.type ≠ .arrival →
      (e.type = .timeSlice → m.runningTasks e.coreId ≠ some e.task) →
      Move cfg slot m e (m.pop e)
  /-- The new task waits. -/
  | queued {q : Q} : e.type = .arrival →
      (∀ c, slot c = q → m.runningTasks c ≠ none) →
      Move cfg slot m e ((m.pop e).enqueue q e.task)
  /-- The new task finds an idle core. -/
  | woken {c : Fin n} {m' : Machine σ Q n} : e.type = .arrival →
      m.runningTasks c = none →
      Next cfg slot c ((m.pop e).enqueue (slot c) e.task) m' →
      Move cfg slot m e m'
  /-- The new task interrupts a busy core. -/
  | preempted {c : Fin n} {p : TaskPtr} {m' : Machine σ Q n} : e.type = .arrival →
      m.runningTasks c = some p →
      (∀ c', slot c' = slot c → m.runningTasks c' ≠ none) →
      shouldPreempt (((m.pop e).enqueue (slot c) e.task).schedulers (slot c))
        ((m.pop e).enqueue (slot c) e.task).heap e.task (some p) = true →
      Next cfg slot c
        ((((m.pop e).enqueue (slot c) e.task).yieldCore (slot c) c p).countSwitch) m' →
      Move cfg slot m e m'
  /-- The slice of the task on the core is over. -/
  | expired {m' : Machine σ Q n} : e.type = .timeSlice →
      m.runningTasks e.coreId = some e.task →
      Next cfg slot e.coreId ((m.pop e).settle (slot e.coreId) e.coreId e.task) m' →
      Move cfg slot m e m'

/-- One turn of the event loop. -/
def Step (cfg : SimConfig) (slot : Fin n → Q) (m : Machine σ Q n) (e : Event n)
    (m' : Machine σ Q n) : Prop :=
  m.events.IsNext e ∧ e.time ≤ cfg.stopTime ∧ Move cfg slot m e m'

section Clock

variable {cfg : SimConfig} {slot : Fin n → Q} {c : Fin n} {m m' : Machine σ Q n} {e : Event n}

theorem Next.currentTime (h : Next cfg slot c m m') : m'.currentTime = m.currentTime := by
  cases h <;> rfl

/-- Handling an event moves the clock to its time. -/
theorem Move.currentTime (h : Move cfg slot m e m') : m'.currentTime = e.time := by
  cases h with
  | skip => rfl
  | queued => rfl
  | woken _ _ hn => exact hn.currentTime
  | preempted _ _ _ _ hn => exact hn.currentTime
  | expired _ _ hn => rw [hn.currentTime, settle_currentTime, pop_currentTime]

end Clock

section Arrivals

variable {cfg : SimConfig} {slot : Fin n → Q} {c : Fin n} {m m' : Machine σ Q n} {e : Event n}

theorem Next.arrivals (h : Next cfg slot c m m') : m'.events.arrivals = m.events.arrivals := by
  cases h with
  | idle => rfl
  | own => rw [dispatch_events, EventQueue.arrivals_schedule _ (by simp)]
  | steal =>
    rw [dispatch_events, EventQueue.arrivals_schedule _ (by simp)]
    rfl

/-- Handling an event announces no further arrival. -/
theorem Move.arrivals (h : Move cfg slot m e m') :
    m'.events.arrivals = EventQueue.arrivals (m.events.erase e) := by
  cases h with
  | skip => rfl
  | queued => rfl
  | woken _ _ hn => exact hn.arrivals
  | preempted _ _ _ _ hn => exact hn.arrivals
  | expired _ _ hn => rw [hn.arrivals, settle_events, pop_events]

theorem Next.mem_of_arrival (h : Next cfg slot c m m') {d : Event n} (hd : d ∈ m'.events)
    (harr : d.type = .arrival) : d ∈ m.events := by
  have hdispatch : ∀ {q : EventQueue n} {e : Event n}, e.type ≠ .arrival → d ∈ q.schedule e →
      d ∈ q := by
    intro q e he hmem
    rcases List.mem_append.1 hmem with hmem | hmem
    · exact hmem
    · rw [List.mem_singleton.1 hmem] at harr
      exact absurd harr he
  cases h with
  | idle => exact hd
  | own => exact hdispatch (by simp) hd
  | steal => exact hdispatch (by simp) hd

/-- An arrival that is pending afterwards was pending before. -/
theorem Move.mem_of_arrival (h : Move cfg slot m e m') {d : Event n} (hd : d ∈ m'.events)
    (harr : d.type = .arrival) : d ∈ m.events := by
  cases h with
  | skip => exact List.mem_of_mem_erase hd
  | queued => exact List.mem_of_mem_erase hd
  | woken _ _ hn => exact List.mem_of_mem_erase (hn.mem_of_arrival hd harr)
  | preempted _ _ _ _ hn => exact List.mem_of_mem_erase (hn.mem_of_arrival hd harr)
  | expired _ _ hn =>
    have hmem := hn.mem_of_arrival hd harr
    rw [settle_events, pop_events] at hmem
    exact List.mem_of_mem_erase hmem

theorem Move.arrivals_subset (h : Move cfg slot m e m') :
    m'.events.arrivals ⊆ m.events.arrivals := by
  rw [h.arrivals]
  exact List.map_subset _ (List.erase_sublist.filter _).subset

end Arrivals

section Growth

variable {cfg : SimConfig} {slot : Fin n → Q} {c : Fin n} {m m' : Machine σ Q n} {e : Event n}

theorem Next.completedTasks (h : Next cfg slot c m m') :
    m'.completedTasks = m.completedTasks := by
  cases h <;> rfl

theorem Next.history (h : Next cfg slot c m m') : ∃ new, m'.history = new ++ m.history := by
  cases h with
  | idle => exact ⟨[], rfl⟩
  | own => exact ⟨[_], rfl⟩
  | steal => exact ⟨[_], rfl⟩

theorem Move.completedTasks_subset (h : Move cfg slot m e m') :
    m.completedTasks ⊆ m'.completedTasks := by
  cases h with
  | skip => exact List.Subset.refl _
  | queued => exact List.Subset.refl _
  | woken _ _ hn => exact (hn.completedTasks ▸ List.Subset.refl _)
  | preempted _ _ _ _ hn => exact (hn.completedTasks ▸ List.Subset.refl _)
  | expired _ _ hn =>
    rw [hn.completedTasks, settle_eq]
    split
    · exact List.subset_append_left _ _
    · exact List.Subset.refl _

theorem Move.history (h : Move cfg slot m e m') : ∃ new, m'.history = new ++ m.history := by
  cases h with
  | skip => exact ⟨[], rfl⟩
  | queued => exact ⟨[], rfl⟩
  | woken _ _ hn => exact hn.history
  | preempted _ _ _ _ hn =>
    obtain ⟨new, hnew⟩ := hn.history
    exact ⟨new ++ [_], by rw [hnew, List.append_assoc]; rfl⟩
  | expired _ _ hn =>
    obtain ⟨new, hnew⟩ := hn.history
    exact ⟨new ++ [_], by rw [hnew, settle_history, List.append_assoc]; rfl⟩

end Growth

section Fixed

variable [LawfulScheduler σ] {cfg : SimConfig} {slot : Fin n → Q} {c : Fin n}
  {m m' : Machine σ Q n} {e : Event n}

theorem Next.fixed (h : Next cfg slot c m m') (p : TaskPtr) :
    (m'.heap p).fixed = (m.heap p).fixed := by
  cases h with
  | idle => rfl
  | own => exact fixed_dispatch
  | steal => rw [fixed_dispatch, fixed_migrate]

theorem Move.fixed (h : Move cfg slot m e m') (p : TaskPtr) :
    (m'.heap p).fixed = (m.heap p).fixed := by
  cases h with
  | skip => rfl
  | queued => exact fixed_enqueue
  | woken _ _ hn => rw [hn.fixed, fixed_enqueue, pop_heap]
  | preempted _ _ _ _ hn =>
    rw [hn.fixed, countSwitch_heap, fixed_yieldCore, fixed_enqueue, pop_heap]
  | expired _ _ hn => rw [hn.fixed, fixed_settle, pop_heap]

/-- The arguments and the weight of a task are the same in every reachable state. -/
theorem fixed_of_reachable [NeZero n] {schedulers : Q → σ} {w : Workload}
    (h : Lts.Reachable (Step cfg slot) (init schedulers w) m) (p : TaskPtr) :
    (m.heap p).fixed = (w.heap p).fixed := by
  refine h.induction (I := fun m => (m.heap p).fixed = (w.heap p).fixed) rfl ?_
  intro s e t _ ih hstep
  rw [hstep.2.2.fixed, ih]

end Fixed

/-! ## What the methods keep of a scheduler, the simulator keeps -/

section Grants

variable {m m' : Machine σ Q n} {e : Event n} {q b : Q} {c : Fin n} {p : TaskPtr}
  {cfg : SimConfig} {slot : Fin n → Q} {δ : ℚ} {P : σ → Prop}

theorem forall_setAt {α β : Type} [DecidableEq α] {f : α → β} {a : α} {v : β} {P : β → Prop}
    (h : ∀ x, P (f x)) (hv : P v) : ∀ x, P (setAt f a v x) := by
  intro x
  rw [setAt_apply]
  split
  · exact hv
  · exact h x

theorem grants_enqueue (hg : GrantsAtLeast δ P) (h : ∀ q, P (m.schedulers q)) :
    ∀ q', P ((m.enqueue q p).schedulers q') := forall_setAt h (hg.addTask _ _ _ (h q))

theorem grants_charge (hg : GrantsAtLeast δ P) (h : ∀ q, P (m.schedulers q)) :
    ∀ q', P ((m.charge q c p).schedulers q') := forall_setAt h (hg.onCpuUsed _ _ _ _ (h q))

theorem grants_yieldCore (hg : GrantsAtLeast δ P) (h : ∀ q, P (m.schedulers q)) :
    ∀ q', P ((m.yieldCore q c p).schedulers q') :=
  forall_setAt (grants_charge hg h) (hg.addTask _ _ _ (grants_charge hg h q))

theorem grants_settle (hg : GrantsAtLeast δ P) (h : ∀ q, P (m.schedulers q)) :
    ∀ q', P ((m.settle q c p).schedulers q') := by
  rw [settle_eq]
  split
  · exact grants_charge hg h
  · exact grants_yieldCore hg h

theorem grants_removeReady (hg : GrantsAtLeast δ P) (h : ∀ q, P (m.schedulers q)) :
    ∀ q', P ((m.removeReady q p).schedulers q') := forall_setAt h (hg.removeTask _ _ _ (h q))

theorem grants_migrate (hg : GrantsAtLeast δ P) (h : ∀ q, P (m.schedulers q)) :
    ∀ q', P ((m.migrate b q p).schedulers q') :=
  forall_setAt (grants_removeReady hg h) (hg.addTask _ _ _ (grants_removeReady hg h q))

theorem Next.grants (hn : Next cfg slot c m m') (hg : GrantsAtLeast δ P)
    (h : ∀ q, P (m.schedulers q)) : ∀ q, P (m'.schedulers q) := by
  cases hn with
  | idle => exact h
  | own => exact grants_removeReady hg h
  | steal => exact grants_removeReady hg (grants_migrate hg h)

theorem Move.grants (hm : Move cfg slot m e m') (hg : GrantsAtLeast δ P)
    (h : ∀ q, P (m.schedulers q)) : ∀ q, P (m'.schedulers q) := by
  have hpop : ∀ q, P ((m.pop e).schedulers q) := h
  cases hm with
  | skip => exact hpop
  | queued => exact grants_enqueue hg hpop
  | woken _ _ hn => exact hn.grants hg (grants_enqueue hg hpop)
  | preempted _ _ _ _ hn => exact hn.grants hg (grants_yieldCore hg (grants_enqueue hg hpop))
  | expired _ _ hn => exact hn.grants hg (grants_settle hg hpop)

end Grants

end Machine

/-! ## The single-queue simulator -/

namespace Simulator

open Machine

variable {σ : Type} [Scheduler σ] [LawfulScheduler σ] {n : ℕ} {cfg : SimConfig}

/-- One scheduler serves every core. -/
def slot : Fin n → Unit := fun _ => ()

theorem next_dispatchNext (s : Simulator σ n) (c : Fin n) :
    Next cfg slot c s (dispatchNext cfg s c) := by
  rw [dispatchNext]
  split
  next hcount => exact .idle (readyCount_eq_zero.1 hcount)
  next =>
    split
    next hs =>
      refine .idle (schedule_none (s.schedulers ()) s.heap ?_)
      rw [hs]
    next p timeSlice hs => exact .own hs

/-- Every turn of the single-queue simulator is a step of the machine. -/
theorem step_machine {s s' : Simulator σ n} {e : Event n} (h : Step cfg s e s') :
    Machine.Step cfg slot s e s' := by
  obtain ⟨hnext, hstop, rfl⟩ := h
  refine ⟨hnext, hstop, ?_⟩
  rw [handle]
  split
  next harr =>
    simp only [handleArrival]
    split
    next c hidle =>
      have hnone : s.runningTasks c = none := by simpa using List.find?_some hidle
      exact .woken harr hnone (next_dispatchNext _ c)
    next hidle =>
      have hbusy : ∀ c, s.runningTasks c ≠ none := by
        intro c hc
        have := List.find?_eq_none.1 hidle c (List.mem_finRange c)
        simp [hc] at this
      split
      next c hpre =>
        have hshould := List.find?_some hpre
        obtain ⟨p, hp⟩ := Option.ne_none_iff_exists'.1 (hbusy c)
        have hrun : ((s.pop e).enqueue () e.task).runningTasks c = some p := hp
        rw [hrun] at hshould
        refine .preempted harr hp (fun c' _ => hbusy c') hshould ?_
        rw [preemptCore, preemptCore_eq hrun]
        exact next_dispatchNext _ c
      next => exact .queued harr fun c _ => hbusy c
  next hslice =>
    rw [handleTimeSlice]
    split
    next hrun =>
      refine .skip (by simp [hslice]) fun _ => ?_
      rw [show s.runningTasks e.coreId = none from hrun]
      simp
    next p hrun =>
      have hp : s.runningTasks e.coreId = some p := hrun
      split
      next hne =>
        refine .skip (by simp [hslice]) fun _ => ?_
        rw [hp]
        simpa using hne
      next heq =>
        rw [not_not] at heq
        subst heq
        exact .expired hslice hp (next_dispatchNext _ _)
  next hna hnt => exact .skip hna fun h => absurd h hnt

end Simulator

/-! ## The multi-queue simulator -/

namespace MultiCoreSimulator

open Machine

variable {σ : Type} [Scheduler σ] [LawfulScheduler σ] {n : ℕ} {cfg : MultiConfig}

/-- Every core has a scheduler of its own. -/
def slot : Fin n → Fin n := id

/-- The busiest core is another core, and it has at least two ready tasks. -/
theorem busiestCore_spec {s : MultiCoreSimulator σ n} {c b : Fin n}
    (h : s.busiestCore c = some b) : b ≠ c ∧ 1 < (s.ready b).length := by
  have key : ∀ (l : List (Fin n)) (best : Option (Fin n) × ℕ), 1 ≤ best.2 →
      (∀ b, best.1 = some b → b ≠ c ∧ 1 < (s.ready b).length) →
      ∀ b, (l.foldl (fun (best : Option (Fin n) × ℕ) d =>
        if d = c then best
        else if best.2 < readyCount (s.schedulers d) then (some d, readyCount (s.schedulers d))
        else best) best).1 = some b → b ≠ c ∧ 1 < (s.ready b).length := by
    intro l
    induction l with
    | nil => intro best _ hb b; exact hb b
    | cons d l ih =>
      intro best hone hb
      rw [List.foldl_cons]
      split
      next => exact ih best hone hb
      next hne =>
        split
        next hlt =>
          refine ih _ (hone.trans hlt.le) ?_
          intro b hbd
          cases hbd
          rw [readyCount_eq] at hlt
          exact ⟨hne, hone.trans_lt hlt⟩
        next => exact ih best hone hb
  exact key _ (none, 1) le_rfl (by simp) b h

/-- Stealing either dispatches a task or changes nothing. -/
theorem tryWorkSteal_spec {s : MultiCoreSimulator σ n} {c : Fin n} (hempty : s.ready c = []) :
    tryWorkSteal cfg s c = (false, s) ∨ ∃ s', tryWorkSteal cfg s c = (true, s') ∧
      Next cfg.toSimConfig slot c s.toMachine s'.toMachine := by
  rw [tryWorkSteal]
  cases hb : s.busiestCore c with
  | none => exact .inl rfl
  | some b =>
    obtain ⟨hne, hlen⟩ := busiestCore_spec hb
    dsimp only
    split
    next => exact .inl rfl
    next stolen x hs =>
      have hstolen : (schedule (s.schedulers b) s.heap).task = some stolen := by rw [hs]
      split
      next x hs' =>
        -- the own queue holds the stolen task, so it cannot come out empty
        have hnil := schedule_none ((s.migrate b c stolen).schedulers c) _
          (congrArg ScheduleDecision.task hs')
        have hmem : stolen ∈ (s.migrate b c stolen).ready c :=
          mem_ready_migrate.2 (.inl ⟨rfl, rfl⟩)
        rw [ready, hnil] at hmem
        cases hmem
      next p timeSlice hs' => exact .inr ⟨_, rfl, .steal hne hempty hlen hstolen hs'⟩

theorem next_stealOrIdle {s : MultiCoreSimulator σ n} {c : Fin n} (hempty : s.ready c = []) :
    Next cfg.toSimConfig slot c s.toMachine (stealOrIdle cfg s c).toMachine := by
  have hidle : Next cfg.toSimConfig slot c s.toMachine (s.clearCore c) := .idle hempty
  rw [stealOrIdle]
  split
  next =>
    rcases tryWorkSteal_spec hempty with h | ⟨s', h, hnext⟩
    · rw [h]
      exact hidle
    · rw [h]
      exact hnext
  next => exact hidle

theorem next_dispatchNext {s : MultiCoreSimulator σ n} {m : Machine σ (Fin n) n} {c : Fin n}
    (hm : s.toMachine = m) :
    Next cfg.toSimConfig slot c m (dispatchNext cfg s c).toMachine := by
  subst hm
  rw [dispatchNext]
  split
  next =>
    split
    next p timeSlice hs => exact .own hs
    next x hs =>
      refine next_stealOrIdle (schedule_none (s.schedulers c) s.heap ?_)
      rw [hs]
  next hcount =>
    refine next_stealOrIdle (readyCount_eq_zero.1 ?_)
    omega

/-- Every turn of the multi-queue simulator is a step of the machine. -/
theorem step_machine [NeZero n] {s s' : MultiCoreSimulator σ n} {e : Event n}
    (h : Step cfg s e s') :
    Machine.Step cfg.toSimConfig slot s.toMachine e s'.toMachine := by
  obtain ⟨hnext, hstop, rfl⟩ := h
  refine ⟨hnext, hstop, ?_⟩
  rw [handle]
  split
  next harr =>
    simp only [handleArrival]
    split
    next hidle => exact .woken harr hidle (next_dispatchNext rfl)
    next cur hcur =>
      have hbusy : ∀ {target : Fin n} {cur}, s.runningTasks target = some cur →
          ∀ c', slot c' = slot target → s.runningTasks c' ≠ none := by
        intro target cur h c' hc'
        obtain rfl : c' = target := hc'
        simp [h]
      split
      next hshould =>
        refine .preempted harr hcur (hbusy hcur) hshould ?_
        exact next_dispatchNext (Machine.preemptCore_eq hcur)
      next => exact .queued harr (hbusy hcur)
  next hslice =>
    rw [handleTimeSlice]
    split
    next hrun =>
      refine .skip (by simp [hslice]) fun _ => ?_
      rw [show s.runningTasks e.coreId = none from hrun]
      simp
    next p hrun =>
      have hp : s.runningTasks e.coreId = some p := hrun
      split
      next hne =>
        refine .skip (by simp [hslice]) fun _ => ?_
        rw [hp]
        simpa using hne
      next heq =>
        rw [not_not] at heq
        subst heq
        exact .expired hslice hp (next_dispatchNext rfl)
  next hna hnt => exact .skip hna fun h => absurd h hnt

end MultiCoreSimulator

end SchedSim
