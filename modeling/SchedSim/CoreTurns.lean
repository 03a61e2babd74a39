import SchedSim.Moves

/-!
# Every turn of the multi-queue simulator

`Machine.Move` says what either simulator can do.  What only the multi-queue
simulator does — which core the balancer chooses, when a core steals and from
whom, when a new task has to wait — is said here, again once and for all.

* `MultiCoreSimulator.busiestCore_eq_none` — when there is nobody to steal from.
* `MultiCoreSimulator.Resumes` — the outcomes of `dispatch_next` on a core.
* `MultiCoreSimulator.Turn` — the outcomes of handling an event.
* `MultiCoreSimulator.turn_of_step` — a turn of the loop has one of these.
-/

namespace SchedSim

namespace MultiCoreSimulator

open Machine

variable {σ : Type} [Scheduler σ] {n : ℕ} {cfg : MultiConfig} {s s' : MultiCoreSimulator σ n}
  {c : Fin n} {e : Event n}

/-! ## Nobody to steal from -/

/-- No other core has two ready tasks when no core is the busiest one. -/
theorem busiestCore_eq_none [LawfulScheduler σ] (h : s.busiestCore c = none) {b : Fin n}
    (hb : b ≠ c) : (s.ready b).length ≤ 1 := by
  have key : ∀ (l : List (Fin n)) (best : Option (Fin n) × ℕ),
      (l.foldl (fun (best : Option (Fin n) × ℕ) d =>
        if d = c then best
        else if best.2 < readyCount (s.schedulers d) then (some d, readyCount (s.schedulers d))
        else best) best).1 = none →
      best.1 = none ∧ ∀ d ∈ l, d ≠ c → readyCount (s.schedulers d) ≤ best.2 := by
    intro l
    induction l with
    | nil => intro best hnone; exact ⟨hnone, by simp⟩
    | cons d l ih =>
      intro best hnone
      rw [List.foldl_cons] at hnone
      obtain ⟨hbest, hrest⟩ := ih _ hnone
      by_cases hd : d = c
      · rw [if_pos hd] at hbest hrest
        refine ⟨hbest, fun x hx hxc => ?_⟩
        rcases List.mem_cons.1 hx with rfl | hx
        · exact absurd hd hxc
        · exact hrest x hx hxc
      · rw [if_neg hd] at hbest hrest
        split at hbest
        next => cases hbest
        next hle =>
          rw [if_neg hle] at hrest
          refine ⟨hbest, fun x hx hxc => ?_⟩
          rcases List.mem_cons.1 hx with rfl | hx
          · exact not_lt.1 hle
          · exact hrest x hx hxc
  have hcount := (key _ (none, 1) h).2 b (List.mem_finRange b) hb
  rwa [readyCount_eq] at hcount

/-- A lone core has nobody to steal from. -/
theorem busiestCore_of_subsingleton [Subsingleton (Fin n)] (s : MultiCoreSimulator σ n)
    (c : Fin n) : s.busiestCore c = none := by
  have key : ∀ (l : List (Fin n)) (best : Option (Fin n) × ℕ),
      l.foldl (fun (best : Option (Fin n) × ℕ) d =>
        if d = c then best
        else if best.2 < readyCount (s.schedulers d) then (some d, readyCount (s.schedulers d))
        else best) best = best := by
    intro l
    induction l with
    | nil => intro best; rfl
    | cons d l ih =>
      intro best
      rw [List.foldl_cons, if_pos (Subsingleton.elim d c)]
      exact ih best
  rw [busiestCore, key]

/-! ## The outcomes -/

/-- The outcomes of `dispatch_next` on a core.  A core steals only when it is
allowed to, its own queue is empty, and some other queue has two tasks. -/
inductive Resumes (cfg : MultiConfig) (c : Fin n) (s : MultiCoreSimulator σ n) :
    MultiCoreSimulator σ n → Prop
  | own {p : TaskPtr} {timeSlice : ℚ} :
      schedule (s.schedulers c) s.heap = ⟨some p, timeSlice⟩ →
      Resumes cfg c s { s with toMachine := s.dispatch cfg.toSimConfig c c p timeSlice }
  | steal {b : Fin n} {stolen p : TaskPtr} {timeSlice : ℚ} :
      s.ready c = [] → cfg.enableWorkStealing = true → s.busiestCore c = some b →
      (schedule (s.schedulers b) s.heap).task = some stolen →
      schedule ((s.migrate b c stolen).schedulers c) (s.migrate b c stolen).heap
        = ⟨some p, timeSlice⟩ →
      Resumes cfg c s { s with
        toMachine := (s.migrate b c stolen).dispatch cfg.toSimConfig c c p timeSlice
        workSteals := s.workSteals + 1 }
  | idle : s.ready c = [] → (cfg.enableWorkStealing = true → s.busiestCore c = none) →
      Resumes cfg c s { s with toMachine := s.clearCore c }

/-- The core the balancer chooses for the next task to arrive. -/
def target [NeZero n] (s : MultiCoreSimulator σ n) : Fin n :=
  (s.balancer.assign (fun c => readyCount (s.schedulers c)) s.runningTasks).1

/-- The new task stands in the queue of the core the balancer chose. -/
def receive [NeZero n] (s : MultiCoreSimulator σ n) (e : Event n) : MultiCoreSimulator σ n :=
  { s with
    toMachine := (s.pop e).enqueue s.target e.task
    balancer := (s.balancer.assign (fun c => readyCount (s.schedulers c)) s.runningTasks).2 }

/-- The task of a core has been charged and is back in the core's queue. -/
def displace (s : MultiCoreSimulator σ n) (c : Fin n) (p : TaskPtr) : MultiCoreSimulator σ n :=
  { s with toMachine := (s.yieldCore c c p).countSwitch }

/-- The slice of the task of a core is over. -/
def expire (s : MultiCoreSimulator σ n) (e : Event n) : MultiCoreSimulator σ n :=
  { s with toMachine := (s.pop e).settle e.coreId e.coreId e.task }

/-- The outcomes of handling an event. -/
inductive Turn [NeZero n] (cfg : MultiConfig) (s : MultiCoreSimulator σ n) (e : Event n) :
    MultiCoreSimulator σ n → Prop
  /-- The event is ignored. -/
  | skip : e.type ≠ .arrival →
      (e.type = .timeSlice → s.runningTasks e.coreId ≠ some e.task) →
      Turn cfg s e { s with toMachine := s.pop e }
  /-- The new task waits behind the task on its core. -/
  | queued {p : TaskPtr} : e.type = .arrival → s.runningTasks s.target = some p →
      shouldPreempt ((s.receive e).schedulers s.target) (s.receive e).heap e.task (some p) = false →
      Turn cfg s e (s.receive e)
  /-- The core was idle. -/
  | woken {s' : MultiCoreSimulator σ n} : e.type = .arrival →
      s.runningTasks s.target = none → Resumes cfg s.target (s.receive e) s' →
      Turn cfg s e s'
  /-- The new task interrupts the one on its core. -/
  | preempted {p : TaskPtr} {s' : MultiCoreSimulator σ n} : e.type = .arrival →
      s.runningTasks s.target = some p →
      shouldPreempt ((s.receive e).schedulers s.target) (s.receive e).heap e.task (some p) = true →
      Resumes cfg s.target ((s.receive e).displace s.target p) s' →
      Turn cfg s e s'
  /-- The slice of the task on the core is over. -/
  | expired {s' : MultiCoreSimulator σ n} : e.type = .timeSlice →
      s.runningTasks e.coreId = some e.task → Resumes cfg e.coreId (s.expire e) s' →
      Turn cfg s e s'

/-! ## A turn has one of these outcomes -/

variable [LawfulScheduler σ]

theorem Resumes.next (h : Resumes cfg c s s') :
    Next cfg.toSimConfig slot c s.toMachine s'.toMachine := by
  cases h with
  | own hs => exact .own hs
  | steal hempty _ hb hst hs =>
    obtain ⟨hne, hlen⟩ := busiestCore_spec hb
    exact .steal hne hempty hlen hst hs
  | idle hempty => exact .idle hempty

theorem resumes_stealOrIdle (hempty : s.ready c = []) :
    Resumes cfg c s (stealOrIdle cfg s c) := by
  rw [stealOrIdle]
  split
  next hws =>
    rw [tryWorkSteal]
    cases hb : s.busiestCore c with
    | none => exact .idle hempty fun _ => hb
    | some b =>
      obtain ⟨hne, hlen⟩ := busiestCore_spec hb
      dsimp only
      cases hs : schedule (s.schedulers b) s.heap with
      | mk task x =>
        cases task with
        | none =>
          -- the busiest core has two ready tasks, so it schedules one
          have hnil := schedule_none (s.schedulers b) s.heap (by rw [hs])
          rw [ready, hnil] at hlen
          cases hlen
        | some stolen =>
          dsimp only
          cases hs' : schedule ((s.migrate b c stolen).schedulers c)
            (s.migrate b c stolen).heap with
          | mk task y =>
            cases task with
            | none =>
              have hnil := schedule_none ((s.migrate b c stolen).schedulers c) _ (by rw [hs'])
              have hmem : stolen ∈ (s.migrate b c stolen).ready c :=
                mem_ready_migrate.2 (.inl ⟨rfl, rfl⟩)
              rw [ready, hnil] at hmem
              cases hmem
            | some p => exact .steal hempty hws hb (by rw [hs]) hs'
  next hws => exact .idle hempty fun h => absurd h hws

theorem resumes_dispatchNext (s : MultiCoreSimulator σ n) (c : Fin n) :
    Resumes cfg c s (dispatchNext cfg s c) := by
  rw [dispatchNext]
  split
  next =>
    split
    next p timeSlice hs => exact .own hs
    next x hs =>
      refine resumes_stealOrIdle (schedule_none (s.schedulers c) s.heap ?_)
      rw [hs]
  next hcount =>
    refine resumes_stealOrIdle (readyCount_eq_zero.1 ?_)
    omega

omit [LawfulScheduler σ] in
/-- An arrival wakes the core it is assigned to, or is compared with the task that runs there. -/
theorem handleArrival_receive [NeZero n] : handleArrival cfg { s with toMachine := s.pop e } e
    = match s.runningTasks s.target with
      | none => dispatchNext cfg (s.receive e) s.target
      | some cur =>
        if shouldPreempt ((s.receive e).schedulers s.target) (s.receive e).heap e.task
          (some cur) then
          dispatchNext cfg (preemptCore (s.receive e) s.target) s.target
        else s.receive e := rfl

/-- What handling an event does, in full. -/
theorem turn_of_step [NeZero n] (h : Step cfg s e s') : Turn cfg s e s' := by
  obtain ⟨-, -, rfl⟩ := h
  rw [handle]
  split
  next harr =>
    rw [handleArrival_receive]
    cases hrun : s.runningTasks s.target with
    | none => exact .woken harr hrun (resumes_dispatchNext _ _)
    | some p =>
      dsimp only
      have hcur : (s.receive e).runningTasks s.target = some p := hrun
      split
      next hshould =>
        refine .preempted harr hrun hshould ?_
        have heq : preemptCore (s.receive e) s.target = (s.receive e).displace s.target p := by
          rw [preemptCore, Machine.preemptCore_eq hcur, displace]
        rw [heq]
        exact resumes_dispatchNext _ _
      next hshould => exact .queued harr hrun (by simpa using hshould)
  next hslice =>
    rw [handleTimeSlice]
    split
    next hrun =>
      refine .skip (by simp [hslice]) fun _ => ?_
      rw [show s.runningTasks e.coreId = none from hrun]
      simp
    next p hrun =>
      have hp : s.runningTasks e.coreId = some p := hrun
      split
      next hne =>
        refine .skip (by simp [hslice]) fun _ => ?_
        rw [hp]
        simpa using hne
      next heq =>
        rw [not_not] at heq
        subst heq
        exact .expired hslice hp (resumes_dispatchNext _ _)
  next hna hnt => exact .skip hna fun h => absurd h hnt

end MultiCoreSimulator

end SchedSim
