import SchedSim.CoreTurns
import SchedSim.WorkConserving

/-!
# An idle core next to a backlog

A core steals at the end of its own slices, and never when a task arrives at
some other core.  So whether a core can stay idle while another one has work to
give away depends on where the balancer sends new tasks.

* `MultiCoreSimulator.NoBacklog` — while a core is idle, no queue holds two tasks.
* `Turn.noBacklog` — only the arrival of a task at a busy core with a queue, while
  some core is idle, can break this.
* `MultiCoreSimulator.leastLoaded_idleCore` — the least-loaded balancer never
  sends a task there.
* `MultiCoreSimulator.roundRobin_noBacklog` and `roundRobin_noBacklog_false` — the
  round-robin balancer may.
-/

namespace SchedSim

namespace MultiCoreSimulator

open Machine

variable {σ : Type} [Scheduler σ] [LawfulScheduler σ] {n : ℕ} {cfg : MultiConfig}
  {s s' : MultiCoreSimulator σ n} {c d : Fin n} {e : Event n} {p : TaskPtr}

/-- While a core is idle, no ready queue holds two tasks. -/
def NoBacklog (s : MultiCoreSimulator σ n) : Prop :=
  ∀ d, s.runningTasks d = none → ∀ b, (s.ready b).length ≤ 1

/-! ## What a turn does to the queues -/

/-- `dispatch_next` on a core keeps `NoBacklog`, if before it at most the core's
own queue was too long, and by one task. -/
theorem Resumes.noBacklog (h : Resumes cfg c s s') (hws : cfg.enableWorkStealing = true)
    (hother : ∀ d, d ≠ c → s.runningTasks d = none → ∀ b, b ≠ c → (s.ready b).length ≤ 1)
    (hown : ∀ d, d ≠ c → s.runningTasks d = none → (s.ready c).length ≤ 2) :
    s'.NoBacklog := by
  intro d hd b
  cases h with
  | @own p x hs =>
    have hdc : d ≠ c := by
      rintro rfl
      simp at hd
    have hidle : s.runningTasks d = none := by simpa [hdc] using hd
    show ((s.dispatch cfg.toSimConfig c c p x).ready b).length ≤ 1
    rw [ready_dispatch]
    by_cases hb : b = c
    · subst hb
      have hp : p ∈ s.ready b := schedule_mem _ s.heap p (by rw [hs])
      have hlt := length_ready_removeReady_lt hp
      have hle := hown d hdc hidle
      omega
    · rw [ready_removeReady, if_neg hb]
      exact hother d hdc hidle b hb
  | @steal b' stolen p x hempty _ hb' =>
    have hdc : d ≠ c := by
      rintro rfl
      simp at hd
    have hidle : s.runningTasks d = none := by simpa [hdc] using hd
    -- there is something to steal, so no other core is idle
    obtain ⟨hne, hlen⟩ := busiestCore_spec hb'
    have := hother d hdc hidle b' hne
    omega
  | idle hempty hnone =>
    by_cases hb : b = c
    · subst hb
      show (s.ready b).length ≤ 1
      rw [hempty]
      exact Nat.zero_le 1
    · exact busiestCore_eq_none (hnone hws) hb

/-- The end of a slice adds at most its task to the queue of the core. -/
theorem length_ready_expire (s : MultiCoreSimulator σ n) (e : Event n) (b : Fin n) :
    ((s.expire e).ready b).length ≤ (s.ready b).length + if b = e.coreId then 1 else 0 := by
  show (((s.pop e).settle e.coreId e.coreId e.task).ready b).length ≤ _
  rw [settle_eq]
  split
  · rw [ready_finish, length_ready_charge]
    exact Nat.le_add_right _ _
  · rw [length_ready_yieldCore]
    exact le_rfl

/-- The new task is assigned to a busy core with a queue while some core is idle. -/
structure JoinsBacklog [NeZero n] (s : MultiCoreSimulator σ n) (e : Event n) : Prop where
  arrival : e.type = .arrival
  busy : s.runningTasks s.target ≠ none
  queue : s.ready s.target ≠ []
  idle : ∃ d, s.runningTasks d = none

variable [NeZero n]

/-- Only the arrival of a task at a backlog breaks `NoBacklog`. -/
theorem Turn.noBacklog (h : Turn cfg s e s') (hws : cfg.enableWorkStealing = true)
    (hempty : IdleEmpty slot s.toMachine) (hjoin : ¬ s.JoinsBacklog e) (hs : s.NoBacklog) :
    s'.NoBacklog := by
  have hreceive : ∀ b, ((s.receive e).ready b).length
      = (s.ready b).length + if b = s.target then 1 else 0 := fun b =>
    length_ready_enqueue (m := s.pop e)
  -- a busy core gets a task only if its queue is empty or no core is idle
  have hbusy : e.type = .arrival → s.runningTasks s.target ≠ none →
      ∀ d, s.runningTasks d = none → (s.ready s.target).length = 0 := by
    intro harr hrun d hd
    by_contra hne
    exact hjoin ⟨harr, hrun, fun hnil => hne (by rw [hnil]; rfl), d, hd⟩
  cases h with
  | skip => exact hs
  | queued harr hrun =>
    intro d hd b
    rw [hreceive]
    split
    next hb =>
      rw [hb, hbusy harr (by simp [hrun]) d hd]
    next => exact hs d hd b
  | woken harr hrun hres =>
    refine hres.noBacklog hws (fun d _ hd b hb => ?_) fun d _ hd => ?_
    · rw [hreceive, if_neg hb]
      exact hs d hd b
    · have hnil : s.ready s.target = [] := hempty s.target hrun
      rw [hreceive, if_pos rfl, hnil]
      exact Nat.le_succ 1
  | @preempted p _ harr hrun _ hres =>
    have hlen : ∀ b, (((s.receive e).displace s.target p).ready b).length
        = (s.ready b).length + (if b = s.target then 1 else 0) + if b = s.target then 1 else 0 := by
      intro b
      rw [← hreceive]
      exact length_ready_yieldCore (m := (s.receive e).toMachine)
    have hidle : ∀ d, d ≠ s.target →
        ((s.receive e).displace s.target p).runningTasks d = none → s.runningTasks d = none := by
      intro d hdc hd
      change setAt s.runningTasks s.target none d = none at hd
      rwa [setAt_of_ne _ _ _ hdc] at hd
    refine hres.noBacklog hws (fun d hdc hd b hb => ?_) fun d hdc hd => ?_
    · rw [hlen, if_neg hb]
      exact hs d (hidle d hdc hd) b
    · rw [hlen, if_pos rfl, hbusy harr (by simp [hrun]) d (hidle d hdc hd)]
  | expired hts hrun hres =>
    have hidle : ∀ d, d ≠ e.coreId → (s.expire e).runningTasks d = none →
        s.runningTasks d = none := by
      intro d hdc hd
      change ((s.pop e).settle e.coreId e.coreId e.task).runningTasks d = none at hd
      rwa [settle_runningTasks, setAt_of_ne _ _ _ hdc] at hd
    refine hres.noBacklog hws (fun d hdc hd b hb => ?_) fun d hdc hd => ?_
    · have hle := length_ready_expire s e b
      rw [if_neg hb] at hle
      exact hle.trans (hs d (hidle d hdc hd) b)
    · have hle := length_ready_expire s e e.coreId
      rw [if_pos rfl] at hle
      have := hs d (hidle d hdc hd) e.coreId
      omega

/-! ## Runs -/

variable {scheduler : σ} {balancer : LoadBalancer} {w : Workload}

theorem idleEmpty_of_reachable {r : MultiCoreSimulator σ n → Event n →
    MultiCoreSimulator σ n → Prop}
    (hr : ∀ s e s', r s e s' → Step cfg s e s') (hempty : readyTasks scheduler = [])
    (h : Lts.Reachable r (init scheduler balancer w) s) : IdleEmpty slot s.toMachine :=
  Machine.idleEmpty_of_reachable (fun _ => hempty)
    (h.simulate (f := toMachine) fun s e s' hstep => step_machine (hr s e s' hstep))

/-- A run in which no task joins a backlog has none. -/
theorem noBacklog_of_reachable (hws : cfg.enableWorkStealing = true)
    (hempty : readyTasks scheduler = [])
    (h : Lts.Reachable (fun s e s' => Step cfg s e s' ∧ ¬ s.JoinsBacklog e)
      (init scheduler balancer w) s) : s.NoBacklog := by
  refine h.induction (I := NoBacklog) ?_ ?_
  · intro d _ b
    show (readyTasks scheduler).length ≤ 1
    rw [hempty]
    exact Nat.zero_le 1
  · intro s e t hs hm hstep
    exact (turn_of_step hstep.1).noBacklog hws
      (idleEmpty_of_reachable (fun _ _ _ h => h.1) hempty hs) hstep.2 hm

/-! ## Least-loaded balancing -/

/-- The least-loaded balancer sends a task to an idle core if there is one. -/
theorem target_idle (hbal : s.balancer = .leastLoaded) (hempty : IdleEmpty slot s.toMachine)
    (hd : s.runningTasks d = none) : s.runningTasks s.target = none := by
  have htarget : s.target = ((List.finRange n).argmin
      (LoadBalancer.load (fun c => readyCount (s.schedulers c)) s.runningTasks)).getD 0 := by
    rw [target, hbal, LoadBalancer.assign]
  cases hmin : (List.finRange n).argmin
      (LoadBalancer.load (fun c => readyCount (s.schedulers c)) s.runningTasks) with
  | none =>
    rw [List.argmin_eq_none] at hmin
    exact absurd (List.mem_finRange d) (by simp [hmin])
  | some c =>
    rw [hmin] at htarget
    have hle := List.le_of_mem_argmin (List.mem_finRange d) hmin
    have hload : LoadBalancer.load (fun c => readyCount (s.schedulers c)) s.runningTasks d = 0 := by
      have hzero : readyCount (s.schedulers d) = 0 := readyCount_eq_zero.2 (hempty d hd)
      rw [LoadBalancer.load, hd, hzero]
      rfl
    rw [hload, LoadBalancer.load] at hle
    rw [htarget]
    show s.runningTasks c = none
    cases hrun : s.runningTasks c with
    | none => rfl
    | some p =>
      rw [hrun] at hle
      simp at hle

omit [LawfulScheduler σ] in
theorem balancer_of_turn (h : Turn cfg s e s') (hbal : s.balancer = .leastLoaded) :
    s'.balancer = .leastLoaded := by
  have hreceive : (s.receive e).balancer = .leastLoaded := by
    rw [receive, hbal, LoadBalancer.assign]
  cases h with
  | skip => exact hbal
  | queued => exact hreceive
  | woken _ _ hres => cases hres <;> exact hreceive
  | preempted _ _ _ hres => cases hres <;> exact hreceive
  | expired _ _ hres => cases hres <;> exact hbal

theorem balancer_of_reachable (h : Lts.Reachable (Step cfg) (init scheduler .leastLoaded w) s) :
    s.balancer = .leastLoaded := by
  refine h.induction (I := fun s => s.balancer = .leastLoaded) rfl ?_
  intro s e t _ hm hstep
  exact balancer_of_turn (turn_of_step hstep) hm

/-- **Least-loaded balancing with stealing keeps idle cores justified**: while a
core is idle, its own queue is empty and every queue holds at most one task. -/
theorem leastLoaded_idleCore (kind : SchedulerKind) (w : Workload) (cfg : MultiConfig)
    (hws : cfg.enableWorkStealing = true) (s : MultiCoreSimulator kind.State n)
    (hs : Lts.Reachable (Step cfg) (init kind.make .leastLoaded w) s) (c : Fin n)
    (hidle : s.runningTasks c = none) :
    readyCount (s.schedulers c) = 0 ∧ ∀ d, readyCount (s.schedulers d) ≤ 1 := by
  obtain ⟨es, hrun⟩ := hs
  have hempty := idleEmpty_of_reachable (fun _ _ _ h => h) kind.readyTasks_make hrun.reachable
  have hjoins : Lts.Reachable (fun s e s' => Step cfg s e s' ∧ ¬ s.JoinsBacklog e)
      (init kind.make .leastLoaded w) s := by
    refine (hrun.restrict .refl fun t e u ht hstep => ⟨hstep, ?_⟩).reachable
    rintro ⟨-, hbusy, -, d, hd⟩
    exact hbusy (target_idle (balancer_of_reachable ht)
      (idleEmpty_of_reachable (fun _ _ _ h => h) kind.readyTasks_make ht) hd)
  refine ⟨readyCount_eq_zero.2 (hempty c hidle), fun d => ?_⟩
  rw [readyCount_eq]
  exact noBacklog_of_reachable hws kind.readyTasks_make hjoins c hidle d

/-- Core 1 has finished its only task; core 0 is busy, and task 2 waits in its queue. -/
theorem leastLoaded_idleCore_two :
    let cfg : MultiConfig := { stopTime := 50 }
    let s := MultiCoreSimulator.turns (n := 2) cfg 4 (init (SchedulerKind.stride {}).make
      .leastLoaded (.ofList [⟨0, 0, 100, 0⟩, ⟨1, 0, 1, 0⟩, ⟨2, 1 / 2, 10, 0⟩]))
    s.ready 0 = [2] ∧ readyCount (s.schedulers 1) = 0 ∧ ∀ d, readyCount (s.schedulers d) ≤ 1 :=
  ⟨by decide +kernel,
    leastLoaded_idleCore (.stride {}) _ _ rfl _ (reachable_turns _ 4 _) 1 (by decide +kernel)⟩

/-! ## Round-robin balancing -/

/-- **Round-robin balancing with stealing leaves no idle core next to a backlog**,
in every run in which the balancer sends no task to a busy core with a queue while
some core is idle. -/
theorem roundRobin_noBacklog (kind : SchedulerKind) (w : Workload) (cfg : MultiConfig)
    (hws : cfg.enableWorkStealing = true) (s : MultiCoreSimulator kind.State n)
    (hs : Lts.Reachable (fun s e s' => Step cfg s e s' ∧ ¬ s.JoinsBacklog e)
      (init kind.make (.roundRobin 0) w) s) (c d : Fin n)
    (hidle : s.runningTasks c = none) : readyCount (s.schedulers d) < 2 := by
  rw [readyCount_eq]
  exact Nat.lt_succ_of_le (noBacklog_of_reachable hws kind.readyTasks_make hs c hidle d)

instance (s : MultiCoreSimulator σ n) (e : Event n) : Decidable (s.JoinsBacklog e) :=
  decidable_of_iff (e.type = .arrival ∧ s.runningTasks s.target ≠ none ∧ s.ready s.target ≠ [] ∧
    ∃ d, s.runningTasks d = none) ⟨fun ⟨h₁, h₂, h₃, h₄⟩ => ⟨h₁, h₂, h₃, h₄⟩,
      fun h => ⟨h.1, h.2, h.3, h.4⟩⟩

/-- Task 4 joins the queue of core 0 behind task 2 while both cores are busy.  Core 1 steals task 2
when it has nothing else to do, finishes it, and is idle beside the queue of core 0. -/
theorem roundRobin_noBacklog_steal :
    let cfg : MultiConfig := { stopTime := 50 }
    let s := MultiCoreSimulator.turns (n := 2) cfg 8 (init (SchedulerKind.stride {}).make
      (.roundRobin 0) (.ofList
        [⟨0, 0, 100, 0⟩, ⟨1, 0, 3, 0⟩, ⟨2, 1, 1 / 2, 0⟩, ⟨3, 3 / 2, 1, 0⟩, ⟨4, 2, 10, 0⟩]))
    s.workSteals = 1 ∧ s.runningTasks 1 = none ∧ s.ready 0 = [4] ∧
      readyCount (s.schedulers 0) < 2 := by
  intro cfg s
  refine ⟨by decide +kernel, by decide +kernel, by decide +kernel, ?_⟩
  exact roundRobin_noBacklog (.stride {}) _ cfg rfl s
    (reachable_turns_of cfg 8 _ (by decide +kernel)) 1 0 (by decide +kernel)

/-- **Otherwise it may.**  Core 1 finishes its second task at 3.5 and finds only
one task to steal; the task that arrives at 4 is the second one in the queue of
core 0, and nobody wakes core 1. -/
theorem roundRobin_noBacklog_false :
    let cfg : MultiConfig := { stopTime := 50 }
    let w := Workload.ofList
      [⟨0, 0, 100, 0⟩, ⟨1, 0, 1, 0⟩, ⟨2, 2, 10, 0⟩, ⟨3, 3, 1 / 2, 0⟩, ⟨4, 4, 10, 0⟩]
    ¬ ∀ s : MultiCoreSimulator (SchedulerKind.stride {}).State 2,
      Lts.Reachable (Step cfg) (init (SchedulerKind.stride {}).make (.roundRobin 0) w) s →
      ∀ c d, s.runningTasks c = none → d ≠ c → readyCount (s.schedulers d) < 2 := by
  intro cfg w h
  have := h _ (reachable_turns cfg 7 _) 1 0 (by decide +kernel) (by decide)
  exact absurd this (by decide +kernel)

end MultiCoreSimulator

end SchedSim
