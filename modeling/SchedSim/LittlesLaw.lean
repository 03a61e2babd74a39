import SchedSim.JainsFairness
import SchedSim.Utilization

/-!
# Little's law

How many tasks wait, run and are in the system changes with every event.  The areas under these
numbers, up to some instant, are the times that the tasks have spent waiting, running and in the
system by then.  So the means that `Metrics::calculate` reports and the throughput obey Little's
law.

* `Machine.recordAreas` — the areas, brought up to date before each event.
* `Move.sojourn`, `Move.dueTo` — an event changes none of the times at its own instant.
* `areas_eq` — in every run of either simulator the areas are sums over the tasks.
* `littlesLaw` — what follows for the reported metrics.
-/

namespace SchedSim

namespace Machine

variable {σ Q : Type} [Scheduler σ] [Fintype Q] {n : ℕ}

/-! ## Numbers of tasks, and the areas under them -/

/-- How many tasks there are in the ready queues -/
def numberWaiting (m : Machine σ Q n) : ℕ := ∑ q, (m.ready q).length

omit [Scheduler σ] [Fintype Q] in
/-- How many cores are busy -/
def numberRunning (m : Machine σ Q n) : ℕ :=
  (Finset.univ.filter fun c => (m.runningTasks c).isSome).card

/-- How many tasks have arrived and are not completed -/
def numberInSystem (m : Machine σ Q n) : ℕ := m.numberWaiting + m.numberRunning

/-- The areas under the three numbers -/
structure Areas where
  inSystem : ℚ := 0
  waiting : ℚ := 0
  running : ℚ := 0

/-- The areas up to an instant until which nothing happens -/
def Areas.upTo (a : Areas) (m : Machine σ Q n) (time : ℚ) : Areas where
  inSystem := a.inSystem + (time - m.currentTime) * m.numberInSystem
  waiting := a.waiting + (time - m.currentTime) * m.numberWaiting
  running := a.running + (time - m.currentTime) * m.numberRunning

/-- The areas up to the next event -/
def recordAreas (m : Machine σ Q n) (e : Event n) (a : Areas) : Areas := a.upTo m e.time

/-! ## Times of a task -/

omit [Scheduler σ] [Fintype Q] in
/-- How long the task has been in the system -/
def sojourn (m : Machine σ Q n) (p : TaskPtr) (time : ℚ) : ℚ :=
  if p ∈ m.events.arrivals then 0
  else if p ∈ m.completedTasks then (m.heap p).completionTime - (m.heap p).arrivalTime
  else time - (m.heap p).arrivalTime

/-- How long it has waited -/
def waited (m : Machine σ Q n) (p : TaskPtr) (time : ℚ) : ℚ :=
  (m.heap p).waitTime + if 0 < m.waiting p then time - (m.heap p).readyEnterTime else 0

omit [Scheduler σ] [Fintype Q] in
/-- How long it has run -/
def ran (m : Machine σ Q n) (p : TaskPtr) (time : ℚ) : ℚ :=
  (m.heap p).served + ∑ c, if m.runningTasks c = some p then time - m.lastEventTime c else 0

/-! ## Times pass at the rate of the numbers -/

section Rates

variable {m : Machine σ Q n} {p : TaskPtr}

omit [Scheduler σ] [Fintype Q] in
theorem ran_add (s t : ℚ) :
    m.ran p t = m.ran p s + (t - s) * (m.coresOf p).card := by
  have hterm : ∀ c, (if m.runningTasks c = some p then t - m.lastEventTime c else 0)
      = (if m.runningTasks c = some p then s - m.lastEventTime c else 0)
        + (t - s) * if m.runningTasks c = some p then 1 else 0 := by
    intro c
    split <;> ring
  rw [ran, ran, Finset.sum_congr rfl fun c _ => hterm c, Finset.sum_add_distrib,
    ← Finset.mul_sum, Finset.sum_boole]
  rw [coresOf]
  ring

theorem waiting_le_one (hone : m.places p ≤ 1) :
    m.waiting p = if 0 < m.waiting p then 1 else 0 := by
  rw [places] at hone
  split <;> omega

theorem waited_add (hone : m.places p ≤ 1) (s t : ℚ) :
    m.waited p t = m.waited p s + (t - s) * m.waiting p := by
  rw [waiting_le_one hone, waited, waited]
  split <;> push_cast <;> ring

theorem sojourn_add (hone : m.places p = 1) (s t : ℚ) :
    m.sojourn p t = m.sojourn p s + (t - s) * (m.waiting p + (m.coresOf p).card : ℕ) := by
  have harr : p ∈ m.events.arrivals ↔ 0 < m.events.arrivals.count p := List.count_pos_iff.symm
  have hcomp : p ∈ m.completedTasks ↔ 0 < m.completedTasks.count p := List.count_pos_iff.symm
  rw [places] at hone
  rw [sojourn, sojourn]
  split
  next h =>
    rw [harr] at h
    have hzero : m.waiting p + (m.coresOf p).card = 0 := by omega
    simp [hzero]
  next h =>
    rw [harr] at h
    split
    next h' =>
      rw [hcomp] at h'
      have hzero : m.waiting p + (m.coresOf p).card = 0 := by omega
      simp [hzero]
    next h' =>
      rw [hcomp] at h'
      have hlive : m.waiting p + (m.coresOf p).card = 1 := by omega
      rw [hlive]
      push_cast
      ring

/-- A task that does not wait has waited. -/
theorem waited_eq (h : m.waiting p = 0) (time : ℚ) : m.waited p time = (m.heap p).waitTime := by
  rw [waited, if_neg (by omega), add_zero]

omit [Scheduler σ] [Fintype Q] in
/-- A task on no core has been served. -/
theorem ran_eq (h : (m.coresOf p).card = 0) (time : ℚ) :
    m.ran p time = (m.heap p).served := by
  have hnone : ∀ c, m.runningTasks c ≠ some p := by
    intro c hc
    have : 0 < (m.coresOf p).card := Finset.card_pos.2 ⟨c, by simpa [coresOf] using hc⟩
    omega
  rw [ran, Finset.sum_eq_zero fun c _ => if_neg (hnone c), add_zero]

omit [Scheduler σ] [Fintype Q] in
theorem ran_eq_of_running (h : (m.coresOf p).card = 1) (time : ℚ) :
    ∃ c, m.runningTasks c = some p ∧
      m.ran p time = (m.heap p).served + (time - m.lastEventTime c) := by
  obtain ⟨c, hc⟩ := Finset.card_eq_one.1 h
  have hrun : ∀ d, m.runningTasks d = some p ↔ d = c := by
    intro d
    have hmem : d ∈ m.coresOf p ↔ d = c := by rw [hc, Finset.mem_singleton]
    rw [← hmem, coresOf, Finset.mem_filter]
    simp
  refine ⟨c, (hrun c).2 rfl, ?_⟩
  simp only [ran, hrun, Finset.sum_ite_eq', Finset.mem_univ, if_true]

/-- Nothing has happened to a task that has not arrived. -/
theorem times_of_pending (h : m.Booked p) (hone : m.places p ≤ 1)
    (hannounced : ∀ e ∈ m.events, e.type = .arrival → e.time = (m.heap e.task).arrivalTime)
    (hp : p ∈ m.events.arrivals) (time : ℚ) :
    m.sojourn p time = 0 ∧ m.waited p time = 0 ∧ m.ran p time = 0 := by
  obtain ⟨e, he, ht, rfl⟩ := EventQueue.mem_arrivals.1 hp
  have hbalanced := h.arrival e he ht rfl
  have hsum := hbalanced.booked
  have hserved := hbalanced.served
  have hwaited := hbalanced.waited
  have hcount : 0 < m.events.arrivals.count e.task := List.count_pos_iff.2 hp
  rw [Task.booked, hannounced e he ht] at hsum
  rw [places] at hone
  refine ⟨if_pos hp, ?_, ?_⟩
  · rw [waited_eq (by omega)]
    linarith
  · rw [ran_eq (by omega)]
    linarith

/-- The times of a completed task are final. -/
theorem times_of_completed (hone : m.places p ≤ 1) (hp : p ∈ m.completedTasks) (time : ℚ) :
    m.sojourn p time = (m.heap p).completionTime - (m.heap p).arrivalTime ∧
      m.waited p time = (m.heap p).waitTime ∧ m.ran p time = (m.heap p).served := by
  have hcount : 0 < m.completedTasks.count p := List.count_pos_iff.2 hp
  have harr : p ∉ m.events.arrivals := by
    intro harr
    have := List.count_pos_iff.2 harr
    rw [places] at hone
    omega
  rw [places] at hone
  exact ⟨by rw [sojourn, if_neg harr, if_pos hp], waited_eq (by omega) time,
    ran_eq (by omega) time⟩

/-- A task in the system waits or runs. -/
theorem sojourn_eq (h : m.Books) (hone : m.places p = 1)
    (hannounced : ∀ e ∈ m.events, e.type = .arrival → e.time = (m.heap e.task).arrivalTime)
    (time : ℚ) : m.sojourn p time = m.waited p time + m.ran p time := by
  have hbooked := h.booked p
  by_cases harr : p ∈ m.events.arrivals
  · obtain ⟨hsojourn, hwaited, hcpu⟩ := times_of_pending hbooked hone.le hannounced harr time
    rw [hsojourn, hwaited, hcpu, add_zero]
  by_cases hdone : p ∈ m.completedTasks
  · obtain ⟨hsojourn, hwaited, hcpu⟩ := times_of_completed hone.le hdone time
    have hbalanced := (hbooked.completed hdone).balanced.booked
    rw [Task.booked] at hbalanced
    rw [hsojourn, hwaited, hcpu]
    linarith
  have hcount : m.events.arrivals.count p = 0 := List.count_eq_zero.2 harr
  have hcount' : m.completedTasks.count p = 0 := List.count_eq_zero.2 hdone
  rw [places] at hone
  rw [sojourn, if_neg harr, if_neg hdone]
  by_cases hwait : 0 < m.waiting p
  · obtain ⟨q, hq⟩ := waiting_pos.1 hwait
    have hbalanced := (hbooked.waiting q hq).balanced.booked
    rw [Task.booked] at hbalanced
    rw [waited, if_pos hwait, ran_eq (by omega)]
    linarith
  · obtain ⟨c, hc, hcpu⟩ := ran_eq_of_running (m := m) (p := p) (by omega) time
    have hbalanced := (hbooked.running c hc).balanced.booked
    rw [Task.booked] at hbalanced
    rw [waited_eq (by omega), hcpu]
    linarith

end Rates

/-! ## An event changes no time at its own instant -/

section Events

variable [DecidableEq Q] [LawfulScheduler σ] {m m' : Machine σ Q n} {e : Event n} {q : Q}
  {c : Fin n} {p r : TaskPtr} {cfg : SimConfig} {slot : Fin n → Q} {x : ℚ}

omit [Fintype Q] in
/-- A task is completed at the instant of the event, out of the core it concerns. -/
theorem Move.finished_cases (h : Move cfg slot m e m') (p : TaskPtr) :
    ((p ∈ m'.completedTasks → p ∈ m.completedTasks) ∧
        (m'.heap p).completionTime = (m.heap p).completionTime) ∨
      (m.runningTasks e.coreId = some p ∧ p ∈ m'.completedTasks ∧
        (m'.heap p).completionTime = e.time) := by
  rcases h.completed_cases p with hsame | ⟨hts, rfl, hcomp, hnow⟩
  · exact .inl hsame
  · cases h with
    | skip => exact .inl ⟨id, rfl⟩
    | queued harr => simp [hts] at harr
    | woken harr => simp [hts] at harr
    | preempted harr => simp [hts] at harr
    | expired _ hrun => exact .inr ⟨hrun, hcomp, hnow⟩

theorem Move.sojourn (h : Move cfg slot m e m') (he : e ∈ m.events) (hone : m.places p = 1)
    (hannounced : ∀ e ∈ m.events, e.type = .arrival → e.time = (m.heap e.task).arrivalTime) :
    m'.sojourn p e.time = m.sojourn p e.time := by
  have harrival : (m'.heap p).arrivalTime = (m.heap p).arrivalTime :=
    congrArg (fun f => f.1.arrivalTime) (h.fixed p)
  have hcount := EventQueue.count_arrivals_erase m.events he p
  have hpending : ∀ l : List TaskPtr, p ∈ l ↔ 0 < l.count p := fun l => List.count_pos_iff.symm
  rw [places] at hone
  rw [Machine.sojourn, Machine.sojourn, h.arrivals, harrival]
  by_cases hlater : p ∈ EventQueue.arrivals (m.events.erase e)
  · have hstill : p ∈ m.events.arrivals := by
      rw [hpending] at hlater ⊢
      omega
    rw [if_pos hlater, if_pos hstill]
  rw [if_neg hlater]
  rw [hpending] at hlater
  by_cases hnow : p ∈ m.events.arrivals
  · -- the event is the arrival of the task, which is in the system from now on
    rw [if_pos hnow]
    rw [hpending] at hnow
    have hevent : e.type = .arrival ∧ e.task = p := by
      by_contra hother
      rw [if_neg hother] at hcount
      omega
    have hdone : p ∉ m'.completedTasks := by
      intro hdone
      rcases h.finished_cases p with ⟨hold, -⟩ | ⟨hrun, -⟩
      · have := List.count_pos_iff.2 (hold hdone)
        omega
      · have : 0 < (m.coresOf p).card :=
          Finset.card_pos.2 ⟨e.coreId, by simpa [coresOf] using hrun⟩
        omega
    rw [if_neg hdone, hannounced e he hevent.1, hevent.2, sub_self]
  · rw [if_neg hnow]
    rcases h.finished_cases p with ⟨hold, hsame⟩ | ⟨hrun, hdone, htime⟩
    · rw [hsame]
      have hiff : p ∈ m'.completedTasks ↔ p ∈ m.completedTasks :=
        ⟨hold, fun hp => h.completedTasks_subset hp⟩
      simp only [hiff]
    · have : 0 < (m.coresOf p).card :=
        Finset.card_pos.2 ⟨e.coreId, by simpa [coresOf] using hrun⟩
      have hlive : p ∉ m.completedTasks := by
        rw [hpending]
        omega
      rw [if_pos hdone, if_neg hlive, htime]

/-- What a task has been charged and is about to be charged -/
def dueTo (m : Machine σ Q n) (p : TaskPtr) (time : ℚ) : ℚ :=
  (m.history.map (chargedTo p)).sum
    + ∑ c, if m.runningTasks c = some p then time - m.lastEventTime c else 0

omit [Scheduler σ] [Fintype Q] [DecidableEq Q] [LawfulScheduler σ] in
/-- Sums that differ in one place -/
theorem sum_eq_of_ne {f g : Fin n → ℚ} (h : ∀ d, d ≠ c → f d = g d) :
    ∑ d, f d = ∑ d, g d + (f c - g c) := by
  rw [← Finset.add_sum_erase _ f (Finset.mem_univ c),
    ← Finset.add_sum_erase _ g (Finset.mem_univ c),
    Finset.sum_congr rfl fun d hd => h d (Finset.ne_of_mem_erase hd)]
  ring

omit [Scheduler σ] [Fintype Q] [DecidableEq Q] [LawfulScheduler σ] in
/-- What was about to be charged is charged. -/
theorem dueTo_release (hc : m.runningTasks c = some r)
    (hhist : m'.history = .charged c r (m.elapsed c) :: m.history)
    (hrun : m'.runningTasks = setAt m.runningTasks c none)
    (hlast : m'.lastEventTime = m.lastEventTime) :
    m'.dueTo p m.currentTime = m.dueTo p m.currentTime := by
  have hcores : (∑ d, if m'.runningTasks d = some p then m.currentTime - m'.lastEventTime d else 0)
      = (∑ d, if m.runningTasks d = some p then m.currentTime - m.lastEventTime d else 0)
        + (0 - if r = p then m.elapsed c else 0) := by
    rw [sum_eq_of_ne (c := c) (g := fun d =>
      if m.runningTasks d = some p then m.currentTime - m.lastEventTime d else 0)]
    · simp [hrun, hc, elapsed]
    · intro d hd
      rw [hrun, setAt_of_ne _ _ _ hd, hlast]
  rw [dueTo, dueTo, hcores, hhist, List.map_cons, List.sum_cons, chargedTo]
  ring

omit [LawfulScheduler σ] [Fintype Q] in
theorem dueTo_dispatch (hc : m.runningTasks c = none) :
    (m.dispatch cfg q c r x).dueTo p m.currentTime = m.dueTo p m.currentTime := by
  rw [dueTo, dueTo, sum_eq_of_ne (c := c) (g := fun d =>
    if m.runningTasks d = some p then m.currentTime - m.lastEventTime d else 0)]
  · simp [hc, chargedTo]
  · intro d hd
    rw [dispatch_runningTasks, setAt_of_ne _ _ _ hd, dispatch_lastEventTime, setAt_of_ne _ _ _ hd]

omit [LawfulScheduler σ] [Fintype Q] in
theorem Next.dueTo (hn : Next cfg slot c m m') (hc : m.runningTasks c = none) :
    m'.dueTo p m.currentTime = m.dueTo p m.currentTime := by
  cases hn with
  | idle => rw [clearCore_eq_self m c hc]
  | own => exact dueTo_dispatch hc
  | @steal b stolen r x => exact dueTo_dispatch (m := m.migrate b (slot c) stolen) hc

omit [LawfulScheduler σ] [Fintype Q] in
theorem Move.dueTo (h : Move cfg slot m e m') : m'.dueTo p e.time = m.dueTo p e.time := by
  cases h with
  | skip => rfl
  | queued => rfl
  | woken _ hidle hn => exact hn.dueTo hidle
  | @preempted c r _ _ hrun _ _ hn =>
    have hyield : ((((m.pop e).enqueue (slot c) e.task).yieldCore (slot c) c r).countSwitch).dueTo p
        e.time = m.dueTo p e.time :=
      dueTo_release (m := (m.pop e).enqueue (slot c) e.task) hrun rfl rfl rfl
    rw [← hyield]
    refine hn.dueTo ?_
    rw [countSwitch_runningTasks, yieldCore_runningTasks, setAt_self]
  | expired _ hrun hn =>
    have hsettle : ((m.pop e).settle (slot e.coreId) e.coreId e.task).dueTo p e.time
        = m.dueTo p e.time :=
      dueTo_release (m := m.pop e) hrun (settle_history _ _ _ _) (settle_runningTasks _ _ _ _)
        (settle_lastEventTime _ _ _ _)
    rw [← hsettle]
    have hnext := hn.dueTo (p := p) (by rw [settle_runningTasks, setAt_self])
    rwa [settle_currentTime, pop_currentTime] at hnext

omit [DecidableEq Q] [LawfulScheduler σ] [Fintype Q] [Scheduler σ] in
theorem ran_eq_dueTo (h : m.Tally) (time : ℚ) : m.ran p time = m.dueTo p time := by
  rw [ran, Machine.dueTo, h p]

end Events

/-! ## Sums over the tasks -/

section Sums

variable {m : Machine σ Q n} {ps : List TaskPtr}

/-- The ready tasks, counted one by one -/
theorem sum_waiting (hnodup : ps.Nodup) (h : ∀ q, ∀ p ∈ m.ready q, p ∈ ps) :
    (ps.map m.waiting).sum = m.numberWaiting := by
  have hqueue : ∀ q, ∑ p ∈ ps.toFinset, (m.ready q).count p = (m.ready q).length := by
    intro q
    have := Multiset.sum_count_eq_card (s := ps.toFinset) (m := (m.ready q : Multiset TaskPtr))
      fun p hp => List.mem_toFinset.2 (h q p hp)
    simpa using this
  rw [← List.sum_toFinset _ hnodup, numberWaiting, ← Finset.sum_congr rfl fun q _ => hqueue q,
    Finset.sum_comm]
  rfl

omit [Scheduler σ] [Fintype Q] in
/-- The busy cores, counted task by task -/
theorem sum_coresOf (hnodup : ps.Nodup) (h : ∀ c p, m.runningTasks c = some p → p ∈ ps) :
    (ps.map fun p => (m.coresOf p).card).sum = m.numberRunning := by
  have hcore : ∀ c, ∑ p ∈ ps.toFinset, (if m.runningTasks c = some p then 1 else 0)
      = if (m.runningTasks c).isSome then 1 else 0 := by
    intro c
    cases hc : m.runningTasks c with
    | none => simp
    | some p => simpa using h c p hc
  rw [← List.sum_toFinset _ hnodup, numberRunning, Finset.card_filter,
    ← Finset.sum_congr rfl fun c _ => hcore c, Finset.sum_comm]
  exact Finset.sum_congr rfl fun p _ => card_coresOf m p

/-- The times of the tasks, added up -/
def totals (m : Machine σ Q n) (ps : List TaskPtr) (time : ℚ) : Areas where
  inSystem := (ps.map fun p => m.sojourn p time).sum
  waiting := (ps.map fun p => m.waited p time).sum
  running := (ps.map fun p => m.ran p time).sum

/-- Sums whose terms grow at some rates -/
theorem sum_map_add_mul {f g : TaskPtr → ℚ} {k : TaskPtr → ℕ} {x : ℚ}
    (h : ∀ p ∈ ps, f p = g p + x * k p) :
    (ps.map f).sum = (ps.map g).sum + x * (ps.map k).sum := by
  rw [List.map_congr_left h, List.sum_map_add, List.sum_map_mul_left, Nat.cast_list_sum,
    List.map_map]
  rfl

/-- While nothing happens the times grow like the areas. -/
theorem upTo_totals (hnodup : ps.Nodup) (hone : ∀ p ∈ ps, m.places p = 1)
    (hother : ∀ p, p ∉ ps → m.places p = 0) (s t : ℚ) :
    m.totals ps t = { inSystem := (m.totals ps s).inSystem + (t - s) * m.numberInSystem
                      waiting := (m.totals ps s).waiting + (t - s) * m.numberWaiting
                      running := (m.totals ps s).running + (t - s) * m.numberRunning } := by
  have hready : ∀ q, ∀ p ∈ m.ready q, p ∈ ps := by
    intro q p hp
    by_contra hno
    exact (places_eq_zero.1 (hother p hno)).2.1 q hp
  have hcores : ∀ c p, m.runningTasks c = some p → p ∈ ps := by
    intro c p hc
    by_contra hno
    exact (places_eq_zero.1 (hother p hno)).2.2.1 c hc
  have hwaiting := sum_waiting hnodup hready
  have hrunning := sum_coresOf hnodup hcores
  have hboth : (ps.map fun p => m.waiting p + (m.coresOf p).card).sum = m.numberInSystem := by
    rw [List.sum_map_add, hrunning]
    exact congrArg (· + _) hwaiting
  rw [totals, totals, Areas.mk.injEq]
  refine ⟨?_, ?_, ?_⟩
  · rw [sum_map_add_mul fun p hp => sojourn_add (hone p hp) s t, hboth]
  · rw [sum_map_add_mul fun p hp => waited_add (hone p hp).le s t, hwaiting]
  · rw [sum_map_add_mul fun p _ => ran_add s t, hrunning]

end Sums

/-! ## Runs -/

section Runs

variable [DecidableEq Q] [LawfulScheduler σ] [NeZero n] {m : Machine σ Q n} {cfg : SimConfig}
  {slot : Fin n → Q} {schedulers : Q → σ} {w : Workload} {a : Areas}

omit [Fintype Q] in
/-- An arrival is due at the arrival time of its task. -/
theorem announced_of_reachable (h : Lts.Reachable (Step cfg slot) (init schedulers w) m) :
    ∀ e ∈ m.events, e.type = .arrival → e.time = (m.heap e.task).arrivalTime := by
  have hannounced : ∀ e ∈ m.events, e.type = .arrival → e.time = (w.args e.task).arrivalTime := by
    refine h.induction (I := fun m : Machine σ Q n =>
      ∀ e ∈ m.events, e.type = .arrival → e.time = (w.args e.task).arrivalTime) ?_ ?_
    · intro e he _
      obtain ⟨p, -, rfl⟩ := List.mem_map.1 he
      rfl
    · intro s e t _ ih hstep e' he' harr
      exact ih e' (hstep.2.2.announced he' harr) harr
  intro e he harr
  rw [hannounced e he harr, arrivalTime_eq h]

omit [LawfulScheduler σ] [DecidableEq Q] in
theorem totals_init (hempty : ∀ q, readyTasks (schedulers q) = []) :
    (init schedulers w : Machine σ Q n).totals w.added 0 = {} := by
  have hzero : ∀ f : TaskPtr → ℚ, (∀ p ∈ w.added, f p = 0) → (w.added.map f).sum = 0 :=
    fun f hf => List.sum_eq_zero (by simpa using hf)
  rw [totals, Areas.mk.injEq]
  refine ⟨hzero _ fun p hp => ?_, hzero _ fun p hp => ?_, hzero _ fun p hp => ?_⟩
  · rw [Machine.sojourn, arrivals_init, if_pos hp]
  · have hwaiting : (init schedulers w : Machine σ Q n).waiting p = 0 :=
      Finset.sum_eq_zero fun q _ => by simp [ready, init, hempty]
    rw [Machine.waited, hwaiting, if_neg (lt_irrefl 0)]
    exact add_zero _
  · have hserved : (w.heap p).served = 0 := sub_self _
    simp [Machine.ran, hserved, init]

variable (hempty : ∀ q, readyTasks (schedulers q) = []) (hids : w.DistinctIds) (hvalid : w.Valid)

include hempty hids hvalid

/-- At the instant of an event all times are the same before and after it. -/
theorem totals_step {m' : Machine σ Q n} {e : Event n}
    (h : Lts.Reachable (Step cfg slot) (init schedulers w) m) (hstep : Step cfg slot m e m') :
    m'.totals w.added e.time = m.totals w.added e.time := by
  have h' := h.tail hstep
  have hmove := hstep.2.2
  have hone : ∀ p ∈ w.added, m.places p = 1 := fun p hp => by
    rw [places_eq_count hempty hids h, List.count_eq_one_of_mem w.nodup hp]
  have hone' : ∀ p ∈ w.added, m'.places p = 1 := fun p hp => by
    rw [places_eq_count hempty hids h', List.count_eq_one_of_mem w.nodup hp]
  have hannounced := announced_of_reachable h
  have hsojourn : ∀ p ∈ w.added, m'.sojourn p e.time = m.sojourn p e.time := fun p hp =>
    hmove.sojourn hstep.1.1 (hone p hp) hannounced
  have hcpu : ∀ p, m'.ran p e.time = m.ran p e.time := fun p => by
    rw [ran_eq_dueTo (tally_of_reachable hempty hvalid h'),
      ran_eq_dueTo (tally_of_reachable hempty hvalid h), hmove.dueTo]
  have hwaited : ∀ p ∈ w.added, m'.waited p e.time = m.waited p e.time := by
    intro p hp
    have hbefore := sojourn_eq (books_of_reachable hempty hvalid h) (hone p hp) hannounced e.time
    have hafter := sojourn_eq (books_of_reachable hempty hvalid h') (hone' p hp)
      (announced_of_reachable h') e.time
    have := hsojourn p hp
    have := hcpu p
    linarith
  rw [totals, totals, List.map_congr_left hsojourn, List.map_congr_left hwaited,
    List.map_congr_left fun p _ => hcpu p]

/-- **The areas are the times of the tasks**, in every run. -/
theorem areas_eq_totals (h : Lts.Reachable (Lts.Recorded (Step cfg slot) recordAreas)
    (init schedulers w, {}) (m, a)) : a = m.totals w.added m.currentTime := by
  refine h.record_eq (f := fun m : Machine σ Q n => m.totals w.added m.currentTime) ?_ ?_
  · intro s e t hs hstep
    have hone : ∀ p ∈ w.added, s.places p = 1 := fun p hp => by
      rw [places_eq_count hempty hids hs, List.count_eq_one_of_mem w.nodup hp]
    have hother : ∀ p, p ∉ w.added → s.places p = 0 := fun p hp => by
      rw [places_eq_count hempty hids hs, List.count_eq_zero_of_not_mem hp]
    rw [hstep.2.2.currentTime, totals_step hempty hids hvalid hs hstep,
      upTo_totals w.nodup hone hother s.currentTime e.time]
    rfl
  · exact (totals_init hempty).symm

end Runs

end Machine

/-! ## The reported means -/

namespace Metrics

variable {completedTasks : List Task} {totalTime : ℚ} {numCores : UInt32}

/-- The number of completed tasks cancels. -/
theorem throughput_mul_mean (numCores : UInt32) {f : Task → ℚ} (hne : completedTasks ≠ [])
    (hsize : completedTasks.length < 2 ^ 32) (hpos : 0 < totalTime) :
    (({} : Metrics).calculate completedTasks totalTime numCores).throughput / 1000
        * ((completedTasks.map f).sum / (UInt32.ofNat completedTasks.length).toNat)
      = (completedTasks.map f).sum / totalTime := by
  have hlength : (UInt32.ofNat completedTasks.length).toNat = completedTasks.length :=
    UInt32.toNat_ofNat_of_lt' hsize
  have hcount : (completedTasks.length : ℚ) ≠ 0 :=
    Nat.cast_ne_zero.2 fun hzero => hne (List.length_eq_zero_iff.1 hzero)
  have htime := hpos.ne'
  rw [calculate, if_neg (by simpa using hne)]
  simp only [if_pos hpos, hlength]
  field_simp

theorem throughput_mul_meanTurnaroundTime (hsize : completedTasks.length < 2 ^ 32)
    (hpos : 0 < totalTime) :
    (({} : Metrics).calculate completedTasks totalTime numCores).throughput / 1000
        * (({} : Metrics).calculate completedTasks totalTime numCores).meanTurnaroundTime
      = (completedTasks.map Task.turnaroundTime).sum / totalTime := by
  by_cases hne : completedTasks = []
  · simp [hne, calculate]
  · rw [← throughput_mul_mean numCores hne hsize hpos]
    congr 1
    rw [calculate, if_neg (by simpa using hne)]

theorem throughput_mul_meanWaitTime (hsize : completedTasks.length < 2 ^ 32)
    (hpos : 0 < totalTime) :
    (({} : Metrics).calculate completedTasks totalTime numCores).throughput / 1000
        * (({} : Metrics).calculate completedTasks totalTime numCores).meanWaitTime
      = (completedTasks.map Task.waitTime).sum / totalTime := by
  by_cases hne : completedTasks = []
  · simp [hne, calculate]
  · rw [← throughput_mul_mean numCores hne hsize hpos]
    congr 1
    rw [calculate, if_neg (by simpa using hne)]

end Metrics

namespace Machine

variable {σ Q : Type} [Scheduler σ] [Fintype Q] [DecidableEq Q] [LawfulScheduler σ] {n : ℕ}
  [NeZero n] {m : Machine σ Q n} {cfg : SimConfig} {slot : Fin n → Q} {schedulers : Q → σ}
  {w : Workload} {a : Areas}

omit [Scheduler σ] [Fintype Q] [DecidableEq Q] [LawfulScheduler σ] [NeZero n] in
/-- The tasks that have arrived and are not completed -/
def unfinished (m : Machine σ Q n) (w : Workload) : List TaskPtr :=
  w.added.filter fun p => p ∉ m.events.arrivals ∧ p ∉ m.completedTasks

omit [DecidableEq Q] [LawfulScheduler σ] [NeZero n] in
/-- How the time averages of the numbers, `a` being the areas up to `time`, follow from the metrics
and from the tasks that are not completed by then -/
structure LittlesLaw (m : Machine σ Q n) (w : Workload) (a : Areas) (metrics : Metrics)
    (time : ℚ) : Prop where
  inSystem : a.inSystem / time = metrics.throughput / 1000 * metrics.meanTurnaroundTime
    + ((m.unfinished w).map fun p => time - (w.args p).arrivalTime).sum / time
  waiting : a.waiting / time = metrics.throughput / 1000 * metrics.meanWaitTime
    + ((m.unfinished w).map fun p => m.waited p time).sum / time
  /-- The execution time of a completed task is counted in full, even if something is left of it. -/
  running : a.running / (time * n) = metrics.utilization
    - (m.completed.map Task.remainingTime).sum / (time * n)
    + ((m.unfinished w).map fun p => m.ran p time).sum / (time * n)

omit [Fintype Q] [DecidableEq Q] [LawfulScheduler σ] [Scheduler σ] [NeZero n] in
/-- A sum over all tasks, to which those that have not arrived contribute nothing -/
theorem sum_added_eq (hnodup : m.completedTasks.Nodup) (hsubset : m.completedTasks ⊆ w.added)
    {f : TaskPtr → ℚ} (hpending : ∀ p ∈ m.events.arrivals, p ∉ m.completedTasks → f p = 0) :
    (w.added.map f).sum = (m.completedTasks.map f).sum + ((m.unfinished w).map f).sum := by
  have hunfinished : (m.unfinished w).Nodup := w.nodup.filter _
  rw [← List.sum_toFinset _ w.nodup, ← List.sum_toFinset _ hnodup,
    ← List.sum_toFinset _ hunfinished,
    ← Finset.sum_filter_add_sum_filter_not w.added.toFinset (· ∈ m.completedTasks)]
  congr 1
  · refine Finset.sum_congr ?_ fun _ _ => rfl
    ext p
    simpa using fun hp => hsubset hp
  · refine (Finset.sum_subset ?_ ?_).symm
    · intro p hp
      simp only [unfinished, List.mem_toFinset, List.mem_filter, decide_eq_true_eq] at hp
      simp [hp]
    · intro p hp hno
      simp only [Finset.mem_filter, List.mem_toFinset] at hp
      refine hpending p ?_ hp.2
      by_contra harr
      exact hno (by simp [unfinished, hp, harr])

omit [Scheduler σ] [Fintype Q] [DecidableEq Q] [LawfulScheduler σ] in
theorem toNat_max_one (hcores : n < 2 ^ 32) : (max 1 (UInt32.ofNat n)).toNat = n := by
  have hone : 1 ≤ n := NeZero.one_le
  have hn : (UInt32.ofNat n).toNat = n := UInt32.toNat_ofNat_of_lt' hcores
  have hle : (1 : UInt32) ≤ UInt32.ofNat n := by
    rw [UInt32.le_iff_toNat_le, hn]
    exact hone
  have hmax : max 1 (UInt32.ofNat n) = UInt32.ofNat n := if_pos hle
  rw [hmax, hn]

variable (hempty : ∀ q, readyTasks (schedulers q) = []) (hids : w.DistinctIds) (hvalid : w.Valid)

include hempty hids hvalid

theorem littlesLaw_of_reachable (hsize : w.added.length < 2 ^ 32) (hcores : n < 2 ^ 32)
    (h : Lts.Reachable (Lts.Recorded (Step cfg slot) recordAreas) (init schedulers w, {}) (m, a))
    (hpos : 0 < (m.returned cfg).currentTime) :
    m.LittlesLaw w (a.upTo m (m.returned cfg).currentTime) (m.returned cfg).metrics
      (m.returned cfg).currentTime := by
  have hm : Lts.Reachable (Step cfg slot) (init schedulers w) m := h.of_recorded
  have hone : ∀ p ∈ w.added, m.places p = 1 := fun p hp => by
    rw [places_eq_count hempty hids hm, List.count_eq_one_of_mem w.nodup hp]
  have hother : ∀ p, p ∉ w.added → m.places p = 0 := fun p hp => by
    rw [places_eq_count hempty hids hm, List.count_eq_zero_of_not_mem hp]
  have hsize' := (length_completed_le hempty hm).trans_lt hsize
  set time := (m.returned cfg).currentTime with htime
  have hareas : a.upTo m time = m.totals w.added time := by
    rw [areas_eq_totals hempty hids hvalid h, upTo_totals w.nodup hone hother m.currentTime time]
    rfl
  have hannounced := announced_of_reachable hm
  have hbooks := books_of_reachable hempty hvalid hm
  have hadded : m.completedTasks ⊆ w.added := fun p hp => mem_added_of_completed hempty hm hp
  have hpending : ∀ p ∈ m.events.arrivals, m.sojourn p time = 0 ∧ m.waited p time = 0 ∧
      m.ran p time = 0 := fun p hp =>
    times_of_pending (hbooks.booked p) ((places_le_count hempty hm p).trans
      (List.nodup_iff_count_le_one.1 w.nodup p)) hannounced hp time
  have hdone := fun p hp => times_of_completed (hone p (hadded hp)).le hp time
  have hsplit := fun f => sum_added_eq (w := w) (f := f) (nodup_completedTasks hempty hm) hadded
  have hmetrics : (m.returned cfg).metrics
      = ({} : Metrics).calculate m.completed time (UInt32.ofNat n) := rfl
  rw [hareas, hmetrics]
  refine ⟨?_, ?_, ?_⟩
  · have hturnaround : ∀ p ∈ m.completedTasks, m.sojourn p time = (m.heap p).turnaroundTime := by
      intro p hp
      have hlt := arrivalTime_lt_completionTime hempty hvalid hm p hp
      have harr := (hvalid p (hadded hp)).1
      rw [(hdone p hp).1, Task.turnaroundTime, if_neg (not_lt.2 (harr.trans hlt.le))]
    have hlive : ∀ p ∈ m.unfinished w, m.sojourn p time = time - (w.args p).arrivalTime := by
      intro p hp
      simp only [unfinished, List.mem_filter, decide_eq_true_eq] at hp
      rw [Machine.sojourn, if_neg hp.2.1, if_neg hp.2.2, arrivalTime_eq hm]
    show (w.added.map fun p => m.sojourn p time).sum / time = _
    rw [hsplit _ fun p hp _ => (hpending p hp).1, List.map_congr_left hturnaround,
      List.map_congr_left hlive, add_div]
    congr 1
    rw [Metrics.throughput_mul_meanTurnaroundTime hsize' hpos, completed, List.map_map]
    rfl
  · show (w.added.map fun p => m.waited p time).sum / time = _
    rw [hsplit _ fun p hp _ => (hpending p hp).2.1,
      List.map_congr_left fun p hp => (hdone p hp).2.1, add_div]
    congr 1
    rw [Metrics.throughput_mul_meanWaitTime hsize' hpos, completed, List.map_map]
    rfl
  · show (w.added.map fun p => m.ran p time).sum / (time * n) = _
    rw [hsplit _ fun p hp _ => (hpending p hp).2.2,
      List.map_congr_left fun p hp => (hdone p hp).2.2, add_div]
    congr 1
    have hserved : (m.completedTasks.map fun p => (m.heap p).served).sum
        = (m.completed.map Task.executionTime).sum - (m.completed.map Task.remainingTime).sum := by
      have hterm : ∀ p ∈ m.completedTasks, (m.heap p).executionTime
          = (m.heap p).served + (m.heap p).remainingTime := fun p _ => by
        rw [Task.served]
        ring
      have hsum := congrArg List.sum (List.map_congr_left hterm)
      rw [List.sum_map_add] at hsum
      rw [completed, List.map_map, List.map_map]
      exact eq_sub_of_add_eq hsum.symm
    have hutil : (({} : Metrics).calculate m.completed time (UInt32.ofNat n)).utilization
        = (m.completed.map Task.executionTime).sum / (time * n) := by
      by_cases hne : m.completed = []
      · simp [hne, Metrics.calculate]
      · rw [Metrics.utilization_calculate hne hpos, toNat_max_one hcores]
    rw [hserved, hutil, sub_div]

end Machine

/-! ## The two simulators -/

open Machine

/-- **The areas are the times of the tasks**, in every run of either simulator: at every state, the
areas under the numbers of tasks that are in the system, that wait and that run are the times that
all tasks together have been in the system, have waited and have run by then. -/
theorem areas_eq {n : ℕ} [NeZero n] (kind : SchedulerKind) (w : Workload) (hids : w.DistinctIds)
    (hvalid : w.Valid) :
    (∀ (cfg : SimConfig) (s : Simulator kind.State n) (a : Areas),
      Lts.Reachable (Lts.Recorded (Simulator.Step cfg) recordAreas)
        (Simulator.init kind.make w, {}) (s, a) →
      a = s.totals w.added s.currentTime) ∧
    (∀ (balancer : LoadBalancer) (cfg : MultiConfig) (s : MultiCoreSimulator kind.State n)
      (a : Areas),
      Lts.Reachable
        (Lts.Recorded (MultiCoreSimulator.Step cfg) fun s => recordAreas s.toMachine)
        (MultiCoreSimulator.init kind.make balancer w, {}) (s, a) →
      a = s.totals w.added s.currentTime) := by
  constructor
  · intro cfg s a hs
    exact areas_eq_totals (fun _ => kind.readyTasks_make) hids hvalid
      (hs.simulate_recorded (g := id) (fun _ _ _ => Simulator.step_machine) fun _ _ _ => rfl)
  · intro balancer cfg s a hs
    exact areas_eq_totals (fun _ => kind.readyTasks_make) hids hvalid
      (hs.simulate_recorded (g := MultiCoreSimulator.toMachine)
        (fun _ _ _ => MultiCoreSimulator.step_machine) fun _ _ _ => rfl)

/-- The pair on one core, where both tasks have been in the system for 22 milliseconds together -/
theorem areas_eq_pair :
    let cfg : SimConfig := { stopTime := 50 }
    let kind := SchedulerKind.stride {}
    let s := Simulator.turns (n := 1) cfg 5 (Simulator.init kind.make .pair)
    ∃ a, Lts.Reachable (Lts.Recorded (Simulator.Step cfg) recordAreas)
      (Simulator.init kind.make .pair, {}) (s, a) ∧ a.inSystem = 22 := by
  intro cfg kind s
  obtain ⟨a, ha⟩ := (Simulator.reachable_turns cfg 5
    (Simulator.init (n := 1) kind.make .pair)).recorded recordAreas {}
  refine ⟨a, ha, ?_⟩
  rw [(areas_eq kind .pair (by decide) (by decide +kernel)).1 cfg s a ha]
  decide +kernel

/-- **Little's law for the reported metrics.** When `run` has returned in either simulator, the
time average of the number of tasks in the system is the throughput times the mean turnaround time,
and that of the number of waiting tasks the throughput times the mean waiting time, up to what the
unfinished tasks contribute; and the average share of busy cores is the utilization, up to that and
to what is left of completed tasks. -/
theorem littlesLaw {n : ℕ} [NeZero n] (hcores : n < 2 ^ 31) (kind : SchedulerKind) (w : Workload)
    (hids : w.DistinctIds) (hvalid : w.Valid) (hsize : w.added.length < 2 ^ 32) :
    (∀ (cfg : SimConfig) (s : Simulator kind.State n) (a : Areas),
      Lts.Reachable (Lts.Recorded (Simulator.Step cfg) recordAreas)
        (Simulator.init kind.make w, {}) (s, a) →
      s.Stops cfg → 0 < (s.returned cfg).currentTime →
      s.LittlesLaw w (a.upTo s (s.returned cfg).currentTime) (s.returned cfg).metrics
        (s.returned cfg).currentTime) ∧
    (∀ (balancer : LoadBalancer) (cfg : MultiConfig) (s : MultiCoreSimulator kind.State n)
      (a : Areas),
      Lts.Reachable
        (Lts.Recorded (MultiCoreSimulator.Step cfg) fun s => recordAreas s.toMachine)
        (MultiCoreSimulator.init kind.make balancer w, {}) (s, a) →
      s.Stops cfg.toSimConfig → 0 < (s.returned cfg.toSimConfig).currentTime →
      s.LittlesLaw w (a.upTo s.toMachine (s.returned cfg.toSimConfig).currentTime)
        (s.returned cfg.toSimConfig).metrics (s.returned cfg.toSimConfig).currentTime) := by
  have hcores' : n < 2 ^ 32 := hcores.trans (by norm_num)
  constructor
  · intro cfg s a hs _ hpos
    exact littlesLaw_of_reachable (fun _ => kind.readyTasks_make) hids hvalid hsize hcores'
      (hs.simulate_recorded (g := id) (fun _ _ _ => Simulator.step_machine) fun _ _ _ => rfl) hpos
  · intro balancer cfg s a hs _ hpos
    exact littlesLaw_of_reachable (fun _ => kind.readyTasks_make) hids hvalid hsize hcores'
      (hs.simulate_recorded (g := MultiCoreSimulator.toMachine)
        (fun _ _ _ => MultiCoreSimulator.step_machine) fun _ _ _ => rfl) hpos

/-- The pair on one core, run to its end, where nothing is left unfinished -/
theorem littlesLaw_pair :
    let cfg : SimConfig := { stopTime := 50 }
    let kind := SchedulerKind.stride {}
    let s := Simulator.turns (n := 1) cfg 5 (Simulator.init kind.make .pair)
    ∃ a, Lts.Reachable (Lts.Recorded (Simulator.Step cfg) recordAreas)
        (Simulator.init kind.make .pair, {}) (s, a) ∧
      (a.upTo s (s.returned cfg).currentTime).inSystem / (s.returned cfg).currentTime
        = (s.returned cfg).metrics.throughput / 1000
          * (s.returned cfg).metrics.meanTurnaroundTime := by
  intro cfg kind s
  obtain ⟨a, ha⟩ := (Simulator.reachable_turns cfg 5
    (Simulator.init (n := 1) kind.make .pair)).recorded recordAreas {}
  refine ⟨a, ha, ?_⟩
  have hlaw := (littlesLaw (by norm_num) kind .pair (by decide) (by decide +kernel)
    (by decide)).1 cfg s a ha (by decide +kernel) (by decide +kernel)
  have hnone : s.unfinished .pair = [] := by decide +kernel
  rw [hlaw.inSystem, hnone]
  simp

end SchedSim
