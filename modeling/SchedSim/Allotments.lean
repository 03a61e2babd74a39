import SchedSim.ChargeCalls
import SchedSim.FeedbackRuns
import SchedSim.Slices

/-!
# Allotments cannot be gamed

A task keeps what is left of its allotment when it gives up the core, so the CPU it has been
charged adds up over any number of slices, until the allotment is set anew.

* `Machine.meter` — the CPU charged to a task since its allotment was set, kept beside the run.
* `Outcome.gauge_charged` — what a charge does to the levels and the allotments by the time the
  event has been handled.
* `Outcome.metered` — every step keeps the meter and the allotments in balance.
* `Part.withinQuantum` — no slice is longer than the quantum of the level of its task.
* `allotments_notGamed` — the balance in every run of both simulators, and when a task is demoted.
-/

namespace SchedSim

namespace MLFQScheduler

variable {params : MLFQParams} {s : MLFQScheduler} {level : ℤ} {t : Task} {x : ℚ}

/-- With positive quanta no level has an empty allotment. -/
theorem allotmentForLevel_pos (hquanta : ∀ config ∈ params.queueConfigs, 0 < config.timeQuantum)
    (hlow : 0 ≤ level) (hhigh : level < params.queueConfigs.length) :
    0 < (new params).allotmentForLevel level := by
  have hlevels : (new params).numLevels = params.queueConfigs.length := rfl
  have hin : ¬ (level < 0 ∨ (new params).numLevels ≤ level) := by
    rw [hlevels]
    omega
  rw [allotmentForLevel, if_neg hin]
  dsimp only
  split
  next hpos => exact hpos
  next => exact hquanta _ (configAt_mem (new params) level)

/-- The scheduled task gets the quantum of its level. -/
theorem timeSlice_of_schedule {h : Heap} {p : TaskPtr}
    (hs : SchedSim.schedule s h = ⟨some p, x⟩) : x = s.quantumForLevel (h p).currentQueue := by
  change s.schedule h = _ at hs
  rw [schedule] at hs
  split at hs
  next => cases hs
  next best _ =>
    obtain ⟨hbest, hx⟩ := ScheduleDecision.mk.inj hs
    obtain rfl := Option.some.inj hbest
    exact hx.symm

/-- A task at a level that exists stays at one that exists. -/
theorem level_chargeAllotment_range (hlow : 0 ≤ t.currentQueue)
    (hhigh : t.currentQueue < s.numLevels) :
    0 ≤ (s.chargeAllotment x t).currentQueue ∧
      (s.chargeAllotment x t).currentQueue < s.numLevels := by
  have hlevel : (s.chargeAllotment x t).currentQueue = _ :=
    congrArg Prod.fst (s.gauge_chargeAllotment x t)
  rw [hlevel]
  split
  · dsimp only
    split <;> omega
  · exact ⟨hlow, hhigh⟩

end MLFQScheduler

namespace Machine

open MLFQScheduler (BoostDue)

variable {Q : Type} [DecidableEq Q] {n : ℕ} {m m' m₀ : Machine MLFQScheduler Q n} {q b : Q}
  {c : Fin n} {p r : TaskPtr} {x : ℚ} {e : Event n} {cfg : SimConfig} {slot : Fin n → Q}
  {w : Workload} {params : MLFQParams} {used used' : TaskPtr → ℚ}
  {call : Option (Fin n × Machine MLFQScheduler Q n)}

/-! ## The meter -/

/-- The CPU charged to the task `r` since its allotment was last set, brought up to date with an
event.  The allotment is set when the task arrives, when a charge uses it up, when the task goes
back to the queue and is taken for a new one, and when a boost finds it in the queue. -/
def meter (slot : Fin n → Q) (m : Machine MLFQScheduler Q n) (e : Event n)
    (call : Option (Fin n × Machine MLFQScheduler Q n)) (used : TaskPtr → ℚ) (r : TaskPtr) : ℚ :=
  match call with
  | none => if e.type = .arrival ∧ r = e.task then 0 else used r
  | some (c, m₀) =>
    if m.runningTasks c = some r then
      if (m.heap r).allotmentRemaining ≤ m₀.elapsed c ∨
          ((m.heap r).startTime < 0 ∧ m.GoesBack e c r) then 0
      else used r + m₀.elapsed c
    else if (e.type = .arrival ∧ r = e.task) ∨
        ((m₀.schedulers (slot c)).BoostDue (m₀.elapsed c) ∧ r ∈ m₀.ready (slot c)) then 0
    else used r

omit [DecidableEq Q] in
theorem meter_self (slot : Fin n → Q) (e : Event n) (m₀ : Machine MLFQScheduler Q n)
    (used : TaskPtr → ℚ) (hc : m.runningTasks c = some p) :
    meter slot m e (some (c, m₀)) used p
    = if (m.heap p).allotmentRemaining ≤ m₀.elapsed c ∨
        ((m.heap p).startTime < 0 ∧ m.GoesBack e c p) then 0
      else used p + m₀.elapsed c := if_pos hc

omit [DecidableEq Q] in
theorem meter_of_ne (slot : Fin n → Q) (e : Event n) (m₀ : Machine MLFQScheduler Q n)
    (used : TaskPtr → ℚ) (hc : m.runningTasks c = some p) (hr : r ≠ p) :
    meter slot m e (some (c, m₀)) used r
      = if (e.type = .arrival ∧ r = e.task) ∨
          ((m₀.schedulers (slot c)).BoostDue (m₀.elapsed c) ∧ r ∈ m₀.ready (slot c)) then 0
        else used r := if_neg fun h => hr (Option.some.inj (h.symm.trans hc))

/-- The meter of every task that has arrived shows what is missing of its allotment, and
something is left. -/
structure Metered (params : MLFQParams) (w : Workload) (m : Machine MLFQScheduler Q n)
    (used : TaskPtr → ℚ) : Prop where
  balance : ∀ r ∈ w.added, r ∉ m.events.arrivals →
    used r = (MLFQScheduler.new params).allotmentForLevel (m.heap r).currentQueue
      - (m.heap r).allotmentRemaining
  left_pos : ∀ r ∈ w.added, r ∉ m.events.arrivals → 0 < (m.heap r).allotmentRemaining

omit [DecidableEq Q] in
/-- What an event does to the allotment and the meter of a task. -/
inductive Ticks (params : MLFQParams) (m m' : Machine MLFQScheduler Q n) (used used' : TaskPtr → ℚ)
    (r : TaskPtr) : Prop
  /-- The allotment is set to that of a level that exists. -/
  | set {level : ℤ} : 0 ≤ level → level < params.queueConfigs.length →
      m'.gauge r = (level, (MLFQScheduler.new params).allotmentForLevel level) → used' r = 0 →
      Ticks params m m' used used' r
  /-- The task is charged for less than what is left. -/
  | charged {x : ℚ} : r ∉ m.events.arrivals → m'.gauge r = ((m.gauge r).1, (m.gauge r).2 - x) →
      (0 < (m.heap r).allotmentRemaining → x < (m.heap r).allotmentRemaining) →
      used' r = used r + x → Ticks params m m' used used' r

omit [DecidableEq Q] in
/-- Nothing happens to the task. -/
theorem Ticks.kept (harr : r ∉ m.events.arrivals) (hgauge : m'.gauge r = m.gauge r)
    (hused : used' r = used r) : Ticks params m m' used used' r := by
  refine .charged (x := 0) harr ?_ id ?_
  · rw [hgauge, sub_zero]
  · rw [hused, add_zero]

omit [DecidableEq Q] in
theorem Metered.of_ticks (hm : m.Metered params w used)
    (hquanta : ∀ config ∈ params.queueConfigs, 0 < config.timeQuantum)
    (h : ∀ r ∈ w.added, r ∉ m'.events.arrivals → Ticks params m m' used used' r) :
    m'.Metered params w used' := by
  refine ⟨fun r hr harr => ?_, fun r hr harr => ?_⟩
  · cases h r hr harr with
    | set _ _ hgauge hused =>
      obtain ⟨hlevel, hleft⟩ := Prod.mk.inj hgauge
      rw [hused, hlevel, hleft, sub_self]
    | charged harr₀ hgauge _ hused =>
      obtain ⟨hlevel, hleft⟩ := Prod.mk.inj hgauge
      rw [hused, hlevel, hleft, hm.balance r hr harr₀]
      simp only [gauge, Task.gauge]
      ring
  · cases h r hr harr with
    | set hlow hhigh hgauge =>
      obtain ⟨-, hleft⟩ := Prod.mk.inj hgauge
      rw [hleft]
      exact MLFQScheduler.allotmentForLevel_pos hquanta hlow hhigh
    | charged harr₀ hgauge hx =>
      obtain ⟨-, hleft⟩ := Prod.mk.inj hgauge
      rw [hleft]
      exact sub_pos.2 (hx (hm.left_pos r hr harr₀))

/-! ## One step -/

section Steps

variable [Fintype Q]

theorem Leveled.of_parts (h : Parts w cfg slot m m') (hroster : m.Roster w)
    (hm : m.Leveled params slot) : m'.Roster w ∧ m'.Leveled params slot := by
  induction h with
  | refl => exact ⟨hroster, hm⟩
  | tail _ hpart ih => exact ⟨hpart.roster ih.1, hpart.leveled ih.1 ih.2⟩

/-- The gauges when the task that is charged is back in the queue. -/
theorem Leveled.gauge_yielded (hm : m.Leveled params slot) (hroster : m.Roster w)
    (hc : m.runningTasks c = some p) : (m.yieldCore (slot c) c p).gauge r
      = if r = p then
          if (m.heap p).startTime < 0 then (0, (MLFQScheduler.new params).allotmentForLevel 0)
          else ((m.schedulers (slot c)).chargeAllotment (m.elapsed c) (m.heap p)).gauge
        else (m.charge (slot c) c p).gauge r := by
  have hno := not_ready_of_running (hroster.le_one p) hc (slot c)
  split
  next hr =>
    subst hr
    have hcharge := Machine.gauge_charge (c := c) (r := r) hm.placed hno
    rw [if_pos rfl] at hcharge
    obtain ⟨hlow, hhigh⟩ := hm.range (slot c) r (.inr ⟨c, rfl, hc⟩)
    rw [← MLFQScheduler.numLevels_of_params (hm.sameParams (slot c))] at hhigh
    obtain ⟨hlow', hhigh'⟩ :=
      MLFQScheduler.level_chargeAllotment_range (x := m.elapsed c) hlow hhigh
    rw [gauge_yieldCore_self, hcharge,
      MLFQScheduler.allotmentForLevel_of_params (hm.sameParams (slot c))]
    split
    next => rfl
    next =>
      -- the level exists, so it is not clamped
      exact Prod.ext (MLFQScheduler.clampLevel_eq_self hlow' hhigh') rfl
  next hr => exact gauge_yieldCore_of_ne hr

/-- The gauges when the slice of the task is over. -/
theorem Leveled.gauge_settled (hm : m.Leveled params slot) (hroster : m.Roster w)
    (hc : m.runningTasks c = some p) : (m.settle (slot c) c p).gauge r
      = if r = p then
          if (m.heap p).startTime < 0 ∧
              ((m.heap p).execute (m.elapsed c)).isCompleted = false then
            (0, (MLFQScheduler.new params).allotmentForLevel 0)
          else ((m.schedulers (slot c)).chargeAllotment (m.elapsed c) (m.heap p)).gauge
        else (m.charge (slot c) c p).gauge r := by
  rw [settle_eq, isCompleted_charge_self]
  split
  next hd =>
    rw [gauge_finish]
    simp only [hd, Bool.true_eq_false, and_false, if_false]
    split
    next hr =>
      subst hr
      rw [Machine.gauge_charge hm.placed (not_ready_of_running (hroster.le_one r) hc _), if_pos rfl]
    next => rfl
  next hd =>
    rw [hm.gauge_yielded hroster hc]
    simp only [Bool.not_eq_true _ ▸ hd, and_true]

/-- What runs still runs when a task is charged, and is not the new one. -/
theorem Outcome.task_charged {d : Fin n} (h : Outcome cfg slot m e (some (c, m₀)) m')
    (hroster : m₀.Roster w) (hd : m.runningTasks d = some r) :
    m₀.runningTasks d = some r ∧ m₀.heap r = m.heap r ∧ ¬ (e.type = .arrival ∧ r = e.task) := by
  cases h with
  | preempted =>
    have hd₀ : ((m.pop e).enqueue (slot c) e.task).runningTasks d = some r := hd
    have hne : r ≠ e.task := by
      rintro heq
      refine not_ready_of_running (hroster.le_one r) hd₀ (slot c) ?_
      exact mem_ready_enqueue.2 (.inl ⟨rfl, heq⟩)
    exact ⟨hd, task_enqueue_of_ne hne, fun h => hne h.2⟩
  | expired hts =>
    refine ⟨hd, rfl, fun h => ?_⟩
    rw [hts] at h
    exact absurd h.1 (by decide)

/-- The gauges after the charge of the task `p`. -/
theorem Outcome.gauge_afterCharge (h : Outcome cfg slot m e (some (c, m₀)) m')
    (hm₀ : m₀.Leveled params slot) (hroster : m₀.Roster w) (hc : m.runningTasks c = some p) :
    (m₀.afterCharge slot e c p).gauge r = if r = p then
        if (m.heap p).startTime < 0 ∧ m.GoesBack e c p then
          (0, (MLFQScheduler.new params).allotmentForLevel 0)
        else ((m₀.schedulers (slot c)).chargeAllotment (m₀.elapsed c) (m.heap p)).gauge
      else (m₀.charge (slot c) c p).gauge r := by
  obtain ⟨hc₀, hsame, -⟩ := h.task_charged hroster hc
  rw [afterCharge]
  cases h with
  | preempted harr =>
    have hback : m.GoesBack e c p := .inl harr
    rw [if_pos harr]
    refine (hm₀.gauge_yielded hroster hc₀).trans ?_
    rw [hsame]
    simp only [hback, and_true]
  | expired hts =>
    rw [if_neg (by rw [hts]; decide), hm₀.gauge_settled hroster hc₀]
    simp only [goesBack_iff hts]
    rfl

/-- The gauges when the event has been handled. -/
theorem Outcome.gauge_charged (h : Outcome cfg slot m e (some (c, m₀)) m')
    (hm₀ : m₀.Leveled params slot) (hroster : m₀.Roster w) (hc : m.runningTasks c = some p) :
    m'.gauge r = if r = p then
        if (m.heap p).startTime < 0 ∧ m.GoesBack e c p then
          (0, (MLFQScheduler.new params).allotmentForLevel 0)
        else ((m₀.schedulers (slot c)).chargeAllotment (m₀.elapsed c) (m.heap p)).gauge
      else (m₀.charge (slot c) c p).gauge r := by
  have hparts : Parts w cfg slot m₀ (m₀.afterCharge slot e c p) :=
    parts_afterCharge (h.task_charged hroster hc).1
  rw [(h.next hc).gauge (hm₀.of_parts hparts hroster).2 r, h.gauge_afterCharge hm₀ hroster hc]

/-! ## The slices -/

omit [DecidableEq Q] [Fintype Q] in
/-- No slice is longer than the quantum of the level of its task. -/
def WithinQuantum (params : MLFQParams) (m : Machine MLFQScheduler Q n) : Prop :=
  ∀ c p, m.runningTasks c = some p →
    m.granted c ≤ (MLFQScheduler.new params).quantumForLevel (m.level p)

omit [DecidableEq Q] [Fintype Q] in
/-- The tasks that run on keep their slices and their levels. -/
theorem WithinQuantum.of_running (hm : m.WithinQuantum params)
    (h : ∀ d u, m'.runningTasks d = some u →
      m.runningTasks d = some u ∧ m'.granted d = m.granted d ∧ m'.level u = m.level u) :
    m'.WithinQuantum params := by
  intro d u hd
  obtain ⟨hrun, hgranted, hlevel⟩ := h d u hd
  rw [hgranted, hlevel]
  exact hm d u hrun

/-- A task that runs on another core keeps its level when the task `p` is charged. -/
theorem Leveled.level_charge_of_running {d : Fin n} {u : TaskPtr} (hm : m.Leveled params slot)
    (hroster : m.Roster w) (hc : m.runningTasks c = some p) (hd : m.runningTasks d = some u)
    (hdc : d ≠ c) : u ≠ p ∧ (m.charge (slot c) c p).level u = m.level u := by
  have hup : u ≠ p := by
    rintro rfl
    exact hdc (core_unique (hroster.le_one u) hd hc)
  have hcharge := Machine.gauge_charge (c := c) (r := u) hm.placed
    (not_ready_of_running (hroster.le_one p) hc (slot c))
  rw [if_neg hup, if_neg fun h => not_ready_of_running (hroster.le_one u) hd _ h.2] at hcharge
  exact ⟨hup, congrArg Prod.fst hcharge⟩

/-- A slice is not longer than a positive quantum. -/
theorem grant_le {timeSlice remaining : ℚ} (h : 0 < timeSlice) :
    grant cfg timeSlice remaining ≤ timeSlice := by
  rw [grant, if_pos h]
  exact min_le_left _ _

/-- **Every part keeps the slices within the quanta.** -/
theorem Part.withinQuantum (hquanta : ∀ config ∈ params.queueConfigs, 0 < config.timeQuantum)
    (h : Part w cfg slot m m') (hroster : m.Roster w) (hlev : m.Leveled params slot)
    (hm : m.WithinQuantum params) : m'.WithinQuantum params := by
  cases h with
  | pop => exact hm
  | @enter q p _ hp =>
    refine hm.of_running fun d u hd => ⟨hd, rfl, level_enqueue_of_ne ?_⟩
    rintro rfl
    exact (places_eq_zero.1 hp).2.2.1 d hd
  | @yield c p hc =>
    refine hm.of_running fun d u hd => ?_
    rw [yieldCore_runningTasks, setAt_apply] at hd
    split at hd
    next => cases hd
    next hdc =>
      obtain ⟨hup, hlevel⟩ := hlev.level_charge_of_running hroster hc hd hdc
      exact ⟨hd, rfl, (level_yieldCore_of_ne hup).trans hlevel⟩
  | @finish c p hc =>
    refine hm.of_running fun d u hd => ?_
    rw [finish_runningTasks, setAt_apply] at hd
    split at hd
    next => cases hd
    next hdc =>
      obtain ⟨-, hlevel⟩ := hlev.level_charge_of_running hroster hc hd hdc
      exact ⟨hd, rfl, level_finish.trans hlevel⟩
  | countSwitch => exact hm
  | @migrate b c p _ _ hs =>
    refine hm.of_running fun d u hd => ⟨hd, rfl, level_migrate_of_ne ?_⟩
    rintro rfl
    exact not_ready_of_running (hroster.le_one u) hd b (schedule_mem _ m.heap u hs)
  | @dispatch c p x hc _ hs =>
    intro d u hd
    rw [dispatch_runningTasks, setAt_apply] at hd
    rw [level_dispatch]
    split at hd
    next hdc =>
      subst hdc
      obtain rfl := Option.some.inj hd
      have hx : x = (MLFQScheduler.new params).quantumForLevel (m.level p) := by
        rw [← MLFQScheduler.quantumForLevel_of_params (hlev.sameParams (slot d))]
        exact MLFQScheduler.timeSlice_of_schedule hs
      rw [granted_dispatch_self, hx]
      exact grant_le (hquanta _ (MLFQScheduler.configAt_mem _ _))
    next hdc =>
      rw [granted_dispatch_of_ne hdc]
      exact hm d u hd

/-! ## The balance -/

omit [DecidableEq Q] in
theorem not_arrival_of_running (hone : m.places p ≤ 1) (hc : m.runningTasks c = some p) :
    p ∉ m.events.arrivals := by
  intro hmem
  have harrival := List.count_pos_iff.2 hmem
  have hcore : 0 < (m.coresOf p).card := Finset.card_pos.2 ⟨c, by simpa [coresOf] using hc⟩
  rw [places] at hone
  omega

section Events

variable (he : m.events.IsNext e) (hroster : m.Roster w)
  (hfresh : ∀ r ∈ m.events.arrivals, (m.heap r).startTime < 0) (hm : m.Leveled params slot)

omit [Fintype Q] in
/-- A new task starts at the top with a whole allotment. -/
theorem Leveled.gauge_arrived (hm : m.Leveled params slot) (he : m.events.IsNext e)
    (hfresh : ∀ r ∈ m.events.arrivals, (m.heap r).startTime < 0) (harr : e.type = .arrival) :
    ((m.pop e).enqueue q e.task).gauge r
      = if e.type = .arrival ∧ r = e.task then
          (0, (MLFQScheduler.new params).allotmentForLevel 0)
        else m.gauge r := by
  have hneg : ((m.pop e).heap e.task).startTime < 0 :=
    hfresh e.task (EventQueue.mem_arrivals.2 ⟨e, he.1, harr, rfl⟩)
  have hparams : ((m.pop e).schedulers q).params = params := hm.sameParams q
  rw [gauge_enqueue, if_pos hneg, MLFQScheduler.allotmentForLevel_of_params hparams]
  simp only [harr, true_and]
  rfl

include he hroster hfresh hm

/-- Without a charge only a new task changes its gauge. -/
theorem Outcome.gauge_uncharged (h : Outcome cfg slot m e none m') : m'.gauge r
    = if e.type = .arrival ∧ r = e.task then (0, (MLFQScheduler.new params).allotmentForLevel 0)
      else m.gauge r := by
  cases h with
  | ignored hna => exact (if_neg fun h => hna h.1).symm
  | queued harr => exact hm.gauge_arrived he hfresh harr
  | @woken c _ harr _ hn =>
    have hparts : Parts w cfg slot m ((m.pop e).enqueue (slot c) e.task) :=
      parts_arrived he harr hroster hfresh
    rw [hn.gauge (hm.of_parts hparts hroster).2 r]
    exact hm.gauge_arrived he hfresh harr

omit [Fintype Q] hroster in
/-- The gauges just before the charge. -/
theorem Outcome.gauge_before (h : Outcome cfg slot m e (some (c, m₀)) m') : m₀.gauge r
    = if e.type = .arrival ∧ r = e.task then (0, (MLFQScheduler.new params).allotmentForLevel 0)
      else m.gauge r := by
  cases h with
  | preempted harr => exact hm.gauge_arrived he hfresh harr
  | expired hts =>
    refine (if_neg fun h => ?_).symm
    rw [hts] at h
    exact absurd h.1 (by decide)

omit [Fintype Q] [DecidableEq Q] he hroster hfresh hm in
/-- A task that has arrived after the event is the new one, or had arrived before. -/
theorem not_arrival_before (he : m.events.IsNext e)
    (harr : r ∉ EventQueue.arrivals (m.events.erase e))
    (hnew : ¬ (e.type = .arrival ∧ r = e.task)) : r ∉ m.events.arrivals := by
  intro hmem
  have hcount := EventQueue.count_arrivals_erase m.events he.1 r
  rw [if_neg fun h => hnew ⟨h.1, h.2.symm⟩, List.count_eq_zero.2 harr] at hcount
  exact absurd hmem (List.count_eq_zero.1 hcount)

/-- The meter of the task that is charged. -/
theorem Outcome.ticks_self (h : Outcome cfg slot m e (some (c, m₀)) m')
    (hc : m.runningTasks c = some p) (harr : p ∉ EventQueue.arrivals (m.events.erase e)) :
    Ticks params m m' used (meter slot m e (some (c, m₀)) used) p := by
  obtain ⟨hroster₀, hm₀⟩ := hm.of_parts (h.parts_charged he hroster hfresh) hroster
  obtain ⟨hc₀, hsame, hold⟩ := h.task_charged hroster₀ hc
  have hgauge := h.gauge_charged (r := p) hm₀ hroster₀ hc
  have hmeter := meter_self slot e m₀ used hc
  have hlevels := MLFQScheduler.numLevels_of_params (hm₀.sameParams (slot c))
  obtain ⟨hlow, hhigh⟩ := hm₀.range (slot c) p (.inr ⟨c, rfl, hc₀⟩)
  rw [level, hsame] at hlow hhigh
  rw [if_pos rfl] at hgauge
  by_cases hnew : (m.heap p).startTime < 0 ∧ m.GoesBack e c p
  · rw [if_pos hnew] at hgauge
    exact .set le_rfl (by omega) hgauge (hmeter.trans (if_pos (.inr hnew)))
  rw [if_neg hnew, MLFQScheduler.gauge_chargeAllotment] at hgauge
  by_cases hout : (m.heap p).allotmentRemaining ≤ m₀.elapsed c
  · -- demoted, or once more at the last level
    rw [if_pos hout, hlevels,
      MLFQScheduler.allotmentForLevel_of_params (hm₀.sameParams (slot c))] at hgauge
    refine .set ?_ ?_ hgauge (hmeter.trans (if_pos (.inl hout)))
    · split <;> omega
    · split <;> omega
  · rw [if_neg hout] at hgauge
    exact .charged (not_arrival_before he harr hold) hgauge (fun _ => not_le.1 hout)
      (hmeter.trans (if_neg (not_or.2 ⟨hout, hnew⟩)))

/-- The meter of another task. -/
theorem Outcome.ticks_of_ne (h : Outcome cfg slot m e (some (c, m₀)) m')
    (hc : m.runningTasks c = some p) (hr : r ≠ p)
    (harr : r ∉ EventQueue.arrivals (m.events.erase e)) :
    Ticks params m m' used (meter slot m e (some (c, m₀)) used) r := by
  have hpos := List.length_pos_of_ne_nil params.configs_ne
  obtain ⟨hroster₀, hm₀⟩ := hm.of_parts (h.parts_charged he hroster hfresh) hroster
  obtain ⟨hc₀, -⟩ := h.task_charged hroster₀ hc
  have hgauge := h.gauge_charged (r := r) hm₀ hroster₀ hc
  have hmeter := meter_of_ne slot e m₀ used hc hr
  rw [if_neg hr, Machine.gauge_charge hm₀.placed
    (not_ready_of_running (hroster₀.le_one p) hc₀ _), if_neg hr,
    MLFQScheduler.allotmentForLevel_of_params (hm₀.sameParams (slot c)),
    h.gauge_before he hfresh hm] at hgauge
  by_cases hboost : (m₀.schedulers (slot c)).BoostDue (m₀.elapsed c) ∧ r ∈ m₀.ready (slot c)
  · rw [if_pos hboost] at hgauge
    exact .set le_rfl (by omega) hgauge (hmeter.trans (if_pos (.inr hboost)))
  rw [if_neg hboost] at hgauge
  by_cases hnew : e.type = .arrival ∧ r = e.task
  · rw [if_pos hnew] at hgauge
    exact .set le_rfl (by omega) hgauge (hmeter.trans (if_pos (.inl hnew)))
  · rw [if_neg hnew] at hgauge
    exact .kept (not_arrival_before he harr hnew) hgauge
      (hmeter.trans (if_neg (not_or.2 ⟨hnew, hboost⟩)))

/-- The meter of a task when nobody is charged. -/
theorem Outcome.ticks_uncharged (h : Outcome cfg slot m e none m')
    (harr : r ∉ EventQueue.arrivals (m.events.erase e)) :
    Ticks params m m' used (meter slot m e none used) r := by
  have hpos := List.length_pos_of_ne_nil params.configs_ne
  have hgauge := h.gauge_uncharged (r := r) he hroster hfresh hm
  by_cases hnew : e.type = .arrival ∧ r = e.task
  · rw [if_pos hnew] at hgauge
    exact .set le_rfl (by omega) hgauge (if_pos hnew)
  · rw [if_neg hnew] at hgauge
    exact .kept (not_arrival_before he harr hnew) hgauge (if_neg hnew)

/-- **Every step keeps the meter and the allotments in balance.** -/
theorem Outcome.metered (hquanta : ∀ config ∈ params.queueConfigs, 0 < config.timeQuantum)
    (h : Outcome cfg slot m e call m')
    (harrivals : m'.events.arrivals = EventQueue.arrivals (m.events.erase e))
    (hused : m.Metered params w used) : m'.Metered params w (meter slot m e call used) := by
  refine hused.of_ticks hquanta fun r hr harr => ?_
  rw [harrivals] at harr
  cases call with
  | none => exact h.ticks_uncharged he hroster hfresh hm harr
  | some core =>
    obtain ⟨c, m₀⟩ := core
    obtain ⟨p, hc⟩ := h.running_charged
    by_cases hrp : r = p
    · subst hrp
      exact h.ticks_self he hroster hfresh hm hc harr
    · exact h.ticks_of_ne he hroster hfresh hm hc hrp harr

omit [Fintype Q] [DecidableEq Q] in
/-- What a charge of the task `p` on core `c`, in the state `m₀`, does when the meter shows
`used`: `m'` is the state when the event has been handled. -/
structure ChargedInFull (params : MLFQParams) (slot : Fin n → Q) (m₀ : Machine MLFQScheduler Q n)
    (c : Fin n) (p : TaskPtr) (used : ℚ) (m' : Machine MLFQScheduler Q n) : Prop where
  before : used < (MLFQScheduler.new params).allotmentForLevel (m₀.level p)
  bounded : used + m₀.elapsed c < (MLFQScheduler.new params).allotmentForLevel (m₀.level p)
    + (MLFQScheduler.new params).quantumForLevel (m₀.level p)
  /-- Above the last level the charge demotes the task if it uses up the allotment. -/
  demoted : m₀.level p < params.queueConfigs.length - 1 → (m₀.charge (slot c) c p).level p
    = if (MLFQScheduler.new params).allotmentForLevel (m₀.level p) ≤ used + m₀.elapsed c then
        m₀.level p + 1
      else m₀.level p
  /-- The rest of the handler leaves the level as it is, unless the task is taken for a new one. -/
  kept : 0 ≤ (m₀.heap p).startTime → m'.level p = (m₀.charge (slot c) c p).level p

theorem Outcome.chargedInFull
    (hquanta : ∀ config ∈ params.queueConfigs, 0 < config.timeQuantum)
    (h : Outcome cfg slot m e (some (c, m₀)) m') (hused : m.Metered params w used)
    (hslice : m.WithinQuantum params) (hpending : m.SlicePending)
    (hc : m.runningTasks c = some p) : ChargedInFull params slot m₀ c p (used p) m' := by
  obtain ⟨hroster₀, hm₀⟩ := hm.of_parts (h.parts_charged he hroster hfresh) hroster
  obtain ⟨hc₀, hsame, -⟩ := h.task_charged hroster₀ hc
  have hunder : Under slot m (slot c) p := .inr ⟨c, rfl, hc⟩
  have hadded : p ∈ w.added := hroster.mem_of_under hunder
  have harr : p ∉ m.events.arrivals := not_arrival_of_running (hroster.le_one p) hc
  have hbalance := hused.balance p hadded harr
  have hleft := hused.left_pos p hadded harr
  have hx : m₀.elapsed c ≤ (MLFQScheduler.new params).quantumForLevel (m.level p) := by
    rw [h.elapsed_charged]
    exact (elapsed_le_granted hpending he hc).trans (hslice c p hc)
  have hquantum : 0 < (MLFQScheduler.new params).quantumForLevel (m.level p) :=
    hquanta _ (MLFQScheduler.configAt_mem _ _)
  have hlevels := MLFQScheduler.numLevels_of_params (hm₀.sameParams (slot c))
  have hcharge := Machine.gauge_charge (c := c) (r := p) hm₀.placed
    (not_ready_of_running (hroster₀.le_one p) hc₀ (slot c))
  rw [if_pos rfl, hsame] at hcharge
  refine ⟨?_, ?_, fun hlast => ?_, fun hstart => ?_⟩
  · rw [level, hsame]
    linarith
  · rw [level, hsame]
    linarith
  · have hsame' : m₀.level p = (m.heap p).currentQueue := congrArg Task.currentQueue hsame
    have hlevel : (m₀.charge (slot c) c p).level p = _ := congrArg Prod.fst hcharge
    rw [hsame'] at hlast ⊢
    rw [MLFQScheduler.gauge_chargeAllotment, hlevels] at hlevel
    have hiff : (m.heap p).allotmentRemaining ≤ m₀.elapsed c ↔
        (MLFQScheduler.new params).allotmentForLevel (m.heap p).currentQueue
          ≤ used p + m₀.elapsed c := by
      rw [hbalance]
      constructor <;> intro hle <;> linarith
    rw [hlevel]
    simp only [hiff, if_pos hlast]
    split <;> rfl
  · rw [hsame] at hstart
    have hgauge := h.gauge_charged (r := p) hm₀ hroster₀ hc
    rw [if_pos rfl, if_neg fun hneg => absurd hneg.1 (not_lt.2 hstart), ← hcharge] at hgauge
    exact congrArg Prod.fst hgauge

end Events

end Steps

/-! ## Runs -/

section Runs

variable [Fintype Q] [NeZero n]

omit [DecidableEq Q] [Fintype Q] in
/-- The meters all show nothing at first. -/
theorem metered_init : (init (fun _ => MLFQScheduler.new params) w :
    Machine MLFQScheduler Q n).Metered params w fun _ => 0 := by
  have hall : ∀ r ∈ w.added, r ∈ (init (fun _ => MLFQScheduler.new params) w :
      Machine MLFQScheduler Q n).events.arrivals := by
    intro r hr
    rwa [arrivals_init]
  exact ⟨fun r hr harr => absurd (hall r hr) harr, fun r hr harr => absurd (hall r hr) harr⟩

variable (hquanta : ∀ config ∈ params.queueConfigs, 0 < config.timeQuantum)
  (hreach : Lts.Reachable (Step cfg slot) (init (fun _ => MLFQScheduler.new params) w) m)

include hreach

theorem leveled_of_reachable : m.Leveled params slot :=
  leveled_of_parts (parts_of_reachable (fun _ => MLFQScheduler.readyTasks_new params) hreach)

include hquanta

theorem Outcome.metered_of_reachable (h : Outcome cfg slot m e call m')
    (hstep : Step cfg slot m e m') (hused : m.Metered params w used) :
    m'.Metered params w (meter slot m e call used) := by
  have hempty := MLFQScheduler.readyTasks_new params
  exact h.metered hstep.1 (roster_of_reachable (fun _ => hempty) hreach)
    (unstarted_of_reachable (fun _ => hempty) hreach) (leveled_of_reachable hreach) hquanta
    hstep.2.2.arrivals hused

theorem withinQuantum_of_reachable : m.WithinQuantum params := by
  have hempty := MLFQScheduler.readyTasks_new params
  have hparts := parts_of_reachable (fun _ => hempty) hreach
  have hnil : Parts w cfg slot (init (fun _ => MLFQScheduler.new params) w)
      (init (fun _ => MLFQScheduler.new params) w) := .refl
  have hinit := leveled_of_parts hnil
  refine (Parts.invariant (I := fun m => m.Leveled params slot ∧ m.WithinQuantum params)
    (fun _ => hempty) ⟨hinit, ?_⟩ (fun m m' hroster hm hpart => ?_) hparts).2.2
  · intro c p hc
    cases hc
  · exact ⟨hpart.leveled hroster hm.1, hpart.withinQuantum hquanta hroster hm.1 hm.2⟩

theorem Outcome.chargedInFull_of_reachable (h : Outcome cfg slot m e (some (c, m₀)) m')
    (hstep : Step cfg slot m e m') (hused : m.Metered params w used)
    (hc : m.runningTasks c = some p) : ChargedInFull params slot m₀ c p (used p) m' := by
  have hempty := MLFQScheduler.readyTasks_new params
  exact h.chargedInFull hstep.1 (roster_of_reachable (fun _ => hempty) hreach)
    (unstarted_of_reachable (fun _ => hempty) hreach) (leveled_of_reachable hreach) hquanta hused
    (withinQuantum_of_reachable hquanta hreach) (slicePending_of_reachable hreach) hc

end Runs

end Machine

/-! ## The two simulators -/

/-- The meters of the single-queue simulator. -/
def Simulator.meter {n : ℕ} (s : Simulator MLFQScheduler n) (e : Event n) :
    (TaskPtr → ℚ) → TaskPtr → ℚ := Machine.meter slot s e (s.chargeCall e)

/-- The meters of the multi-queue simulator. -/
def MultiCoreSimulator.meter {n : ℕ} [NeZero n] (s : MultiCoreSimulator MLFQScheduler n)
    (e : Event n) : (TaskPtr → ℚ) → TaskPtr → ℚ :=
  Machine.meter slot s.toMachine e (s.chargeCall e)

theorem Simulator.metered_of_reachable {n : ℕ} [NeZero n] {params : MLFQParams} {w : Workload}
    {cfg : SimConfig} {s : Simulator MLFQScheduler n} {used : TaskPtr → ℚ}
    (hquanta : ∀ config ∈ params.queueConfigs, 0 < config.timeQuantum)
    (h : Lts.Reachable (Lts.Recorded (Step cfg) meter)
      (init (MLFQScheduler.new params) w, fun _ => 0) (s, used)) :
    Machine.Metered params w s used := by
  refine h.induction (I := fun a => Machine.Metered params w a.1 a.2) Machine.metered_init ?_
  intro a e b ha hused hstep
  have hreach := ha.of_recorded.simulate (f := id) fun _ _ _ => step_machine
  rw [hstep.2]
  exact (outcome_of_step hstep.1).metered_of_reachable hquanta hreach (step_machine hstep.1) hused

theorem MultiCoreSimulator.metered_of_reachable {n : ℕ} [NeZero n] {params : MLFQParams}
    {balancer : LoadBalancer} {w : Workload} {cfg : MultiConfig}
    {s : MultiCoreSimulator MLFQScheduler n} {used : TaskPtr → ℚ}
    (hquanta : ∀ config ∈ params.queueConfigs, 0 < config.timeQuantum)
    (h : Lts.Reachable (Lts.Recorded (Step cfg) meter)
      (init (MLFQScheduler.new params) balancer w, fun _ => 0) (s, used)) :
    Machine.Metered params w s.toMachine used := by
  refine h.induction (I := fun a => Machine.Metered params w a.1.toMachine a.2)
    Machine.metered_init ?_
  intro a e b ha hused hstep
  have hreach := ha.of_recorded.simulate (f := toMachine) fun _ _ _ => step_machine
  rw [hstep.2]
  exact (outcome_of_step hstep.1).metered_of_reachable hquanta hreach (step_machine hstep.1) hused

/-- **Allotments cannot be gamed**, in any run of either simulator whose levels have positive
quanta.  The CPU charged to a task since its allotment was set is what is missing of the
allotment; a charge demotes a task above the last level exactly when it uses the allotment up,
and then the task has been charged for less than the allotment and a quantum. -/
theorem allotments_notGamed {n : ℕ} [NeZero n] (params : MLFQParams) (w : Workload)
    (hquanta : ∀ config ∈ params.queueConfigs, 0 < config.timeQuantum) :
    (∀ (cfg : SimConfig) (s : Simulator MLFQScheduler n) (used : TaskPtr → ℚ),
      Lts.Reachable (Lts.Recorded (Simulator.Step cfg) Simulator.meter)
        (Simulator.init (MLFQScheduler.new params) w, fun _ => 0) (s, used) →
      Machine.Metered params w s used ∧
      ∀ e s' c m₀ p, Simulator.Step cfg s e s' → s.chargeCall e = some (c, m₀) →
        s.runningTasks c = some p →
        Machine.ChargedInFull params Simulator.slot m₀ c p (used p) s') ∧
    (∀ (balancer : LoadBalancer) (cfg : MultiConfig) (s : MultiCoreSimulator MLFQScheduler n)
        (used : TaskPtr → ℚ),
      Lts.Reachable (Lts.Recorded (MultiCoreSimulator.Step cfg) MultiCoreSimulator.meter)
        (MultiCoreSimulator.init (MLFQScheduler.new params) balancer w, fun _ => 0) (s, used) →
      Machine.Metered params w s.toMachine used ∧
      ∀ e s' c m₀ p, MultiCoreSimulator.Step cfg s e s' → s.chargeCall e = some (c, m₀) →
        s.runningTasks c = some p →
        Machine.ChargedInFull params MultiCoreSimulator.slot m₀ c p (used p) s'.toMachine) := by
  constructor
  · intro cfg s used h
    have hused := Simulator.metered_of_reachable hquanta h
    refine ⟨hused, fun e s' c m₀ p hstep hcall hc => ?_⟩
    have hreach := h.of_recorded.simulate (f := id) fun _ _ _ => Simulator.step_machine
    have houtcome := Simulator.outcome_of_step hstep
    rw [hcall] at houtcome
    exact houtcome.chargedInFull_of_reachable hquanta hreach (Simulator.step_machine hstep) hused hc
  · intro balancer cfg s used h
    have hused := MultiCoreSimulator.metered_of_reachable hquanta h
    refine ⟨hused, fun e s' c m₀ p hstep hcall hc => ?_⟩
    have hreach := h.of_recorded.simulate (f := MultiCoreSimulator.toMachine) fun _ _ _ =>
      MultiCoreSimulator.step_machine
    have houtcome := MultiCoreSimulator.outcome_of_step hstep
    rw [hcall] at houtcome
    exact houtcome.chargedInFull_of_reachable hquanta hreach (MultiCoreSimulator.step_machine hstep)
      hused hc

/-- A task of 10 ms has been charged one slice of 2 ms; the second slice uses its allotment up. -/
theorem allotments_notGamed_one :
    let cfg : SimConfig := { stopTime := 50 }
    let w := Workload.ofList [⟨0, 0, 10, 0⟩]
    let s : Simulator MLFQScheduler 1 :=
      Simulator.turns cfg 2 (Simulator.init (MLFQScheduler.new {}) w)
    let e : Event 1 := ⟨.timeSlice, 4, 0, 0⟩
    ∃ used, Lts.Reachable (Lts.Recorded (Simulator.Step cfg) Simulator.meter)
        (Simulator.init (MLFQScheduler.new {}) w, fun _ => 0) (s, used) ∧
      used 0 = 2 ∧ ((s.pop e).charge (Simulator.slot (0 : Fin 1)) 0 0).level 0 = 1 := by
  intro cfg w s e
  obtain ⟨used, hrun⟩ := (Simulator.reachable_turns cfg 2
    (Simulator.init (MLFQScheduler.new {}) w : Simulator MLFQScheduler 1)).recorded
    Simulator.meter fun _ => 0
  obtain ⟨hused, hcharges⟩ := (allotments_notGamed {} w (by decide)).1 cfg s used hrun
  have hc : s.runningTasks 0 = some 0 := by decide +kernel
  have hused₀ : used 0 = 2 :=
    (hused.balance 0 (by decide +kernel) (by decide +kernel)).trans (by decide +kernel)
  have hcall := Simulator.chargeCall_of_slice (s := s) (e := e) rfl hc
  have hcharged := hcharges e _ 0 (s.pop e) 0 ⟨by decide +kernel, by decide +kernel, rfl⟩
    hcall hc
  rw [hused₀] at hcharged
  have hlast : (s.pop e).level 0 < ({} : MLFQParams).queueConfigs.length - 1 := by decide +kernel
  have hlevel := hcharged.demoted hlast
  have hout : (MLFQScheduler.new {}).allotmentForLevel ((s.pop e).level 0)
      ≤ 2 + (s.pop e).elapsed 0 := by decide +kernel
  have htop : (s.pop e).level 0 = 0 := by decide +kernel
  rw [if_pos hout, htop, zero_add] at hlevel
  exact ⟨used, hrun, hused₀, hlevel⟩

end SchedSim
