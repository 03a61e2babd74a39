import SchedSim.OwnRecord

/-!
# Handling an event, part by part

`Machine.Move` says what one event can do from beginning to end.  An invariant of
the policy fields is easier to follow through the parts a move is made of: there
are seven of them, they know the core and the scheduler they work for, and between
any two of them no task stands in two places.

* `Machine.Part` — the parts, with what holds before each.
* `Machine.Move.parts`, `Machine.parts_of_reachable` — every move, and so every run,
  is a sequence of parts.
* `Machine.Parts.invariant` — what every part keeps holds of every run, and also in
  the middle of handling an event.
-/

namespace SchedSim

/-- Whatever can be read off the policy fields is the same for two tasks with the same policy
fields. -/
theorem Task.congrPolicy {α : Type*} {t u : Task} (f : Task → α) (h : t.policy = u.policy)
    (hf : ∀ t, f t.policy = f t := by intro _; rfl) : f t = f u := by
  rw [← hf t, h, hf u]

namespace Machine

variable {σ Q : Type} [Scheduler σ] [DecidableEq Q] [Fintype Q] {n : ℕ} {m m' : Machine σ Q n}
  {e : Event n} {q q' b : Q} {c : Fin n} {p r : TaskPtr} {cfg : SimConfig} {slot : Fin n → Q}
  {x : ℚ} {w : Workload} {schedulers : Q → σ}

/-- The parts of handling an event. -/
inductive Part (w : Workload) (cfg : SimConfig) (slot : Fin n → Q) (m : Machine σ Q n) :
    Machine σ Q n → Prop
  | pop {e : Event n} : m.events.IsNext e → Part w cfg slot m (m.pop e)
  /-- A new task becomes ready. -/
  | enter {q : Q} {p : TaskPtr} : p ∈ w.added → m.places p = 0 → (m.heap p).startTime < 0 →
      Part w cfg slot m (m.enqueue q p)
  /-- The task on a core is charged and goes back to the queue. -/
  | yield {c : Fin n} {p : TaskPtr} : m.runningTasks c = some p →
      Part w cfg slot m (m.yieldCore (slot c) c p)
  /-- The task on a core is charged and has finished. -/
  | finish {c : Fin n} {p : TaskPtr} : m.runningTasks c = some p →
      ((m.charge (slot c) c p).heap p).isCompleted = true →
      Part w cfg slot m ((m.charge (slot c) c p).finish c p)
  | countSwitch : Part w cfg slot m m.countSwitch
  /-- A core steals what another scheduler would run next. -/
  | migrate {b : Q} {c : Fin n} {p : TaskPtr} : b ≠ slot c → m.ready (slot c) = [] →
      (schedule (m.schedulers b) m.heap).task = some p → Part w cfg slot m (m.migrate b (slot c) p)
  /-- A core gets what its scheduler chooses. -/
  | dispatch {c : Fin n} {p : TaskPtr} {x : ℚ} : m.runningTasks c = none →
      (∀ e ∈ m.events, m.currentTime ≤ e.time) →
      schedule (m.schedulers (slot c)) m.heap = ⟨some p, x⟩ →
      Part w cfg slot m (m.dispatch cfg (slot c) c p x)

/-- Parts one after the other. -/
abbrev Parts (w : Workload) (cfg : SimConfig) (slot : Fin n → Q) :
    Machine σ Q n → Machine σ Q n → Prop := Relation.ReflTransGen (Part w cfg slot)

/-! ## Where the tasks stand -/

/-- Only tasks of the workload stand anywhere, and in one place at most. -/
def Roster (w : Workload) (m : Machine σ Q n) : Prop := ∀ r, m.places r ≤ w.added.count r

section Places

omit [DecidableEq Q] in
theorem Roster.le_one (h : m.Roster w) (r : TaskPtr) : m.places r ≤ 1 :=
  (h r).trans (List.nodup_iff_count_le_one.1 w.nodup r)

omit [DecidableEq Q] in
theorem Roster.mem_added (h : m.Roster w) (hr : 0 < m.places r) : r ∈ w.added :=
  List.count_pos_iff.1 (hr.trans_le (h r))

omit [DecidableEq Q] in
/-- The tasks of one scheduler are of the workload. -/
theorem Roster.mem_of_under (h : m.Roster w) (hr : Under slot m q r) : r ∈ w.added :=
  h.mem_added hr.places_pos

omit [DecidableEq Q] in
/-- A task on a core is under the scheduler of the core, and under no other. -/
theorem Under.slot_eq (h : Under slot m q p) (hone : m.places p ≤ 1)
    (hc : m.runningTasks c = some p) : q = slot c := by
  rcases h with h | ⟨d, hd, hrun⟩
  · exact absurd h (not_ready_of_running hone hc q)
  · rw [← hd, core_unique hone hrun hc]

variable [LawfulScheduler σ]

theorem places_migrate_le (hp : p ∈ m.ready b) : (m.migrate b q p).places r ≤ m.places r := by
  have hlost := (lost_spec (r := r) hp).1
  have := places_migrate (m := m) (b := b) (q := q) (p := p) (r := r)
  omega

theorem places_dispatch_le (hc : m.runningTasks c = none) (hp : p ∈ m.ready q) :
    (m.dispatch cfg q c p x).places r ≤ m.places r := by
  have hlost := (lost_spec (r := r) hp).1
  have := places_dispatch (q := q) (p := p) (r := r) cfg x hc
  omega

/-- No part puts a task in two places. -/
theorem Part.roster (h : Part w cfg slot m m') (hm : m.Roster w) : m'.Roster w := by
  intro r
  have hr := hm r
  cases h with
  | @pop e he =>
    have := places_pop (r := r) he.1
    omega
  | @enter q p hadded hp =>
    rw [places_enqueue]
    split
    next hrp =>
      rw [hrp, hp, List.count_eq_one_of_mem w.nodup hadded]
    next => exact hr
  | yield hc => rwa [places_yieldCore hc]
  | @finish c p hc =>
    have hrun : (m.charge (slot c) c p).runningTasks c = some p := hc
    rwa [places_finish hrun, places_charge]
  | countSwitch => exact hr
  | migrate _ _ hs => exact (places_migrate_le (schedule_mem _ m.heap _ hs)).trans hr
  | dispatch hc _ hs => exact (places_dispatch_le hc (mem_ready_of_schedule hs)).trans hr

end Places

/-! ## The tasks of a scheduler after a part -/

section Under

variable [LawfulScheduler σ]

/-- A new task is under the scheduler it is added to, and under no other. -/
theorem under_of_enqueue (hp : m.places p = 0) (h : Under slot (m.enqueue q p) q' r) :
    q' = q ∧ r = p ∨ r ≠ p ∧ Under slot m q' r := by
  have hold : Under slot m q' r → r ≠ p ∧ Under slot m q' r := by
    intro hr
    refine ⟨?_, hr⟩
    rintro rfl
    exact hr.places_pos.ne' hp
  rcases h with h | h
  · exact (mem_ready_enqueue.1 h).imp_right fun h => hold (.inl h)
  · exact .inr (hold (.inr h))

omit [Fintype Q] in
/-- The task that leaves its core was under the scheduler before. -/
theorem under_of_yieldCore (hc : m.runningTasks c = some p)
    (h : Under slot (m.yieldCore (slot c) c p) q' r) : Under slot m q' r := by
  rcases h with h | ⟨d, hd, hrun⟩
  · rcases mem_ready_yieldCore.1 h with ⟨rfl, rfl⟩ | h
    · exact .inr ⟨c, rfl, hc⟩
    · exact .inl h
  · refine .inr ⟨d, hd, ?_⟩
    rw [yieldCore_runningTasks, setAt_apply] at hrun
    split at hrun
    next => cases hrun
    next => exact hrun

/-- A task that has finished is under no scheduler. -/
theorem under_of_finish (hone : m.places p ≤ 1) (hc : m.runningTasks c = some p)
    (h : Under slot ((m.charge q c p).finish c p) q' r) : r ≠ p ∧ Under slot m q' r := by
  rcases h with h | ⟨d, hd, hrun⟩
  · rw [ready_finish] at h
    have hr := mem_ready_charge.1 h
    refine ⟨?_, .inl hr⟩
    rintro rfl
    exact not_ready_of_running hone hc q' hr
  · rw [finish_runningTasks, setAt_apply] at hrun
    split at hrun
    next => cases hrun
    next hdc =>
      refine ⟨?_, .inr ⟨d, hd, hrun⟩⟩
      rintro rfl
      exact hdc (core_unique hone hrun hc)

/-- A task that migrates is under the scheduler it moves to, and under no other. -/
theorem under_of_migrate (hone : m.places p ≤ 1) (hp : p ∈ m.ready b)
    (h : Under slot (m.migrate b q p) q' r) : q' = q ∧ r = p ∨ r ≠ p ∧ Under slot m q' r := by
  rcases h with h | ⟨d, hd, hrun⟩
  · refine (mem_ready_migrate.1 h).imp_right fun h => ?_
    obtain ⟨hr, hid⟩ := mem_ready_removeReady.1 h
    refine ⟨?_, .inl hr⟩
    rintro rfl
    exact hid (ready_unique hone hr hp) rfl
  · refine .inr ⟨?_, .inr ⟨d, hd, hrun⟩⟩
    rintro rfl
    exact not_ready_of_running hone hrun b hp

omit [Fintype Q] in
/-- The task that gets the core was ready before. -/
theorem under_of_dispatch (hp : p ∈ m.ready (slot c))
    (h : Under slot (m.dispatch cfg (slot c) c p x) q' r) : Under slot m q' r := by
  rcases h with h | ⟨d, hd, hrun⟩
  · rw [ready_dispatch] at h
    exact .inl (mem_ready_removeReady.1 h).1
  · rw [dispatch_runningTasks, setAt_apply] at hrun
    split at hrun
    next hdc =>
      subst hdc
      obtain rfl := Option.some.inj hrun
      exact .inl (hd ▸ hp)
    next => exact .inr ⟨d, hd, hrun⟩

end Under

omit [Fintype Q] in
/-- A policy that writes to one task at a time migrates without touching the others. -/
theorem record_migrate_of_ne [SingleRecord σ] (hr : r ≠ p) : (m.migrate b q p).heap r = m.heap r :=
  addTask_of_ne _ _ p r hr

/-! ## Moves -/

section Moves

/-- At the end of a slice the task goes back to the queue, or it has finished. -/
theorem part_settle (hc : m.runningTasks c = some p) :
    Part w cfg slot m (m.settle (slot c) c p) := by
  rw [settle_eq]
  split
  next hdone => exact .finish hc hdone
  next => exact .yield hc

/-- On an idle core `dispatch_next` is a dispatch, after a migration or without one. -/
theorem Next.parts (h : Next cfg slot c m m') (hc : m.runningTasks c = none)
    (hclock : ∀ e ∈ m.events, m.currentTime ≤ e.time) : Parts w cfg slot m m' := by
  cases h with
  | idle => rw [clearCore_eq_self m c hc]
  | own hs => exact .single (.dispatch hc hclock hs)
  | @steal b stolen p x hb hempty _ hst hs =>
    have hmigrate : Part w cfg slot m (m.migrate b (slot c) stolen) := .migrate hb hempty hst
    exact .head hmigrate (.single (.dispatch hc hclock hs))

omit [Fintype Q] in
/-- `dispatch_next` takes no task from the scheduler of the core. -/
theorem Next.under [LawfulScheduler σ] (h : Next cfg slot c m m') (hc : m.runningTasks c = none)
    (hids : ∀ r ∈ m.ready (slot c), ∀ u ∈ m.ready (slot c), (m.heap r).id = (m.heap u).id → r = u)
    (hr : Under slot m (slot c) r) : Under slot m' (slot c) r := by
  have hcore : ∀ {d}, m.runningTasks d = some r → d ≠ c := by
    rintro d hd rfl
    rw [hc] at hd
    cases hd
  cases h with
  | idle => rwa [clearCore_eq_self m c hc]
  | @own p x hs =>
    rcases hr with hr | ⟨d, hd, hrun⟩
    · by_cases hrp : r = p
      · subst hrp
        exact .inr ⟨c, rfl, by rw [dispatch_runningTasks, setAt_self]⟩
      · refine .inl ?_
        rw [ready_dispatch]
        exact mem_ready_removeReady.2 ⟨hr, fun _ hid =>
          hrp (hids r hr p (mem_ready_of_schedule hs) hid)⟩
    · exact .inr ⟨d, hd, by rw [dispatch_runningTasks, setAt_of_ne _ _ _ (hcore hrun), hrun]⟩
  | steal _ hempty =>
    rcases hr with hr | ⟨d, hd, hrun⟩
    · rw [hempty] at hr
      cases hr
    · refine .inr ⟨d, hd, ?_⟩
      rw [dispatch_runningTasks, setAt_of_ne _ _ _ (hcore hrun)]
      exact hrun

variable (he : m.events.IsNext e)

include he

/-- The new task stands in a queue. -/
theorem parts_arrived (harr : e.type = .arrival) (hm : m.Roster w)
    (hfresh : ∀ r ∈ m.events.arrivals, (m.heap r).startTime < 0) :
    Parts w cfg slot m ((m.pop e).enqueue q e.task) := by
  have hmem : e.task ∈ m.events.arrivals := EventQueue.mem_arrivals.2 ⟨e, he.1, harr, rfl⟩
  have hadded : e.task ∈ w.added := by
    refine hm.mem_added ?_
    have := List.count_pos_iff.2 hmem
    rw [places]
    omega
  refine .head (.pop he) (.single (.enter hadded (places_pop_arrival he.1 harr hm.le_one) ?_))
  exact hfresh e.task hmem

/-- The task the new one preempts is back in the queue. -/
theorem parts_preempted (harr : e.type = .arrival) (hm : m.Roster w)
    (hfresh : ∀ r ∈ m.events.arrivals, (m.heap r).startTime < 0)
    (hc : m.runningTasks c = some p) :
    Parts w cfg slot m
      (((m.pop e).enqueue (slot c) e.task).yieldCore (slot c) c p).countSwitch := by
  have harrived : Parts w cfg slot m ((m.pop e).enqueue (slot c) e.task) :=
    parts_arrived he harr hm hfresh
  have hyield : Part w cfg slot ((m.pop e).enqueue (slot c) e.task)
      (((m.pop e).enqueue (slot c) e.task).yieldCore (slot c) c p) := .yield hc
  exact (harrived.tail hyield).tail .countSwitch

/-- The task whose slice is over has been put back, or has finished. -/
theorem parts_expired (hc : m.runningTasks c = some p) :
    Parts w cfg slot m ((m.pop e).settle (slot c) c p) := by
  have hrun : (m.pop e).runningTasks c = some p := hc
  exact .head (.pop he) (.single (part_settle hrun))

/-- Handling an event is a sequence of parts. -/
theorem Move.parts (h : Move cfg slot m e m') (hm : m.Roster w)
    (hfresh : ∀ r ∈ m.events.arrivals, (m.heap r).startTime < 0) : Parts w cfg slot m m' := by
  have hclock : ∀ e' ∈ m.events.erase e, e.time ≤ e'.time := fun e' he' =>
    he.2 e' (List.mem_of_mem_erase he')
  cases h with
  | skip => exact .single (.pop he)
  | queued harr => exact parts_arrived he harr hm hfresh
  | woken harr hc hn => exact (parts_arrived he harr hm hfresh).trans (hn.parts hc hclock)
  | preempted harr hc _ _ hn =>
    refine (parts_preempted he harr hm hfresh hc).trans (hn.parts ?_ hclock)
    rw [countSwitch_runningTasks, yieldCore_runningTasks, setAt_self]
  | expired _ hc hn =>
    refine (parts_expired he hc).trans (hn.parts ?_ ?_)
    · rw [settle_runningTasks, setAt_self]
    · rw [settle_events, settle_currentTime]
      exact hclock

end Moves

/-! ## Runs -/

section Runs

variable [LawfulScheduler σ] [NeZero n]

omit [DecidableEq Q] [LawfulScheduler σ] in
theorem roster_init (hempty : ∀ q, readyTasks (schedulers q) = []) :
    (init schedulers w : Machine σ Q n).Roster w := fun r => (places_init hempty r).le

/-- What every part keeps holds of every state a run passes through. -/
theorem Parts.invariant {I : Machine σ Q n → Prop} (hempty : ∀ q, readyTasks (schedulers q) = [])
    (hinit : I (init schedulers w))
    (hpart : ∀ m m', m.Roster w → I m → Part w cfg slot m m' → I m')
    (h : Parts w cfg slot (init schedulers w) m) : m.Roster w ∧ I m := by
  induction h with
  | refl => exact ⟨roster_init hempty, hinit⟩
  | tail _ hp ih => exact ⟨hp.roster ih.1, hpart _ _ ih.1 ih.2 hp⟩

omit [NeZero n] in
/-- No part changes what the constructor of a task has fixed. -/
theorem Part.fixed (h : Part w cfg slot m m') (r : TaskPtr) :
    (m'.heap r).fixed = (m.heap r).fixed := by
  cases h with
  | pop => rfl
  | enter => exact fixed_enqueue
  | yield => exact fixed_yieldCore
  | finish => exact fixed_finish.trans fixed_charge
  | countSwitch => rfl
  | migrate => exact fixed_migrate
  | dispatch => exact fixed_dispatch

/-- With distinct ids, two tasks that stand anywhere have different ids. -/
theorem eq_of_id_eq_of_parts (hempty : ∀ q, readyTasks (schedulers q) = [])
    (h : Parts w cfg slot (init schedulers w) m) (hids : w.DistinctIds) {u : TaskPtr}
    (hr : 0 < m.places r) (hu : 0 < m.places u) (hid : (m.heap r).id = (m.heap u).id) : r = u := by
  obtain ⟨hroster, hfixed⟩ := Parts.invariant
    (I := fun m => ∀ r, (m.heap r).fixed = (w.heap r).fixed) hempty (fun _ => rfl)
    (fun m m' _ hm hpart r => (hpart.fixed r).trans (hm r)) h
  have hargs := fun r => congrArg (fun f => f.1.id) (hfixed r)
  exact hids r (hroster.mem_added hr) u (hroster.mem_added hu)
    ((hargs r).symm.trans (hid.trans (hargs u)))

theorem roster_of_parts (hempty : ∀ q, readyTasks (schedulers q) = [])
    (h : Parts w cfg slot (init schedulers w) m) : m.Roster w :=
  (Parts.invariant (I := fun _ => True) hempty trivial (fun _ _ _ _ _ => trivial) h).1

variable (hempty : ∀ q, readyTasks (schedulers q) = [])
  (h : Lts.Reachable (Step cfg slot) (init schedulers w) m)

include hempty h

theorem roster_of_reachable : m.Roster w := fun r => places_le_count hempty h r

/-- Every run is a sequence of parts. -/
theorem parts_of_reachable : Parts w cfg slot (init schedulers w) m := by
  refine h.induction (I := Parts w cfg slot (init schedulers w)) .refl ?_
  intro s e t hs ih hstep
  exact ih.trans (hstep.2.2.parts hstep.1 (roster_of_reachable hempty hs)
    (unstarted_of_reachable hempty hs))

/-- So is every run up to the arrival of a task. -/
theorem parts_arrived_of_reachable (he : m.events.IsNext e) (harr : e.type = .arrival) :
    Parts w cfg slot (init schedulers w) ((m.pop e).enqueue q e.task) :=
  (parts_of_reachable hempty h).trans
    (parts_arrived he harr (roster_of_reachable hempty h) (unstarted_of_reachable hempty h))

end Runs

end Machine

end SchedSim
