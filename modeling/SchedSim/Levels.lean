import SchedSim.Frame
import SchedSim.Schedulers.MLFQ

/-!
# Levels of the feedback queue

A queued task stands in the queue of its level.  The scheduler relies on this
when it takes the front of the first queue that is not empty for a task of the
highest priority.

* `MLFQScheduler.Placed` — every queued task stands in the queue of its level.
* `MLFQScheduler.level_le_of_schedule` — then `schedule` finds a task of the
  lowest level.
* `placed_addTask`, `placed_removeTask`, `placed_onCpuUsed` — no method breaks it.
-/

namespace SchedSim

namespace MLFQScheduler

variable {s : MLFQScheduler} {h h' : Heap} {p q r : TaskPtr} {x : ℚ} {i : UInt32} {k : ℕ}

/-- The level of a task. -/
abbrev level (h : Heap) (p : TaskPtr) : ℤ := (h p).currentQueue

/-- Every queued task stands in the queue of its level. -/
def Placed (s : MLFQScheduler) (h : Heap) : Prop :=
  ∀ k, ∀ p ∈ s.queues.getD k [], level h p = k

theorem mem_readyTasks : p ∈ readyTasks s ↔ ∃ k, p ∈ s.queues.getD k [] := by
  show p ∈ s.queues.flatten ↔ _
  rw [List.mem_flatten]
  constructor
  · rintro ⟨queue, hqueue, hp⟩
    obtain ⟨k, hk, rfl⟩ := List.mem_iff_getElem.1 hqueue
    exact ⟨k, by rwa [List.getD_eq_getElem _ _ hk]⟩
  · rintro ⟨k, hp⟩
    by_cases hk : k < s.queues.length
    · rw [List.getD_eq_getElem _ _ hk] at hp
      exact ⟨_, List.getElem_mem hk, hp⟩
    · rw [List.getD_eq_default _ _ (not_lt.1 hk)] at hp
      cases hp

theorem Placed.congr (hs : s.Placed h) (hh : ∀ p ∈ readyTasks s, level h' p = level h p) :
    s.Placed h' := by
  intro k p hp
  rw [hh p (mem_readyTasks.2 ⟨k, hp⟩), hs k p hp]

theorem readyTasks_new (params : MLFQParams) : readyTasks (new params) = [] := by
  show (params.queueConfigs.map fun _ => []).flatten = []
  simp

theorem placed_of_empty (hs : readyTasks s = []) : s.Placed h := by
  intro k p hp
  have hmem := mem_readyTasks.2 ⟨k, hp⟩
  rw [hs] at hmem
  cases hmem

/-- The scheduled task has the lowest level of the queued ones. -/
theorem level_le_of_schedule (hs : s.Placed h) (hp : SchedSim.schedule s h = ⟨some p, x⟩)
    (hr : r ∈ readyTasks s) : level h p ≤ level h r := by
  have hbest : s.findBest = some p := by
    have htask : (s.schedule h).task = some p := congrArg ScheduleDecision.task hp
    rwa [schedule_task, ← findSome?_head?] at htask
  obtain ⟨l₁, queue, l₂, hqueues, hhead, hnone⟩ := List.findSome?_eq_some_iff.1 hbest
  obtain ⟨k, hk⟩ := mem_readyTasks.1 hr
  have hlevel : level h p = l₁.length := by
    refine hs l₁.length p ?_
    rw [hqueues]
    simpa using List.mem_of_mem_head? hhead
  have hle : l₁.length ≤ k := by
    by_contra hlt
    rw [not_le] at hlt
    have hget : s.queues.getD k [] = l₁[k] := by
      rw [hqueues, List.getD_eq_getElem?_getD, List.getElem?_append_left hlt,
        List.getElem?_eq_getElem hlt, Option.getD_some]
    rw [hget, List.head?_eq_none_iff.1 (hnone _ (List.getElem_mem hlt))] at hk
    cases hk
  rw [hlevel, hs k r hk]
  exact Int.ofNat_le.2 hle

/-! ## Adding a task -/

theorem clampLevel_nonneg (s : MLFQScheduler) (level : ℤ) : 0 ≤ s.clampLevel level :=
  le_max_left _ _

theorem addTask_of_ne (hr : r ≠ p) : (SchedSim.addTask s h p).2 r = h r := by
  show (MLFQScheduler.addTask s h p).2 r = h r
  rw [addTask]
  simp only [enqueue, Heap.modify_of_ne hr]
  split
  · rw [Heap.modify_of_ne hr]
  · rfl

theorem clampLevel_zero (s : MLFQScheduler) : s.clampLevel 0 = 0 := by
  have := s.clampLevel_nonneg 0
  have hle : s.clampLevel 0 ≤ max 0 0 := max_le_max le_rfl (min_le_left _ _)
  omega

/-- A task that has never run is queued at the top, any other one at its level. -/
theorem level_addTask_self (s : MLFQScheduler) (h : Heap) (p : TaskPtr) :
    level (SchedSim.addTask s h p).2 p
      = if (h p).startTime < 0 then 0 else s.clampLevel (level h p) := by
  show level (MLFQScheduler.addTask s h p).2 p = _
  simp only [addTask, enqueue, level, Heap.modify_self]
  split
  · rw [Heap.modify_self, clampLevel_zero]
  · rfl

/-- The heap just before a task is queued. -/
theorem exists_enqueue (s : MLFQScheduler) (h : Heap) (p : TaskPtr) :
    ∃ h', (∀ r, r ≠ p → h' r = h r) ∧ SchedSim.addTask s h p = s.enqueue h' p := by
  refine ⟨_, fun r hr => ?_, rfl⟩
  split
  · exact Heap.modify_of_ne hr _ _
  · rfl

theorem placed_addTask (hs : s.Placed h) (hp : p ∉ readyTasks s) :
    (SchedSim.addTask s h p).1.Placed (SchedSim.addTask s h p).2 := by
  obtain ⟨h', hother, heq⟩ := exists_enqueue s h p
  rw [heq]
  intro k r hr
  have hqueue : (s.enqueue h' p).1.queues.getD k []
      = if k = (s.clampLevel (level h' p)).toNat then s.queues.getD k [] ++ [p]
        else s.queues.getD k [] := by
    have hlt := s.clampLevel_lt (level h' p)
    simp only [enqueue, List.getD_eq_getElem?_getD, List.getElem?_modify]
    split
    next hk =>
      subst hk
      rw [if_pos rfl, List.getElem?_eq_getElem hlt]
      rfl
    next hk =>
      rw [if_neg (Ne.symm hk)]
      simp
  have hlevel : level (s.enqueue h' p).2 p = s.clampLevel (level h' p) := by
    simp [level, enqueue]
  have hold : ∀ k, r ∈ s.queues.getD k [] → level (s.enqueue h' p).2 r = k := by
    intro k hk
    have hne : r ≠ p := by
      rintro rfl
      exact hp (mem_readyTasks.2 ⟨k, hk⟩)
    rw [level, enqueue]
    simp only [Heap.modify_of_ne hne, hother r hne]
    exact hs k r hk
  rw [hqueue] at hr
  split at hr
  next hk =>
    rcases List.mem_append.1 hr with hr | hr
    · exact hold k hr
    · obtain rfl := List.mem_singleton.1 hr
      rw [hlevel, hk, Int.toNat_of_nonneg (s.clampLevel_nonneg _)]
  next => exact hold k hr

/-! ## Removing a task -/

theorem placed_removeTask (hs : s.Placed h) : (SchedSim.removeTask s h i).Placed h := by
  intro k r hr
  refine hs k r ?_
  have hqueue : (SchedSim.removeTask s h i).queues.getD k []
      = (s.queues.getD k []).filter fun p => (h p).id ≠ i := by
    show (s.queues.map fun queue => queue.filter fun p => (h p).id ≠ i).getD k [] = _
    rw [List.getD_eq_getElem?_getD, List.getElem?_map, List.getD_eq_getElem?_getD]
    cases s.queues[k]? <;> rfl
  rw [hqueue] at hr
  exact List.mem_of_mem_filter hr

/-! ## Charging a task -/

/-- `on_cpu_used` for `x` boosts the queued tasks. -/
def BoostDue (s : MLFQScheduler) (x : ℚ) : Prop :=
  s.params.enableBoost = true ∧ s.params.boostInterval ≤ s.timeSinceLastBoost + x

instance (s : MLFQScheduler) (x : ℚ) : Decidable (s.BoostDue x) :=
  inferInstanceAs (Decidable (_ ∧ _))

/-- The level at which a task comes back to the queues when it is charged for `x`. -/
def returnLevel (s : MLFQScheduler) (x : ℚ) (t : Task) : ℤ :=
  if t.startTime < 0 then 0
  else if t.allotmentRemaining ≤ x ∧ t.currentQueue < s.numLevels - 1 then
    s.clampLevel (t.currentQueue + 1)
  else s.clampLevel t.currentQueue

/-- A task is demoted when its allotment is used up. -/
theorem chargeAllotment_currentQueue (s : MLFQScheduler) (x : ℚ) (t : Task) :
    (s.chargeAllotment x t).currentQueue
      = if t.allotmentRemaining ≤ x ∧ t.currentQueue < s.numLevels - 1 then t.currentQueue + 1
        else t.currentQueue := by
  simp only [chargeAllotment, sub_nonpos]
  by_cases hleft : t.allotmentRemaining ≤ x
  · simp only [hleft, if_true, true_and]
  · simp only [hleft, if_false, false_and]

/-- An update of tasks that leaves something about them alone. -/
theorem congr_modifyAll {α : Type*} (g : Task → α) {ps : List TaskPtr} {f : Task → Task}
    (hf : ∀ t, g (f t) = g t) : g (h.modifyAll ps f r) = g (h r) := by
  induction ps generalizing h with
  | nil => rfl
  | cons p ps ih =>
    show g ((h.modify p f).modifyAll ps f r) = g (h r)
    rw [ih, Heap.modify_apply]
    split
    · exact hf _
    · rfl

/-- An update that makes it the same for all of them. -/
theorem modifyAll_eq_of_mem {α : Type*} (g : Task → α) {a : α} {ps : List TaskPtr}
    {f : Task → Task} (hf : ∀ t, g (f t) = a) (hr : r ∈ ps) : g (h.modifyAll ps f r) = a := by
  induction ps generalizing h with
  | nil => cases hr
  | cons p ps ih =>
    show g ((h.modify p f).modifyAll ps f r) = a
    by_cases hmem : r ∈ ps
    · exact ih hmem
    · obtain rfl : r = p := (List.mem_cons.1 hr).resolve_right hmem
      rw [Heap.modifyAll_of_notMem hmem, Heap.modify_self]
      exact hf _

/-- A boost moves every queued task to the top. -/
theorem level_performBoost (hs : s.Placed h) : level (s.performBoost h).2 r
    = if r ∈ readyTasks s then 0 else level h r := by
  have hboost : level (s.performBoost h).2 r = level (s.boostAll h).2 r := by
    rw [performBoost]
    exact congr_modifyAll Task.currentQueue fun _ => rfl
  rw [hboost, boostAll]
  by_cases hlower : r ∈ s.queues.tail.flatten
  · have hmem : r ∈ readyTasks s := by
      obtain ⟨queue, hqueue, hr⟩ := List.mem_flatten.1 hlower
      exact List.mem_flatten.2 ⟨queue, List.mem_of_mem_tail hqueue, hr⟩
    rw [if_pos hmem]
    exact modifyAll_eq_of_mem Task.currentQueue (fun _ => rfl) hlower
  · simp only [level, Heap.modifyAll_of_notMem hlower]
    split
    next hmem =>
      -- it stands in the first queue
      have hhead : r ∈ s.queues.getD 0 [] := by
        obtain ⟨queue, hqueue, hr⟩ := List.mem_flatten.1 hmem
        cases hq : s.queues with
        | nil => rw [hq] at hqueue; cases hqueue
        | cons first rest =>
          rw [hq] at hqueue hlower
          rcases List.mem_cons.1 hqueue with rfl | hrest
          · exact hr
          · exact absurd (List.mem_flatten.2 ⟨queue, hrest, hr⟩) hlower
      exact hs 0 r hhead
    next => rfl

theorem placed_performBoost (hs : s.Placed h) :
    (s.performBoost h).1.Placed (s.performBoost h).2 := by
  intro k r hr
  have hmem : r ∈ readyTasks s :=
    (performBoost_perm s h).mem_iff.1 (mem_readyTasks.2 ⟨k, hr⟩)
  rw [level_performBoost hs, if_pos hmem]
  cases k with
  | zero => rfl
  | succ k =>
    -- only the first queue holds tasks
    have hempty : (s.performBoost h).1.queues.getD (k + 1) [] = [] := by
      show ((s.queues.map fun _ => []).modify 0 fun _ => _).getD (k + 1) [] = []
      rw [List.getD_eq_getElem?_getD, List.getElem?_modify]
      simp only [if_neg (Nat.succ_ne_zero k).symm]
      cases h : (s.queues.map fun _ => ([] : List TaskPtr))[k + 1]? with
      | none => rfl
      | some queue =>
        obtain ⟨_, -, rfl⟩ := List.mem_map.1 (List.mem_of_getElem? h)
        rfl
    rw [hempty] at hr
    cases hr

/-- The level of a task after another one, or it itself, has been charged. -/
theorem level_onCpuUsed (hs : s.Placed h) (hp : p ∉ readyTasks s) :
    level (SchedSim.onCpuUsed s h p x).2 r
      = if r = p then (s.chargeAllotment x (h p)).currentQueue
        else if s.BoostDue x ∧ r ∈ readyTasks s then 0 else level h r := by
  have hcharge : level (h.modify p (s.chargeAllotment x)) r
      = if r = p then (s.chargeAllotment x (h p)).currentQueue else level h r := by
    rw [level, Heap.modify_apply]
    split
    next hr => rw [hr]
    next => rfl
  have hplaced : s.Placed (h.modify p (s.chargeAllotment x)) := by
    refine hs.congr fun q hq => ?_
    have hne : q ≠ p := by
      rintro rfl
      exact hp hq
    rw [level, Heap.modify_of_ne hne]
  show level (s.onCpuUsed h p x).2 r = _
  rw [onCpuUsed]
  by_cases hdue : s.BoostDue x
  · have hboost := level_performBoost (r := r) hplaced
    simp only [if_pos hdue.1, if_pos hdue.2, hboost, hcharge]
    by_cases hr : r = p
    · subst hr
      simp only [if_neg hp, if_true]
    · simp only [if_neg hr, hdue, true_and]
  · have hkeep : (if s.params.enableBoost = true then
        if s.params.boostInterval ≤ s.timeSinceLastBoost + x then
          ({ (s.performBoost (h.modify p (s.chargeAllotment x))).1 with timeSinceLastBoost := 0 },
            (s.performBoost (h.modify p (s.chargeAllotment x))).2)
        else ({ s with timeSinceLastBoost := s.timeSinceLastBoost + x },
          h.modify p (s.chargeAllotment x))
        else (s, h.modify p (s.chargeAllotment x))).2 = h.modify p (s.chargeAllotment x) := by
      split
      next hen => rw [if_neg fun hle => hdue ⟨hen, hle⟩]
      next => rfl
    refine (congrArg (fun h => level h r) hkeep).trans ?_
    rw [hcharge]
    simp only [hdue, false_and, if_false]

theorem placed_onCpuUsed (hs : s.Placed h) (hp : p ∉ readyTasks s) :
    (SchedSim.onCpuUsed s h p x).1.Placed (SchedSim.onCpuUsed s h p x).2 := by
  have hplaced : s.Placed (h.modify p (s.chargeAllotment x)) := by
    refine hs.congr fun q hq => ?_
    have hne : q ≠ p := by
      rintro rfl
      exact hp hq
    rw [level, Heap.modify_of_ne hne]
  show (s.onCpuUsed h p x).1.Placed (s.onCpuUsed h p x).2
  simp only [onCpuUsed]
  split
  · split
    · exact placed_performBoost hplaced
    · exact hplaced
  · exact hplaced

end MLFQScheduler

end SchedSim
