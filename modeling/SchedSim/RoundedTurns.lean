import SchedSim.Conservation
import SchedSim.RoundedTimes

/-!
# Turns of Stride in rounded time

What one turn of the single-core simulator does under Stride, however times are rounded.  Stride
does not preempt, so a core changes hands only when it was idle or a slice ends.

* `Rounding.Turn` — the turns there are.
* `Rounding.Sound` — where the tasks stand, what their records say, and that events are not in the
  past.
* `Rounding.sound_of_reachable` — this holds in every reachable state.
-/

namespace SchedSim

namespace StrideScheduler

namespace Rounded

instance (fl : Rounding) : LawfulScheduler (Rounded fl) where
  readyCount_eq _ := rfl
  addTask_perm _ _ _ := List.perm_append_singleton ..
  removeTask_eq _ _ _ := rfl
  onCpuUsed_perm s _ _ _ := .of_eq (updateGlobalPass_readyQueue (s : StrideScheduler) _)
  schedule_mem s h _ hp := minElement_mem ((schedule_task s h).symm.trans hp)
  schedule_none s h hn := minElement_eq_none.1 ((schedule_task s h).symm.trans hn)
  addTask_ledger _ h p := h.sameLedger_modify p fun _ => rfl
  onCpuUsed_ledger _ h p _ := h.sameLedger_modify p fun _ => rfl

end Rounded

end StrideScheduler

namespace Rounding

open StrideScheduler (Rounded strideOf)
open Machine

/-! ## The turns -/

section Turn

variable {fl : Rounding} {σ : Type} [Scheduler σ]

/-- What `dispatch_next` may do with an idle core. -/
inductive Pick (fl : Rounding) (cfg : SimConfig) (m : Simulator σ 1) : Simulator σ 1 → Prop
  | idle : m.ready () = [] → Pick fl cfg m (m.clearCore 0)
  | next {p x} : schedule (m.schedulers ()) m.heap = ⟨some p, x⟩ →
      Pick fl cfg m (fl.dispatch cfg m 0 p x)

/-- What a turn may do when nothing is preempted. -/
inductive Turn (fl : Rounding) (cfg : SimConfig) (m : Simulator σ 1) (e : Event 1) :
    Simulator σ 1 → Prop
  /-- The event is stale, or of a type that is not handled. -/
  | skip : e.type ≠ .arrival → (e.type = .timeSlice → m.runningTasks 0 ≠ some e.task) →
      Turn fl cfg m e (m.pop e)
  /-- The task that arrives has to wait. -/
  | queued : e.type = .arrival → m.runningTasks 0 ≠ none →
      Turn fl cfg m e ((m.pop e).enqueue () e.task)
  /-- The task that arrives finds the core idle. -/
  | woken {m'} : e.type = .arrival → m.runningTasks 0 = none →
      Pick fl cfg ((m.pop e).enqueue () e.task) m' → Turn fl cfg m e m'
  /-- The slice of the running task ends. -/
  | expired {m'} : e.type = .timeSlice → m.runningTasks 0 = some e.task →
      Pick fl cfg (fl.settle (m.pop e) 0 e.task) m' → Turn fl cfg m e m'

theorem pick_dispatchNext [LawfulScheduler σ] (cfg : SimConfig) (m : Simulator σ 1) :
    Pick fl cfg m (fl.dispatchNext cfg m 0) := by
  unfold dispatchNext
  split
  next hempty => exact .idle (readyCount_eq_zero.1 hempty)
  next hne =>
    split
    next x hs =>
      apply Pick.idle
      exact schedule_none _ m.heap (by rw [hs])
    next p x hs => exact .next hs

theorem Step.turn [LawfulScheduler σ] {cfg : SimConfig} {m m' : Simulator σ 1} {e : Event 1}
    (hpre : ∀ (s : σ) h p q, shouldPreempt s h p (some q) = false) (h : fl.Step cfg m e m') :
    Turn fl cfg m e m' := by
  obtain ⟨-, -, rfl⟩ := h
  have hcore : e.coreId = 0 := Subsingleton.elim _ _
  unfold handle
  split
  next harr =>
    unfold handleArrival
    cases hrun : m.runningTasks 0 with
    | none =>
      have hidle : ((m.pop e).enqueue () e.task).runningTasks 0 = none := hrun
      simp only [List.finRange_succ, List.finRange_zero, List.map_nil, List.find?_cons, hidle,
        Option.isNone_none]
      exact .woken harr hrun (pick_dispatchNext cfg _)
    | some q =>
      have hbusy : ((m.pop e).enqueue () e.task).runningTasks 0 = some q := hrun
      simp only [List.finRange_succ, List.finRange_zero, List.map_nil, List.find?_cons, hbusy,
        Option.isNone_some, List.find?_nil, hpre]
      exact .queued harr (by simp [hrun])
  next hts =>
    unfold handleTimeSlice
    rw [hcore, pop_runningTasks]
    cases hrun : m.runningTasks 0 with
    | none => exact .skip (by simp [hts]) (by simp [hrun])
    | some p =>
      dsimp only
      by_cases hp : p = e.task
      · subst hp
        rw [if_neg (not_not.2 rfl)]
        exact .expired hts hrun (pick_dispatchNext cfg _)
      · rw [if_pos hp]
        exact .skip (by simp [hts]) (by simp [hrun, hp])
  next hna hnt => exact .skip hna fun hts => absurd hts hnt

end Turn

/-! ## The blocks -/

section Blocks

variable {fl : Rounding} {m : Simulator (Rounded fl) 1} {p r : TaskPtr} {cfg : SimConfig} {x : ℚ}

/-- The policy, as the record it is -/
def policy (m : Simulator (Rounded fl) 1) : StrideScheduler := m.schedulers ()

@[simp] theorem policy_pop (e : Event 1) : policy (m.pop e) = policy m := rfl

theorem heap_enqueue : (m.enqueue () p).heap r = if r = p then
    { (m.heap r).markReady m.currentTime with
      stride := (policy m).strideOf (m.heap r).weight
      passValue := if (m.heap r).startTime < 0 then (policy m).globalPass.toUInt32
        else max (m.heap r).passValue (policy m).globalPass.toUInt32 }
    else m.heap r := by
  show ((m.heap.modify p (·.markReady m.currentTime)).modify p fun t =>
    { t with
      stride := (policy m).strideOf t.weight
      passValue := if t.startTime < 0 then (policy m).globalPass.toUInt32
        else max t.passValue (policy m).globalPass.toUInt32 }) r = _
  by_cases hr : r = p
  · subst hr
    simp only [Heap.modify_self, if_true]
    rfl
  · simp only [Heap.modify_of_ne hr, if_neg hr]

theorem passValue_requeue : ((m.requeue () 0 p).heap p).passValue
    = if (m.heap p).startTime < 0 then (policy m).globalPass.toUInt32
      else max (m.heap p).passValue (policy m).globalPass.toUInt32 := by
  rw [Machine.requeue, heap_enqueue, if_pos rfl]
  simp only [Heap.modify_self]
  rfl

theorem heap_charge : (fl.charge m 0 p).heap r = if r = p then
    { fl.execute (m.heap r) (fl.elapsed m 0) with
      passValue := (m.heap r).passValue
        + max (Rounded.passAdvance fl (policy m).params (m.heap r).stride (fl.elapsed m 0)) 1 }
    else m.heap r := by
  show ((m.heap.modify p (fl.execute · (fl.elapsed m 0))).modify p fun t =>
    { t with
      passValue := t.passValue
        + max (Rounded.passAdvance fl (policy m).params t.stride (fl.elapsed m 0)) 1 }) r = _
  by_cases hr : r = p
  · subst hr
    simp only [Heap.modify_self, if_true]
    rfl
  · simp only [Heap.modify_of_ne hr, if_neg hr]

theorem heap_dispatch : (fl.dispatch cfg m 0 p x).heap r = if r = p then
    (fl.markDispatched (m.heap r) m.currentTime).start m.currentTime else m.heap r := by
  exact Heap.modify_apply m.heap p r fun t =>
    (fl.markDispatched t m.currentTime).start m.currentTime

/-- A task that is not done goes back to the queue. -/
theorem settle_of_left (h : fl.isCompleted ((fl.charge m 0 p).heap p) = false) :
    fl.settle m 0 p = (fl.charge m 0 p).requeue () 0 p := by
  unfold settle
  simp only [h]
  rfl

theorem settle_of_done (h : fl.isCompleted ((fl.charge m 0 p).heap p) = true) :
    fl.settle m 0 p = (fl.charge m 0 p).finish 0 p := by
  unfold settle
  simp only [h]
  rfl

/-- Only the task on the core is touched when its slice ends. -/
theorem heap_settle_of_ne (hr : r ≠ p) : (fl.settle m 0 p).heap r = m.heap r := by
  have hcharge : (fl.charge m 0 p).heap r = m.heap r := by rw [heap_charge, if_neg hr]
  cases hdone : fl.isCompleted ((fl.charge m 0 p).heap p) with
  | true =>
    rw [settle_of_done hdone]
    exact (Heap.modify_of_ne hr _ (·.complete m.currentTime)).trans hcharge
  | false =>
    rw [settle_of_left hdone, Machine.requeue, heap_enqueue, if_neg hr]
    exact (Heap.modify_of_ne hr _ Task.incrementPreemptions).trans hcharge

@[simp] theorem settle_events : (fl.settle m 0 p).events = m.events := by
  unfold settle
  dsimp only
  split <;> rfl

@[simp] theorem settle_currentTime : (fl.settle m 0 p).currentTime = m.currentTime := by
  unfold settle
  dsimp only
  split <;> rfl

@[simp] theorem settle_runningTasks : (fl.settle m 0 p).runningTasks 0 = none := by
  unfold settle
  dsimp only
  split <;> exact setAt_self m.runningTasks 0 none

@[simp] theorem settle_history :
    (fl.settle m 0 p).history = .charged 0 p (fl.elapsed m 0) :: m.history := by
  unfold settle
  dsimp only
  split <;> rfl

theorem count_ready_charge :
    ((fl.charge m 0 p).ready ()).count r = (m.ready ()).count r := by
  show (readyTasks (setAt m.schedulers () _ ())).count r = _
  rw [setAt_self]
  exact count_onCpuUsed

theorem places_charge : (fl.charge m 0 p).places r = m.places r := by
  have hwaiting : (fl.charge m 0 p).waiting r = m.waiting r :=
    Finset.sum_congr rfl fun _ _ => count_ready_charge
  rw [places, hwaiting]
  rfl

theorem places_settle (hc : m.runningTasks 0 = some p) :
    (fl.settle m 0 p).places r = m.places r := by
  have hcharged : (fl.charge m 0 p).runningTasks 0 = some p := hc
  cases hdone : fl.isCompleted ((fl.charge m 0 p).heap p) with
  | true => rw [settle_of_done hdone, places_finish hcharged, places_charge]
  | false => rw [settle_of_left hdone, places_requeue hcharged, places_charge]

/-- When the slice ends does not matter for where the tasks stand. -/
theorem places_dispatch :
    (fl.dispatch cfg m 0 p x).places r = (m.dispatch cfg () 0 p x).places r := by
  have harr : (fl.dispatch cfg m 0 p x).events.arrivals = m.events.arrivals :=
    EventQueue.arrivals_schedule _ (by simp)
  have harr' : (m.dispatch cfg () 0 p x).events.arrivals = m.events.arrivals :=
    EventQueue.arrivals_schedule _ (by simp)
  rw [places, places, harr, harr']
  rfl

end Blocks

/-! ## A dispatched task -/

/-- Of the record of a task that is dispatched only the waiting and the start are written. -/
theorem dispatched_eq (fl : Rounding) (t : Task) (time : ℚ) : ∃ waited ready,
    (fl.markDispatched t time).start time =
      { t with
        waitTime := waited
        inReadyQueue := ready
        startTime := if t.startTime < 0 then time else t.startTime } := by
  unfold markDispatched Task.start
  cases hready : t.inReadyQueue with
  | true =>
    refine ⟨fl (t.waitTime + max 0 (fl (time - t.readyEnterTime))), false, ?_⟩
    simp only [Bool.not_true, Bool.false_eq_true, if_false]
    split <;> rfl
  | false =>
    refine ⟨t.waitTime, false, ?_⟩
    simp only [Bool.not_false, if_true]
    split <;> simp [← hready]

/-! ## What every turn keeps -/

/-- No event is in the past, all times are numbers of the arithmetic, and arrivals are on time. -/
structure Timely (fl : Rounding) (w : Workload) (m : Simulator (Rounded fl) 1) : Prop where
  now : 0 ≤ m.currentTime ∧ fl m.currentTime = m.currentTime
  clock : ∀ d ∈ m.events, m.currentTime ≤ d.time ∧ fl d.time = d.time
  arrival : ∀ d ∈ m.events, d.type = .arrival → d.time = (w.args d.task).arrivalTime

/-- What the records of the tasks say. -/
structure Recorded {fl : Rounding} (params : StrideParams) (w : Workload)
    (m : Simulator (Rounded fl) 1) : Prop where
  fixed : ∀ r, (m.heap r).fixed = (w.heap r).fixed
  remaining : ∀ r ∈ w.added, 0 ≤ (m.heap r).remainingTime
  fresh : ∀ r ∈ m.events.arrivals, (m.heap r).startTime < 0
  started : ∀ r, m.runningTasks 0 = some r → 0 ≤ (m.heap r).startTime
  settled : ∀ r, r ∈ m.ready () ∨ m.runningTasks 0 = some r →
    (m.heap r).stride = (StrideScheduler.new params).strideOf (m.heap r).weight
  params : (policy m).params = params

structure Sound {fl : Rounding} (params : StrideParams) (w : Workload)
    (m : Simulator (Rounded fl) 1) : Prop where
  places : ∀ r, m.places r = w.added.count r
  timely : Timely fl w m
  recorded : Recorded params w m

section Sound

variable {fl : Rounding} {params : StrideParams} {w : Workload} {m m' : Simulator (Rounded fl) 1}
  {e : Event 1} {p r : TaskPtr} {cfg : SimConfig} {x : ℚ}

theorem Timely.pop (h : Timely fl w m) (he : m.events.IsNext e) : Timely fl w (m.pop e) where
  now := ⟨h.now.1.trans (h.clock e he.1).1, (h.clock e he.1).2⟩
  clock d hd :=
    have hmem := List.mem_of_mem_erase hd
    ⟨he.2 d hmem, (h.clock d hmem).2⟩
  arrival d hd := h.arrival d (List.mem_of_mem_erase hd)

theorem Timely.congr (h : Timely fl w m) (hnow : m'.currentTime = m.currentTime)
    (hev : m'.events = m.events) : Timely fl w m' where
  now := hnow ▸ h.now
  clock := by rw [hnow, hev]; exact h.clock
  arrival := by rw [hev]; exact h.arrival

/-- A slice that is not negative does not end in the past. -/
theorem Timely.dispatch (h : Timely fl w m) (hx : 0 ≤ grant cfg x (m.heap p).remainingTime) :
    Timely fl w (fl.dispatch cfg m 0 p x) where
  now := h.now
  clock d hd := by
    rcases List.mem_append.1 hd with hd | hd
    · exact h.clock d hd
    · rw [List.mem_singleton.1 hd]
      refine ⟨?_, fl.round_round _⟩
      calc m.currentTime = fl m.currentTime := h.now.2.symm
        _ ≤ fl (m.currentTime + grant cfg x (m.heap p).remainingTime) :=
            fl.monotone (le_add_of_nonneg_right hx)
  arrival d hd harr := by
    rcases List.mem_append.1 hd with hd | hd
    · exact h.arrival d hd harr
    · rw [List.mem_singleton.1 hd] at harr
      cases harr

theorem Recorded.pop (h : Recorded params w m) (he : e ∈ m.events) : Recorded params w (m.pop e) :=
  { h with
    fresh := fun r hr => h.fresh r <| by
      rw [(m.events.arrivals_erase_perm he).mem_iff, EventQueue.mem_arrivals]
      obtain ⟨d, hd, harr, rfl⟩ := EventQueue.mem_arrivals.1 hr
      exact ⟨d, List.mem_cons_of_mem e hd, harr, rfl⟩ }

theorem Recorded.enqueue (h : Recorded params w m) : Recorded params w (m.enqueue () p) where
  params := h.params
  fixed r := fixed_enqueue.trans (h.fixed r)
  remaining r hr := by
    rw [Task.congrLedger Task.remainingTime ledger_enqueue]
    split <;> exact h.remaining r hr
  fresh r hr := by
    rw [Task.congrLedger Task.startTime ledger_enqueue]
    split <;> exact h.fresh r hr
  started r hr := by
    rw [Task.congrLedger Task.startTime ledger_enqueue]
    split <;> exact h.started r hr
  settled r hr := by
    rw [heap_enqueue]
    by_cases hrp : r = p
    · rw [if_pos hrp]
      exact StrideScheduler.strideOf_congr h.params _
    · rw [if_neg hrp]
      refine h.settled r (hr.imp_left fun hmem => ?_)
      rcases mem_ready_enqueue.1 hmem with ⟨-, rfl⟩ | hmem
      · exact absurd rfl hrp
      · exact hmem

theorem Recorded.charge (h : Recorded params w m) : Recorded params w (fl.charge m 0 p) where
  params := (StrideScheduler.updateGlobalPass_params (policy m) _).trans h.params
  fixed r := by
    rw [heap_charge]
    split <;> exact h.fixed r
  remaining r hr := by
    rw [heap_charge]
    split
    · show 0 ≤ if _ < (0 : ℚ) then (0 : ℚ) else _
      split_ifs with hneg
      · exact le_rfl
      · exact not_lt.1 hneg
    · exact h.remaining r hr
  fresh r hr := by
    rw [heap_charge]
    split <;> exact h.fresh r hr
  started r hr := by
    rw [heap_charge]
    split <;> exact h.started r hr
  settled r hr := by
    have hbefore := h.settled r (hr.imp_left fun hmem => by
      rwa [← List.count_pos_iff, count_ready_charge, List.count_pos_iff] at hmem)
    rw [heap_charge]
    split <;> exact hbefore

theorem Recorded.finish (h : Recorded params w m) : Recorded params w (m.finish 0 p) where
  params := h.params
  fixed r := fixed_finish.trans (h.fixed r)
  remaining r hr := by
    rw [Task.congrLedger Task.remainingTime ledger_finish]
    split <;> exact h.remaining r hr
  fresh r hr := by
    rw [Task.congrLedger Task.startTime ledger_finish]
    split <;> exact h.fresh r hr
  started r hr := by
    rw [finish_runningTasks, setAt_self] at hr
    cases hr
  settled r hr := by
    have hbefore := h.settled r (hr.imp_right fun hrun => by
      rw [finish_runningTasks, setAt_self] at hrun
      cases hrun)
    show (m.heap.modify p (·.complete m.currentTime) r).stride
      = StrideScheduler.strideOf _ (m.heap.modify p (·.complete m.currentTime) r).weight
    rw [Heap.modify_apply]
    split <;> exact hbefore

theorem Recorded.requeue (h : Recorded params w m) : Recorded params w (m.requeue () 0 p) := by
  apply Recorded.enqueue
  have hrun : ∀ r, (setAt m.runningTasks 0 none) 0 ≠ some r := fun r => by
    rw [setAt_self]
    exact (Option.some_ne_none r).symm
  refine ⟨fun r => ?_, fun r hr => ?_, fun r hr => ?_, fun r hr => absurd hr (hrun r),
    fun r hr => ?_, h.params⟩ <;>
    dsimp only [clearCore] <;> rw [Heap.modify_apply]
  · split <;> exact h.fixed r
  · split <;> exact h.remaining r hr
  · split <;> exact h.fresh r hr
  · have hbefore := h.settled r (hr.imp_right fun h => absurd h (hrun r))
    split <;> exact hbefore

theorem Recorded.settle (h : Recorded params w m) : Recorded params w (fl.settle m 0 p) := by
  cases hdone : fl.isCompleted ((fl.charge m 0 p).heap p) with
  | true =>
    rw [settle_of_done hdone]
    exact h.charge.finish
  | false =>
    rw [settle_of_left hdone]
    exact h.charge.requeue

theorem grant_nonneg_of_quantum (hx : 0 < x) {remaining : ℚ} (h : 0 ≤ remaining) :
    0 ≤ grant cfg x remaining := by
  rw [grant, if_pos hx]
  exact le_min hx.le h

/-- What stands anywhere was added, and no two added tasks have the same id. -/
theorem Sound.soleId (h : Sound params w m) (hids : w.DistinctIds) (hr : r ∈ w.added) :
    m.SoleId r := by
  intro q hq hid
  rw [h.places] at hq
  have hfixed := fun t => congrArg (fun f => f.1.id) (h.recorded.fixed t)
  exact hids q (List.count_pos_iff.1 hq) r hr ((hfixed q).symm.trans (hid.trans (hfixed r)))

theorem Sound.places_le_one (h : Sound params w m) (r : TaskPtr) : m.places r ≤ 1 :=
  (h.places r).trans_le (List.nodup_iff_count_le_one.1 w.nodup r)

theorem Sound.pick (h : Sound params w m) (hids : w.DistinctIds) (hquantum : 0 < params.quantum)
    (hc : m.runningTasks 0 = none) (hp : Pick fl cfg m m') : Sound params w m' := by
  cases hp with
  | idle => rwa [clearCore_eq_self m 0 hc]
  | @next p x hs =>
    have hready : p ∈ m.ready () := mem_ready_of_schedule hs
    have hadded : p ∈ w.added := by
      rw [← List.count_pos_iff, ← h.places]
      have := m.count_ready_le_waiting () p
      have := List.count_pos_iff.2 hready
      rw [Machine.places]
      omega
    have hx : x = params.quantum := by
      rw [← h.recorded.params]
      exact StrideScheduler.schedule_quantum hs
    refine ⟨fun r => ?_, h.timely.dispatch (grant_nonneg_of_quantum (hx ▸ hquantum)
      (h.recorded.remaining p hadded)), fun r => ?_, fun r hr => ?_, fun r hr => ?_, fun r hr => ?_,
      fun r hr => ?_, h.recorded.params⟩
    · have hd := Machine.places_dispatch (q := ()) (p := p) (r := r) cfg x hc
      by_cases hr : r ∈ w.added
      · have hlost := (lost_spec (r := r) hready).2 (h.soleId hids hr) (h.places_le_one r)
        rw [places_dispatch, ← h.places r]
        omega
      · have hzero := h.places r
        rw [List.count_eq_zero.2 hr] at hzero
        have hne : r ≠ p := fun heq => hr (heq ▸ hadded)
        rw [if_neg hne] at hd
        rw [places_dispatch, List.count_eq_zero.2 hr]
        omega
    · obtain ⟨waited, ready, heq⟩ := dispatched_eq fl (m.heap r) m.currentTime
      rw [heap_dispatch, heq]
      split <;> exact h.recorded.fixed r
    · obtain ⟨waited, ready, heq⟩ := dispatched_eq fl (m.heap r) m.currentTime
      rw [heap_dispatch, heq]
      split <;> exact h.recorded.remaining r hr
    · have hev : (fl.dispatch cfg m 0 p x).events.arrivals = m.events.arrivals :=
        EventQueue.arrivals_schedule _ (by simp)
      rw [hev] at hr
      have hne : r ≠ p := by
        rintro rfl
        have hone := h.places_le_one r
        have := m.count_ready_le_waiting () r
        have := List.count_pos_iff.2 hready
        have := List.count_pos_iff.2 hr
        rw [Machine.places] at hone
        omega
      rw [heap_dispatch, if_neg hne]
      exact h.recorded.fresh r hr
    · have hrun : some p = some r := (setAt_self m.runningTasks 0 (some p)).symm.trans hr
      obtain rfl := Option.some.inj hrun
      obtain ⟨waited, ready, heq⟩ := dispatched_eq fl (m.heap p) m.currentTime
      rw [heap_dispatch, if_pos rfl, heq]
      dsimp only
      split
      next => exact h.timely.now.1
      next hstarted => exact not_lt.1 hstarted
    · have hbefore : r ∈ m.ready () := by
        rcases hr with hr | hr
        · have hfilter : r ∈ (m.removeReady () p).ready () := hr
          rw [ready_removeReady, if_pos rfl] at hfilter
          exact List.mem_of_mem_filter hfilter
        · have hrun : some p = some r := (setAt_self m.runningTasks 0 (some p)).symm.trans hr
          exact Option.some.inj hrun ▸ hready
      have hsettled := h.recorded.settled r (.inl hbefore)
      obtain ⟨waited, ready, heq⟩ := dispatched_eq fl (m.heap r) m.currentTime
      rw [heap_dispatch, heq]
      split <;> exact hsettled

theorem Sound.turn (h : Sound params w m) (hids : w.DistinctIds) (hquantum : 0 < params.quantum)
    (he : m.events.IsNext e) (ht : Turn fl cfg m e m') : Sound params w m' := by
  have hpop := fun t => places_pop (r := t) he.1
  have harrived : e.type = .arrival → Sound params w ((m.pop e).enqueue () e.task) := by
    intro harr
    refine ⟨fun r => ?_, (h.timely.pop he).congr rfl rfl, (h.recorded.pop he.1).enqueue⟩
    rw [places_enqueue, ← h.places r, hpop r]
    simp [harr, eq_comm]
  cases ht with
  | skip hna =>
    refine ⟨fun r => ?_, h.timely.pop he, h.recorded.pop he.1⟩
    rw [← h.places r, hpop r]
    simp [hna]
  | queued harr => exact harrived harr
  | woken harr hidle hp => exact (harrived harr).pick hids hquantum hidle hp
  | expired hts hc hp =>
    refine Sound.pick ⟨fun r => ?_, (h.timely.pop he).congr settle_currentTime settle_events,
      (h.recorded.pop he.1).settle⟩ hids hquantum settle_runningTasks hp
    rw [places_settle (m := m.pop e) hc, ← h.places r, hpop r]
    simp [hts]

/-- The simulator at the start, with Stride on one core -/
abbrev init (fl : Rounding) (params : StrideParams) (w : Workload) : Simulator (Rounded fl) 1 :=
  Simulator.init (σ := Rounded fl) (StrideScheduler.new params) w

theorem sound_init (hvalid : w.Valid)
    (htimes : ∀ p ∈ w.added, fl (w.args p).arrivalTime = (w.args p).arrivalTime) :
    Sound params w (init fl params w) where
  places := places_init fun _ => rfl
  timely :=
    { now := ⟨le_rfl, fl.round_zero⟩
      clock := by
        intro d hd
        obtain ⟨p, hp, rfl⟩ := List.mem_map.1 hd
        exact ⟨(hvalid p hp).1, htimes p hp⟩
      arrival := by
        intro d hd _
        obtain ⟨p, -, rfl⟩ := List.mem_map.1 hd
        rfl }
  recorded :=
    { fixed := fun _ => rfl
      remaining := fun r hr => (hvalid r hr).2.le
      fresh := fun _ _ => by
        show (-1 : ℚ) < 0
        norm_num
      started := by rintro r ⟨⟩
      settled := by rintro r (⟨⟨⟩⟩ | ⟨⟨⟩⟩)
      params := rfl }

theorem shouldPreempt_eq_false (s : Rounded fl) (h : Heap) (p q : TaskPtr) :
    shouldPreempt s h p (some q) = false := rfl

theorem sound_of_reachable (hids : w.DistinctIds) (hvalid : w.Valid)
    (htimes : ∀ p ∈ w.added, fl (w.args p).arrivalTime = (w.args p).arrivalTime)
    (hquantum : 0 < params.quantum)
    (h : Lts.Reachable (fl.Step cfg) (init fl params w) m) :
    Sound params w m := by
  refine h.induction (sound_init hvalid htimes) ?_
  intro s e t _ hs hstep
  exact hs.turn hids hquantum hstep.1 (hstep.turn shouldPreempt_eq_false)

end Sound

end Rounding

end SchedSim
