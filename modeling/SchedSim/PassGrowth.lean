import SchedSim.OwnRecord
import SchedSim.Schedulers.Stride

/-!
# How the passes of Stride grow

A charge adds to the pass of a task in 32 bits, and `add_task` lifts a task that returns to
the global pass.  On one core the running task is never below the global pass, so the lift
helps a pass that has wrapped only if all waiting tasks are ahead of it.

* `StrideScheduler.passAdvance` — what a charge adds to a pass.
* `Machine.Floored` — no ready or running task is below the global pass.
* `Machine.floored_of_reachable` — this holds in every reachable state.
* `StrideScheduler.passGrowth` — when the pass of a task grows from one slice to the next.
* `StrideScheduler.passGrowth_false` — it does not when the addition wraps.
-/

namespace SchedSim

/-! ## The global pass -/

namespace StrideScheduler

/-- What a charge adds to the pass of a task. -/
def passAdvance (params : StrideParams) (t : Task) (cpuTime : ℚ) : UInt32 :=
  max (UInt32.ofNat (truncate (t.stride.toNat * (cpuTime / params.quantum))).toNat) 1

theorem one_le_passAdvance (params : StrideParams) (t : Task) (x : ℚ) :
    1 ≤ (passAdvance params t x).toNat := by
  rw [passAdvance, toNat_max]
  exact le_max_right _ _

/-- The global pass moves up to the least pass that is waiting. -/
theorem updateGlobalPass_spec (s : StrideScheduler) (h : Heap) :
    s.readyQueue = [] ∧ s.updateGlobalPass h = s ∨
    ∃ r ∈ s.readyQueue, (∀ q ∈ s.readyQueue, (h r).passValue.toNat ≤ (h q).passValue.toNat) ∧
      (s.updateGlobalPass h).globalPass.toNat
        = max s.globalPass.toNat (h r).passValue.toNat := by
  rw [updateGlobalPass]
  split
  next hnone =>
    rw [List.min?_eq_none_iff, List.map_eq_nil_iff] at hnone
    exact .inl ⟨hnone, rfl⟩
  next minPass hmin =>
    obtain ⟨hmem, hleast⟩ := List.min?_eq_some_iff.1 hmin
    obtain ⟨r, hr, rfl⟩ := List.mem_map.1 hmem
    refine .inr ⟨r, hr, fun q hq => ?_, ?_⟩
    · have hle := hleast _ (List.mem_map_of_mem hq)
      rwa [UInt64.le_iff_toNat_le, UInt32.toNat_toUInt64, UInt32.toNat_toUInt64] at hle
    · show (if s.globalPass ≤ (h r).passValue.toUInt64 then _ else _ : UInt64).toNat = _
      rw [max_def]
      simp only [UInt64.le_iff_toNat_le, UInt32.toNat_toUInt64]
      split <;> simp

end StrideScheduler

/-! ## No task is below the global pass -/

namespace Machine

open StrideScheduler (passAdvance)

variable {m m' : Simulator StrideScheduler 1} {e : Event 1} {p r : TaskPtr} {cfg : SimConfig}
  {slot : Fin 1 → Unit} {x : ℚ}

/-- The pass of a task, as a number. -/
abbrev pass (m : Simulator StrideScheduler 1) (p : TaskPtr) : ℕ := (m.heap p).passValue.toNat

/-- The global pass, as a number. -/
abbrev globalPass (m : Simulator StrideScheduler 1) : ℕ := (m.schedulers ()).globalPass.toNat

/-- The global pass fits 32 bits, and no ready or running task is below it. -/
structure Floored (m : Simulator StrideScheduler 1) : Prop where
  narrow : m.globalPass < 2 ^ 32
  ready : ∀ r ∈ m.ready (), m.globalPass ≤ m.pass r
  running : ∀ p, m.runningTasks 0 = some p → m.globalPass ≤ m.pass p

theorem globalPass_enqueue : (m.enqueue () p).globalPass = m.globalPass := by
  rw [globalPass, enqueue]
  simp only [setAt_self]
  rfl

/-- A new task starts at the global pass, and a task that returns is lifted to it. -/
theorem pass_enqueue_self (h : m.globalPass < 2 ^ 32) : (m.enqueue () p).pass p
    = if (m.heap p).startTime < 0 then m.globalPass else max (m.pass p) m.globalPass := by
  have hself : (m.enqueue () p).heap p = ((m.schedulers ()).addTask
      (m.heap.modify p (·.markReady m.currentTime)) p).2 p := rfl
  have htrunc : (m.schedulers ()).globalPass.toUInt32.toNat = m.globalPass := by
    rw [UInt64.toNat_toUInt32]
    exact Nat.mod_eq_of_lt h
  rw [pass, hself, StrideScheduler.addTask_self, Heap.modify_self]
  show (if (m.heap p).startTime < 0 then (m.schedulers ()).globalPass.toUInt32
    else max (m.heap p).passValue (m.schedulers ()).globalPass.toUInt32).toNat = _
  split
  · exact htrunc
  · rw [StrideScheduler.toNat_max, htrunc]

theorem pass_charge_self : (m.charge () 0 p).pass p
    = (m.pass p + (passAdvance (m.schedulers ()).params (m.heap p) (m.elapsed 0)).toNat)
      % 2 ^ 32 := by
  have hself : (m.charge () 0 p).heap p = ((m.schedulers ()).onCpuUsed
      (m.heap.modify p (·.execute (m.elapsed 0))) p (m.elapsed 0)).2 p := rfl
  rw [pass, hself, StrideScheduler.onCpuUsed_self, Heap.modify_self]
  exact UInt32.toNat_add _ _

/-- A charge moves the global pass up to the least pass that is waiting. -/
theorem globalPass_charge (hp : p ∉ m.ready ()) :
    m.ready () = [] ∧ (m.charge () 0 p).globalPass = m.globalPass ∨
    ∃ r ∈ m.ready (), (∀ q ∈ m.ready (), m.pass r ≤ m.pass q) ∧
      (m.charge () 0 p).globalPass = max m.globalPass (m.pass r) := by
  have hcharge : (m.charge () 0 p).globalPass
      = ((m.schedulers ()).updateGlobalPass m.heap).globalPass.toNat := by
    rw [globalPass, charge]
    simp only [setAt_self]
    refine congrArg (fun s : StrideScheduler => s.globalPass.toNat)
      (StrideScheduler.updateGlobalPass_congr fun q hq => ?_)
    have hqp : q ≠ p := by
      rintro rfl
      exact hp hq
    rw [Heap.modify_of_ne hqp, Heap.modify_of_ne hqp]
  rw [hcharge]
  rcases (m.schedulers ()).updateGlobalPass_spec m.heap with ⟨hnil, heq⟩ | hmin
  · exact .inl ⟨hnil, by rw [heq]⟩
  · exact .inr hmin

theorem Floored.congr (h : m.Floored) (hschedulers : m'.schedulers = m.schedulers)
    (hpass : ∀ r, m'.pass r = m.pass r)
    (hrun : ∀ p, m'.runningTasks 0 = some p → m.runningTasks 0 = some p) : m'.Floored := by
  have hglobal : m'.globalPass = m.globalPass := by rw [globalPass, hschedulers]
  refine ⟨hglobal.trans_lt h.narrow, fun r hr => ?_, fun p hp => ?_⟩
  · rw [Machine.ready, hschedulers] at hr
    rw [hglobal, hpass]
    exact h.ready r hr
  · rw [hglobal, hpass]
    exact h.running p (hrun p hp)

/-- Whatever task is added, it starts at the global pass or above. -/
theorem Floored.enqueue (h : m.Floored) : (m.enqueue () p).Floored := by
  have hself : m.globalPass ≤ (m.enqueue () p).pass p := by
    rw [pass_enqueue_self h.narrow]
    split
    · exact le_rfl
    · exact le_max_right _ _
  refine ⟨globalPass_enqueue.trans_lt h.narrow, fun r hr => ?_, fun r hr => ?_⟩
  all_goals
    rw [globalPass_enqueue]
    by_cases hrp : r = p
    · subst hrp
      exact hself
    rw [pass, record_enqueue_of_ne hrp]
  · rcases mem_ready_enqueue.1 hr with ⟨-, heq⟩ | hr
    · exact absurd heq hrp
    · exact h.ready r hr
  · exact h.running r hr

/-- The global pass does not overtake a task that waits while another one is charged. -/
theorem Floored.release (h : m.Floored) (hp : p ∉ m.ready ()) :
    ((m.charge () 0 p).clearCore 0).Floored := by
  have hpass : ∀ r ∈ m.ready (), (m.charge () 0 p).pass r = m.pass r := by
    intro r hr
    rw [pass, record_charge_of_ne]
    rintro rfl
    exact hp hr
  have hready : ∀ r ∈ m.ready (), (m.charge () 0 p).globalPass ≤ (m.charge () 0 p).pass r := by
    intro r hr
    rw [hpass r hr]
    rcases globalPass_charge hp with ⟨-, heq⟩ | ⟨q, -, hleast, heq⟩
    · exact heq.trans_le (h.ready r hr)
    · exact heq.trans_le (max_le (h.ready r hr) (hleast r hr))
  refine ⟨?_, fun r hr => hready r (mem_ready_charge.1 hr), fun r hr => ?_⟩
  · show (m.charge () 0 p).globalPass < 2 ^ 32
    rcases globalPass_charge hp with ⟨-, heq⟩ | ⟨q, -, -, heq⟩
    · exact heq.trans_lt h.narrow
    · exact heq.trans_lt (max_lt h.narrow (UInt32.toNat_lt _))
  · rw [clearCore_runningTasks, setAt_self] at hr
    cases hr

theorem Floored.counted (h : m.Floored) (hp : p ∉ m.ready ()) :
    Floored { (m.charge () 0 p).clearCore 0 with
      heap := (m.charge () 0 p).heap.modify p Task.incrementPreemptions
      preemptions := (m.charge () 0 p).preemptions + 1 } := by
  refine (h.release hp).congr rfl (fun r => ?_) fun _ hr => hr
  show ((m.charge () 0 p).heap.modify p Task.incrementPreemptions r).passValue.toNat = _
  rw [Heap.modify_apply]
  split <;> rfl

theorem Floored.yieldCore (h : m.Floored) (hp : p ∉ m.ready ()) : (m.yieldCore () 0 p).Floored :=
  (h.counted hp).enqueue

theorem Floored.settle (h : m.Floored) (hp : p ∉ m.ready ()) : (m.settle () 0 p).Floored := by
  rw [settle_eq]
  split
  · refine (h.release hp).congr rfl (fun r => ?_) fun _ hr => hr
    have hpolicy : (((m.charge () 0 p).finish 0 p).heap r).policy.passValue
        = ((m.charge () 0 p).heap r).policy.passValue := congrArg Task.passValue policy_finish
    exact congrArg UInt32.toNat hpolicy
  · exact h.yieldCore hp

theorem pass_dispatch {c : Fin 1} : (m.dispatch cfg () c p x).pass r = m.pass r := by
  have hpolicy : ((m.dispatch cfg () c p x).heap r).policy.passValue
      = (m.heap r).policy.passValue := congrArg Task.passValue policy_dispatched
  exact congrArg UInt32.toNat hpolicy

theorem globalPass_dispatch {c : Fin 1} : (m.dispatch cfg () c p x).globalPass = m.globalPass := by
  show ((setAt m.schedulers () _) ()).globalPass.toNat = _
  rw [setAt_self]
  rfl

theorem Next.floored (hn : Next cfg slot 0 m m') (hc : m.runningTasks 0 = none) (h : m.Floored) :
    m'.Floored := by
  cases hn with
  | idle =>
    rw [clearCore_eq_self m 0 hc]
    exact h
  | @own p x hs =>
    refine ⟨globalPass_dispatch.trans_lt h.narrow, fun r hr => ?_, fun r hr => ?_⟩
    all_goals
      rw [globalPass_dispatch, pass_dispatch]
    · rw [ready_dispatch] at hr
      exact h.ready r (mem_ready_removeReady.1 hr).1
    · rw [dispatch_runningTasks, setAt_self] at hr
      obtain rfl := Option.some.inj hr
      exact h.ready p (mem_ready_of_schedule hs)
  | steal hb => exact absurd rfl hb

/-- No step leaves a task below the global pass. -/
theorem Move.floored (hmove : Move cfg slot m e m') (hone : ∀ p, m.places p ≤ 1) (h : m.Floored) :
    m'.Floored := by
  have hpop : (m.pop e).Floored := h.congr rfl (fun _ => rfl) fun _ hr => hr
  cases hmove with
  | skip => exact hpop
  | queued => exact hpop.enqueue
  | @woken c _ _ hidle hn =>
    obtain rfl : c = 0 := Subsingleton.elim _ _
    exact hn.floored hidle hpop.enqueue
  | preempted _ _ _ hp => cases hp
  | expired hts hc hn =>
    have hcore : e.coreId = 0 := Subsingleton.elim _ _
    rw [hcore] at hc hn
    refine hn.floored (by rw [settle_runningTasks, setAt_self]) (hpop.settle ?_)
    exact not_ready_of_running (hone e.task) hc ()

theorem floored_of_reachable {params : StrideParams} {w : Workload}
    (h : Lts.Reachable (Step cfg slot) (init (fun _ => StrideScheduler.new params) w) m) :
    m.Floored := by
  refine h.induction (I := Floored) ⟨?_, ?_, ?_⟩ ?_
  · exact Nat.two_pow_pos 32
  · intro r hr
    cases hr
  · rintro p ⟨⟩
  · intro s e t hs ih hstep
    have hone : ∀ p, s.places p ≤ 1 := fun p =>
      (places_le_count (fun _ => rfl) hs p).trans (List.nodup_iff_count_le_one.1 w.nodup p)
    exact hstep.2.2.floored hone ih

/-! ## From one slice to the next -/

/-- The pass of a task that is charged and goes back to the queue. -/
theorem pass_yieldCore_self (h : m.Floored) (hp : p ∉ m.ready ()) : (m.yieldCore () 0 p).pass p
    = if (m.heap p).startTime < 0 then (m.charge () 0 p).globalPass
      else max ((m.pass p + (passAdvance (m.schedulers ()).params (m.heap p)
        (m.elapsed 0)).toNat) % 2 ^ 32) (m.charge () 0 p).globalPass := by
  have hself := pass_enqueue_self (p := p) (h.counted hp).narrow
  simp only [pass, Heap.modify_self] at hself
  have hstart : ((m.charge () 0 p).heap p).startTime = (m.heap p).startTime := startTime_charged
  have hpass := pass_charge_self (m := m) (p := p)
  rw [← hstart, ← hpass]
  exact hself

/-- The global pass overtakes a running task exactly when all waiting tasks are ahead of it. -/
theorem lt_globalPass_charge (h : m.Floored) (hc : m.runningTasks 0 = some p)
    (hp : p ∉ m.ready ()) : m.pass p < (m.charge () 0 p).globalPass
      ↔ m.ready () ≠ [] ∧ ∀ r ∈ m.ready (), m.pass p < m.pass r := by
  have hfloor := h.running p hc
  rcases globalPass_charge hp with ⟨hnil, heq⟩ | ⟨r, hr, hleast, heq⟩
  · rw [heq]
    exact ⟨fun hlt => absurd hfloor (not_le.2 hlt), fun hne => absurd hnil hne.1⟩
  · rw [heq, lt_max_iff]
    constructor
    · rintro (hlt | hlt)
      · exact absurd hfloor (not_le.2 hlt)
      · exact ⟨List.ne_nil_of_mem hr, fun q hq => hlt.trans_le (hleast q hq)⟩
    · rintro ⟨-, hall⟩
      exact .inr (hall r hr)

theorem Next.pass (hn : Next cfg slot 0 m m') : m'.pass r = m.pass r := by
  cases hn with
  | idle => rfl
  | own => exact pass_dispatch
  | steal hb => exact absurd rfl hb

end Machine

namespace StrideScheduler

open Machine

variable {params : StrideParams} {cfg : SimConfig} {w : Workload}
  {s s' : Simulator StrideScheduler 1} {e : Event 1} {p : TaskPtr}

/-- The event ends the slice of a task that is not done after it. -/
structure Requeues (m : Simulator StrideScheduler 1) (e : Event 1) (k : TaskPtr) : Prop where
  type : e.type = .timeSlice
  task : e.task = k
  running : m.runningTasks 0 = some k
  unfinished : ((m.heap k).execute (e.time - m.lastEventTime 0)).isCompleted = false

instance (m : Simulator StrideScheduler 1) (e : Event 1) (k : TaskPtr) :
    Decidable (Requeues m e k) :=
  decidable_of_iff (e.type = .timeSlice ∧ e.task = k ∧ m.runningTasks 0 = some k ∧
      ((m.heap k).execute (e.time - m.lastEventTime 0)).isCompleted = false)
    ⟨fun ⟨h₁, h₂, h₃, h₄⟩ => ⟨h₁, h₂, h₃, h₄⟩, fun h => ⟨h.1, h.2, h.3, h.4⟩⟩

/-- The pass of the task that is charged does not wrap, or tasks wait and all of them are
ahead of it. -/
def PassFits (s : Simulator StrideScheduler 1) (e : Event 1) (p : TaskPtr) : Prop :=
  (0 ≤ (s.heap p).startTime ∧ s.pass p + (passAdvance (s.schedulers ()).params (s.heap p)
    (e.time - s.lastEventTime 0)).toNat < 2 ^ 32) ∨
  (s.ready () ≠ [] ∧ ∀ r ∈ s.ready (), s.pass p < s.pass r)

/-- **When a pass grows**: in every run, the charge of an unfinished task and its return to
the queue strictly increase its pass exactly when the addition does not wrap, or every
waiting task is ahead of it. -/
theorem passGrowth (params : StrideParams) (cfg : SimConfig) (w : Workload)
    (s s' : Simulator StrideScheduler 1) (e : Event 1) (p : TaskPtr)
    (hs : Lts.Reachable (Simulator.Step cfg) (Simulator.init (new params) w) s)
    (hstep : Simulator.Step cfg s e s') (hp : Requeues s e p) :
    (s.heap p).passValue < (s'.heap p).passValue ↔ PassFits s e p := by
  have hmachine : Lts.Reachable (Machine.Step cfg Simulator.slot)
      (init (fun _ => new params) w) s :=
    hs.simulate (f := id) fun _ _ _ => Simulator.step_machine
  have hone : s.places p ≤ 1 := (places_le_count (fun _ => rfl) hmachine p).trans
    (List.nodup_iff_count_le_one.1 w.nodup p)
  have hready : p ∉ s.ready () := not_ready_of_running hone hp.running ()
  have hfloored : (s.pop e).Floored :=
    (floored_of_reachable hmachine).congr rfl (fun _ => rfl) fun _ hr => hr
  obtain ⟨hts, rfl, hrun, hleft⟩ := hp
  -- the pass it has afterwards
  have hafter : s'.pass e.task = ((s.pop e).yieldCore () 0 e.task).pass e.task := by
    have hmove := (Simulator.step_machine hstep).2.2
    cases hmove with
    | skip _ hne =>
      have hcore : e.coreId = 0 := Subsingleton.elim _ _
      rw [hcore] at hne
      exact absurd hrun (hne hts)
    | queued harr => rw [hts] at harr; cases harr
    | woken harr => rw [hts] at harr; cases harr
    | preempted harr => rw [hts] at harr; cases harr
    | expired _ hc hn =>
      have hcore : e.coreId = 0 := Subsingleton.elim _ _
      rw [hcore] at hn
      rw [hn.pass, settle_eq, if_neg]
      rw [Task.congrLedger Task.isCompleted ledger_charge, if_pos rfl, Bool.not_eq_true]
      exact hleft
  rw [UInt32.lt_iff_toNat_lt, show (s'.heap e.task).passValue.toNat = _ from hafter,
    pass_yieldCore_self hfloored hready, PassFits]
  have hlift : s.pass e.task < ((s.pop e).charge () 0 e.task).globalPass
      ↔ s.ready () ≠ [] ∧ ∀ r ∈ s.ready (), s.pass e.task < s.pass r :=
    lt_globalPass_charge hfloored hrun hready
  refine Iff.trans ?_ (or_congr_right hlift)
  have hone' := one_le_passAdvance (s.schedulers ()).params (s.heap e.task)
    (e.time - s.lastEventTime 0)
  have hadvance := UInt32.toNat_lt (passAdvance (s.schedulers ()).params (s.heap e.task)
    (e.time - s.lastEventTime 0))
  have hpass : s.pass e.task < 2 ^ 32 := UInt32.toNat_lt _
  show s.pass e.task < (if (s.heap e.task).startTime < 0 then _ else
    max ((s.pass e.task + (passAdvance (s.schedulers ()).params (s.heap e.task)
      (e.time - s.lastEventTime 0)).toNat) % 2 ^ 32) _) ↔ _ ∨ s.pass e.task < _
  split
  next hstart =>
    exact ⟨.inr, fun h => h.resolve_left fun h => absurd h.1 (not_le.2 hstart)⟩
  next hstart =>
    -- the sum is greater than the old pass exactly when it does not wrap
    have hsum : s.pass e.task < (s.pass e.task + (passAdvance (s.schedulers ()).params
        (s.heap e.task) (e.time - s.lastEventTime 0)).toNat) % 2 ^ 32
        ↔ s.pass e.task + (passAdvance (s.schedulers ()).params (s.heap e.task)
          (e.time - s.lastEventTime 0)).toNat < 2 ^ 32 := by
      omega
    rw [lt_max_iff, hsum]
    exact or_congr_left ⟨fun h => ⟨not_lt.1 hstart, h⟩, And.right⟩

/-- The slice of the first task of the pair ends at 5. -/
theorem passGrowth_pair :
    let cfg : SimConfig := { stopTime := 50 }
    let s : Simulator StrideScheduler 1 := Simulator.turns cfg 2 (Simulator.init (new {}) .pair)
    let e : Event 1 := ⟨.timeSlice, 5, 0, 0⟩
    PassFits s e 0 ∧ (s.heap 0).passValue < ((Simulator.handle cfg s e).heap 0).passValue := by
  intro cfg s e
  have hnext : s.events.IsNext e := EventQueue.isNext_of_getNext (by decide +kernel)
  have hfits : PassFits s e 0 := .inl ⟨by decide +kernel, by decide +kernel⟩
  exact ⟨hfits, (passGrowth {} cfg .pair s _ e 0 (Simulator.reachable_turns cfg 2 _)
    ⟨hnext, by decide +kernel, rfl⟩ (by decide +kernel)).2 hfits⟩

/-- **A pass can wrap.**  With the greatest stride constant the stride of nice 19 is a
fifteenth of `2 ^ 32 - 1`: after fifteen quanta the pass is the greatest word, and the
sixteenth takes it back to one less than the stride. -/
theorem passGrowth_false :
    let params : StrideParams := { strideConstant := 4294967295 }
    let cfg : SimConfig := { stopTime := 100 }
    let w := Workload.ofList [⟨0, 0, 1000, 19⟩]
    ¬ ∀ (s s' : Simulator StrideScheduler 1) (e : Event 1) (p : TaskPtr),
      Lts.Reachable (Simulator.Step cfg) (Simulator.init (new params) w) s →
      Simulator.Step cfg s e s' → Requeues s e p →
      (s.heap p).passValue < (s'.heap p).passValue := by
  intro params cfg w h
  let s : Simulator StrideScheduler 1 := Simulator.turns cfg 16 (Simulator.init (new params) w)
  let e : Event 1 := ⟨.timeSlice, 80, 0, 0⟩
  have hnext : s.events.IsNext e := EventQueue.isNext_of_getNext (by decide +kernel)
  have := h s _ e 0 (Simulator.reachable_turns cfg 16 _) ⟨hnext, by decide +kernel, rfl⟩
    (by decide +kernel)
  exact absurd this (by decide +kernel)

end StrideScheduler

end SchedSim
