import SchedSim.Accounting
import SchedSim.PassGrowth
import SchedSim.Slices

/-!
# How far apart the passes of Stride are

While tasks wait, each charge moves the global pass up to the least of them, and no task is
ahead of it by more than its stride.  A task that runs alone leaves the global pass behind.

* `Machine.Settled` — the strides are those `add_task` computes.
* `Machine.Close` — while tasks wait, no task is more than its stride above the global pass.
* `StrideScheduler.KeepsPace` — an arrival does not find a task alone above the global pass.
* `StrideScheduler.passSpread` — then the passes never differ by more than the largest stride.
* `StrideScheduler.passSpread_false` — they do when a task has run alone.
-/

namespace SchedSim

/-! ## A charge is at most a stride -/

namespace StrideScheduler

variable {params : StrideParams} {t : Task} {x : ℚ}

theorem passAdvance_le (hquantum : 0 < params.quantum) (hx : x ≤ params.quantum)
    (hstride : 1 ≤ t.stride.toNat) : (passAdvance params t x).toNat ≤ t.stride.toNat := by
  have hfraction : (t.stride.toNat : ℚ) * (x / params.quantum) ≤ t.stride.toNat := by
    have hle : x / params.quantum ≤ 1 := (div_le_one hquantum).2 hx
    exact mul_le_of_le_one_right (Nat.cast_nonneg _) hle
  rw [passAdvance, toNat_max]
  refine max_le ?_ hstride
  rw [UInt32.toNat_ofNat']
  exact (Nat.mod_le _ _).trans (truncate_toNat_le hfraction)

end StrideScheduler

namespace Machine

open StrideScheduler (new passAdvance)

variable {m m' : Simulator StrideScheduler 1} {e : Event 1} {p r : TaskPtr} {cfg : SimConfig}
  {x : ℚ} {params : StrideParams}

/-- The stride of a task, as a number. -/
abbrev stride (m : Simulator StrideScheduler 1) (p : TaskPtr) : ℕ := (m.heap p).stride.toNat

/-! ## The strides -/

/-- Ready and running tasks have the stride that `add_task` computes. -/
def Settled (params : StrideParams) (m : Simulator StrideScheduler 1) : Prop :=
  ∀ r, Under Simulator.slot m () r → (m.heap r).stride = (new params).strideOf (m.heap r).weight

theorem stride_enqueue_self (hparams : (m.schedulers ()).params = params) :
    ((m.enqueue () p).heap p).stride = (new params).strideOf (m.heap p).weight := by
  have hself : (m.enqueue () p).heap p = ((m.schedulers ()).addTask
      (m.heap.modify p (·.markReady m.currentTime)) p).2 p := rfl
  rw [hself, StrideScheduler.addTask_self, Heap.modify_self]
  exact StrideScheduler.strideOf_congr hparams _

theorem weight_eq (h : (m'.heap r).fixed = (m.heap r).fixed) :
    (m'.heap r).weight = (m.heap r).weight := congrArg Prod.snd h

theorem stride_dispatch {c : Fin 1} : ((m.dispatch cfg () c p x).heap r).stride
    = (m.heap r).stride := by
  have hpolicy : ((m.dispatch cfg () c p x).heap r).policy.stride = (m.heap r).policy.stride :=
    congrArg Task.stride policy_dispatched
  exact hpolicy

theorem params_charge : ((m.charge () 0 p).schedulers ()).params = (m.schedulers ()).params := by
  rw [charge]
  simp only [setAt_self]
  exact StrideScheduler.updateGlobalPass_params _ _

theorem stride_yieldCore_self (hparams : (m.schedulers ()).params = params) :
    ((m.yieldCore () 0 p).heap p).stride = (new params).strideOf (m.heap p).weight := by
  have hself := stride_enqueue_self (p := p)
    (m := { (m.charge () 0 p).clearCore 0 with
      heap := (m.charge () 0 p).heap.modify p Task.incrementPreemptions
      preemptions := (m.charge () 0 p).preemptions + 1 }) (params_charge.trans hparams)
  simp only [Heap.modify_self] at hself
  exact hself.trans (congrArg _ (weight_eq fixed_charge))

theorem Settled.enqueue (h : m.Settled params) (hparams : (m.schedulers ()).params = params) :
    (m.enqueue () p).Settled params := by
  intro r hr
  by_cases hrp : r = p
  · subst hrp
    rw [stride_enqueue_self hparams, weight_eq fixed_enqueue]
  · rw [record_enqueue_of_ne hrp]
    rcases hr with hr | hr
    · exact h r (.inl ((mem_ready_enqueue.1 hr).resolve_left fun heq => hrp heq.2))
    · exact h r (.inr hr)

/-- Only ready tasks are under the scheduler once the core is clear. -/
theorem ready_of_under (hc : m.runningTasks 0 = none) (hr : Under Simulator.slot m () r) :
    r ∈ m.ready () := by
  rcases hr with hr | ⟨c, -, hrun⟩
  · exact hr
  · obtain rfl : c = 0 := Subsingleton.elim _ _
    rw [hc] at hrun
    cases hrun

theorem Settled.settle (h : m.Settled params) (hparams : (m.schedulers ()).params = params)
    (hp : p ∉ m.ready ()) : (m.settle () 0 p).Settled params := by
  intro r hr
  have hready := ready_of_under (by rw [settle_runningTasks, setAt_self]) hr
  by_cases hrp : r = p
  · subst hrp
    rw [weight_eq fixed_settle]
    rw [settle_eq] at hready ⊢
    split at hready
    next => exact absurd (mem_ready_charge.1 hready) hp
    next hleft =>
      rw [if_neg hleft]
      exact stride_yieldCore_self hparams
  · rw [record_settle_of_ne hrp]
    exact h r (.inl ((mem_ready_settle hready).resolve_left fun heq => hrp heq.2))

theorem Next.settled (hn : Next cfg Simulator.slot 0 m m') (hc : m.runningTasks 0 = none)
    (h : m.Settled params) : m'.Settled params := by
  cases hn with
  | idle =>
    rw [clearCore_eq_self m 0 hc]
    exact h
  | @own p x hs =>
    intro r hr
    rw [stride_dispatch, weight_eq fixed_dispatch]
    rcases hr with hr | ⟨c, -, hrun⟩
    · rw [ready_dispatch] at hr
      exact h r (.inl (mem_ready_removeReady.1 hr).1)
    · obtain rfl : c = 0 := Subsingleton.elim _ _
      rw [dispatch_runningTasks, setAt_self] at hrun
      obtain rfl := Option.some.inj hrun
      exact h p (.inl (mem_ready_of_schedule hs))
  | steal hb => exact absurd rfl hb

theorem Move.settled (hmove : Move cfg Simulator.slot m e m')
    (hparams : (m.schedulers ()).params = params) (hone : ∀ p, m.places p ≤ 1)
    (h : m.Settled params) : m'.Settled params := by
  have hpop : (m.pop e).Settled params := h
  cases hmove with
  | skip => exact hpop
  | queued => exact hpop.enqueue hparams
  | @woken c _ _ hidle hn =>
    obtain rfl : c = 0 := Subsingleton.elim _ _
    exact hn.settled hidle (hpop.enqueue hparams)
  | preempted _ _ _ hp => cases hp
  | expired hts hc hn =>
    have hcore : e.coreId = 0 := Subsingleton.elim _ _
    rw [hcore] at hc hn
    refine hn.settled (by rw [settle_runningTasks, setAt_self]) (hpop.settle hparams ?_)
    exact not_ready_of_running (hone e.task) hc ()

/-! ## The passes while tasks wait -/

/-- While tasks wait, no task is more than its stride above the global pass, and the running
one is not above it at all. -/
structure Close (m : Simulator StrideScheduler 1) : Prop where
  under : m.ready () ≠ [] → ∀ r, Under Simulator.slot m () r → m.pass r ≤ m.globalPass + m.stride r
  running : m.ready () ≠ [] → ∀ p, m.runningTasks 0 = some p → m.pass p ≤ m.globalPass

/-- The task that is dispatched has the least pass. -/
theorem pass_le_of_schedule (hs : schedule (m.schedulers ()) m.heap = ⟨some p, x⟩) :
    ∀ r ∈ m.ready (), m.pass p ≤ m.pass r := by
  intro r hr
  have hmin : minElement (StrideScheduler.strideComparator m.heap) (m.schedulers ()).readyQueue
      = some p := by
    rw [← StrideScheduler.schedule_task]
    exact congrArg ScheduleDecision.task hs
  have hle := minElement_le (f := fun p => ((m.heap p).passValue.toNat : ℚ))
    (fun _ _ => StrideScheduler.passValue_le_of_strideComparator.1)
    (fun _ _ => StrideScheduler.passValue_le_of_strideComparator.2) hmin r hr
  exact Nat.cast_le.1 hle

/-- `dispatch_next` needs the bounds only if it leaves a task waiting. -/
theorem Next.close (hn : Next cfg Simulator.slot 0 m m')
    (hunder : 1 < (m.ready ()).length → ∀ r ∈ m.ready (), m.pass r ≤ m.globalPass + m.stride r)
    (hleast : 1 < (m.ready ()).length → ∃ r ∈ m.ready (), m.pass r ≤ m.globalPass) : m'.Close := by
  cases hn with
  | idle hnil =>
    exact ⟨fun hne => absurd hnil hne, fun hne => absurd hnil hne⟩
  | @own p x hs =>
    have hp := mem_ready_of_schedule hs
    have hlen : (m.dispatch cfg () 0 p x).ready () ≠ [] → 1 < (m.ready ()).length := by
      intro hne
      rw [ready_dispatch] at hne
      have hlt : ((m.removeReady () p).ready ()).length < (m.ready ()).length :=
        length_ready_removeReady_lt hp
      have hpos := List.length_pos_iff.2 hne
      omega
    refine ⟨fun hne r hr => ?_, fun hne r hr => ?_⟩
    · have hmem : r ∈ m.ready () := by
        rcases hr with hr | ⟨c, -, hrun⟩
        · rw [ready_dispatch] at hr
          exact (mem_ready_removeReady.1 hr).1
        · obtain rfl : c = 0 := Subsingleton.elim _ _
          rw [dispatch_runningTasks, setAt_self] at hrun
          obtain rfl := Option.some.inj hrun
          exact hp
      rw [globalPass_dispatch, pass_dispatch, stride, stride_dispatch]
      exact hunder (hlen hne) r hmem
    · rw [dispatch_runningTasks, setAt_self] at hr
      obtain rfl := Option.some.inj hr
      obtain ⟨q, hq, hle⟩ := hleast (hlen hne)
      rw [globalPass_dispatch, pass_dispatch]
      exact (pass_le_of_schedule hs q hq).trans hle
  | steal hb => exact absurd rfl hb

theorem globalPass_le_charge (hp : p ∉ m.ready ()) :
    m.globalPass ≤ (m.charge () 0 p).globalPass := by
  rcases globalPass_charge hp with ⟨-, heq⟩ | ⟨q, -, -, heq⟩
  · exact heq.ge
  · exact heq ▸ le_max_left _ _

/-- A charge of at most a stride leaves its task at most a stride above the global pass. -/
theorem pass_yieldCore_le (h : m.Floored) (hp : p ∉ m.ready ())
    (hpass : m.pass p ≤ m.globalPass)
    (hcharge : (passAdvance (m.schedulers ()).params (m.heap p) (m.elapsed 0)).toNat ≤ m.stride p) :
    (m.yieldCore () 0 p).pass p ≤ (m.charge () 0 p).globalPass + m.stride p := by
  have hglobal := globalPass_le_charge hp
  rw [pass_yieldCore_self h hp]
  split
  · exact Nat.le_add_right _ _
  · refine max_le ((Nat.mod_le _ _).trans ?_) (Nat.le_add_right _ _)
    omega

/-- The least waiting task is not above the global pass once another has been charged. -/
theorem exists_pass_le_charge (hp : p ∉ m.ready ()) (hne : m.ready () ≠ []) :
    ∃ r ∈ m.ready (), m.pass r ≤ (m.charge () 0 p).globalPass := by
  rcases globalPass_charge hp with ⟨hnil, -⟩ | ⟨r, hr, -, heq⟩
  · exact absurd hnil hne
  · exact ⟨r, hr, heq ▸ le_max_right _ _⟩

theorem globalPass_settle : (m.settle () 0 p).globalPass = (m.charge () 0 p).globalPass := by
  rw [settle_eq]
  split
  · rfl
  · exact globalPass_enqueue

/-- The bounds hold after every step that charges at most a stride, if an arrival does not
find a task alone above the global pass. -/
theorem Move.close (hmove : Move cfg Simulator.slot m e m') (he : m.events.IsNext e)
    (hone : ∀ p, m.places p ≤ 1) (hparams : (m.schedulers ()).params = params)
    (hnew : e.type = .arrival → (m.heap e.task).startTime < 0)
    (hpace : e.type = .arrival → m.ready () = [] → ∀ p, m.runningTasks 0 = some p →
      m.pass p ≤ m.globalPass)
    (hcharge : m.runningTasks 0 = some e.task → (passAdvance (m.schedulers ()).params
      (m.heap e.task) (e.time - m.lastEventTime 0)).toNat ≤ m.stride e.task)
    (hfloored : m.Floored) (hsettled : m.Settled params) (h : m.Close) : m'.Close := by
  have hpop : (m.pop e).Floored := hfloored.congr rfl (fun _ => rfl) fun _ hr => hr
  -- an arrival keeps the bounds of the waiting tasks, and itself starts at the global pass
  have hself : e.type = .arrival → ((m.pop e).enqueue () e.task).pass e.task = m.globalPass := by
    intro harr
    rw [pass_enqueue_self hpop.narrow]
    exact if_pos (hnew harr)
  have hrecord : e.type = .arrival → ∀ r, Under Simulator.slot m () r →
      ((m.pop e).enqueue () e.task).heap r = m.heap r := by
    intro harr r hr
    have hr' : Under Simulator.slot (m.pop e) () r := hr
    refine record_enqueue_of_ne ?_
    rintro rfl
    exact hr'.places_pos.ne' (places_pop_arrival he.1 harr hone)
  have hbounds : e.type = .arrival → ∀ r ∈ ((m.pop e).enqueue () e.task).ready (),
      ((m.pop e).enqueue () e.task).pass r ≤ ((m.pop e).enqueue () e.task).globalPass
        + ((m.pop e).enqueue () e.task).stride r := by
    intro harr r hr
    rw [globalPass_enqueue]
    rcases mem_ready_enqueue.1 hr with ⟨-, rfl⟩ | hr
    · rw [hself harr]
      exact Nat.le_add_right _ _
    · have hr' : r ∈ m.ready () := hr
      rw [pass, stride, hrecord harr r (.inl hr')]
      exact h.under (List.ne_nil_of_mem hr') r (.inl hr')
  cases hmove with
  | skip => exact ⟨h.under, h.running⟩
  | @queued q harr =>
    have hrunning : ∀ p, m.runningTasks 0 = some p →
        ((m.pop e).enqueue () e.task).pass p ≤ ((m.pop e).enqueue () e.task).globalPass := by
      intro p hp
      rw [globalPass_enqueue, pass, hrecord harr p (.inr ⟨0, rfl, hp⟩)]
      by_cases hnil : m.ready () = []
      · exact hpace harr hnil p hp
      · exact h.running hnil p hp
    refine ⟨fun _ r hr => ?_, fun _ => hrunning⟩
    rcases hr with hr | ⟨c, -, hrun⟩
    · exact hbounds harr r hr
    · obtain rfl : c = 0 := Subsingleton.elim _ _
      exact (hrunning r hrun).trans (Nat.le_add_right _ _)
  | @woken c _ harr hidle hn =>
    obtain rfl : c = 0 := Subsingleton.elim _ _
    refine hn.close (fun _ => hbounds harr) fun _ =>
      ⟨e.task, mem_ready_enqueue.2 (.inl ⟨rfl, rfl⟩), ?_⟩
    exact ((hself harr).trans globalPass_enqueue.symm).le
  | preempted _ _ _ hp => cases hp
  | expired hts hc hn =>
    have hcore : e.coreId = 0 := Subsingleton.elim _ _
    rw [hcore] at hc hn
    have hp : e.task ∉ (m.pop e).ready () := not_ready_of_running (hone e.task) hc ()
    -- with two tasks in the queue now, one was waiting before
    have hwaiting : 1 < (((m.pop e).settle () 0 e.task).ready ()).length → m.ready () ≠ [] := by
      rintro hlen hnil
      have hle : (((m.pop e).settle () 0 e.task).ready ()).length
          ≤ ((m.pop e).ready ()).length + 1 := length_ready_settle_le
      rw [show (m.pop e).ready () = m.ready () from rfl, hnil, List.length_nil] at hle
      omega
    refine hn.close (fun hlen r hr => ?_) fun hlen => ?_
    · have hne := hwaiting hlen
      rw [globalPass_settle]
      by_cases hrp : r = e.task
      · subst hrp
        have hle := pass_yieldCore_le hpop hp (h.running hne _ hc) (hcharge hc)
        have hstride : ((m.pop e).settle () 0 e.task).stride e.task = m.stride e.task := by
          rw [stride, hsettled.settle (m := m.pop e) hparams hp _ (.inl hr), weight_eq fixed_settle]
          exact (congrArg UInt32.toNat (hsettled e.task (.inr ⟨0, rfl, hc⟩))).symm
        rw [hstride]
        rw [settle_eq] at hr ⊢
        split at hr
        next => exact absurd (mem_ready_charge.1 hr) hp
        next hleft =>
          rw [if_neg hleft]
          exact hle
      · have hmem : r ∈ m.ready () := (mem_ready_settle hr).resolve_left fun heq => hrp heq.2
        have hglobal := globalPass_le_charge hp
        rw [pass, stride, record_settle_of_ne hrp]
        exact (h.under hne r (.inl hmem)).trans (Nat.add_le_add_right hglobal _)
    · obtain ⟨r, hr, hle⟩ := exists_pass_le_charge hp (hwaiting hlen)
      refine ⟨r, mem_ready_settle_of_mem hr, ?_⟩
      have hrp : r ≠ e.task := by
        rintro rfl
        exact hp hr
      rw [globalPass_settle, pass, record_settle_of_ne hrp]
      exact hle

/-! ## Runs -/

/-- The pass values of any two ready or running tasks differ by at most the largest stride. -/
def PassSpread (m : Simulator StrideScheduler 1) : Prop :=
  ∀ p r, Under Simulator.slot m () p → Under Simulator.slot m () r →
    ∃ u, Under Simulator.slot m () u ∧ |(m.pass p : ℤ) - m.pass r| ≤ m.stride u

theorem Close.spread (h : m.Close) (hfloored : m.Floored) : m.PassSpread := by
  have hfloor : ∀ r, Under Simulator.slot m () r → m.globalPass ≤ m.pass r := by
    rintro r (hr | ⟨c, -, hr⟩)
    · exact hfloored.ready r hr
    · obtain rfl : c = 0 := Subsingleton.elim _ _
      exact hfloored.running r hr
  intro p r hp hr
  by_cases hnil : m.ready () = []
  · -- both are the task on the core
    have hsame : p = r := by
      rcases hp with hp | ⟨c, -, hp⟩
      · rw [hnil] at hp
        cases hp
      rcases hr with hr | ⟨d, -, hr⟩
      · rw [hnil] at hr
        cases hr
      obtain rfl : c = d := Subsingleton.elim _ _
      exact Option.some.inj (hp.symm.trans hr)
    subst hsame
    exact ⟨p, hp, by simp⟩
  · have hple := h.under hnil p hp
    have hrle := h.under hnil r hr
    have hpge := hfloor p hp
    have hrge := hfloor r hr
    rcases le_total (m.pass r) (m.pass p) with hle | hle
    · refine ⟨p, hp, ?_⟩
      rw [abs_le]
      omega
    · refine ⟨r, hr, ?_⟩
      rw [abs_le]
      omega

/-! ## No slice is longer than the quantum -/

/-- The slice on the core is the quantum, or all its task needs. -/
def Allotted (quantum : ℚ) (m : Simulator StrideScheduler 1) : Prop :=
  ∀ p, m.runningTasks 0 = some p → m.granted 0 = min quantum (m.heap p).remainingTime

theorem Next.allotted {quantum : ℚ} (hquantum : 0 < quantum) (h : Next cfg Simulator.slot 0 m m')
    (hs : ∀ p x, schedule (m.schedulers ()) m.heap = ⟨some p, x⟩ → x = quantum)
    (hc : m.runningTasks 0 = none) : Allotted quantum m' := by
  intro p hp
  cases h with
  | idle =>
    rw [clearCore_eq_self m 0 hc, hc] at hp
    cases hp
  | @own q x hsched =>
    rw [dispatch_runningTasks, setAt_self] at hp
    obtain rfl := Option.some.inj hp
    rw [granted_dispatch_self, hs q x hsched, Task.congrLedger Task.remainingTime
      (ledger_dispatch cfg quantum), if_pos rfl, Task.remainingTime_start,
      Task.remainingTime_markDispatched, grant, if_pos hquantum]
  | steal hb => exact absurd rfl hb

end Machine

namespace StrideScheduler

open Machine

variable {params : StrideParams} {cfg : SimConfig} {w : Workload} {s : Simulator StrideScheduler 1}

theorem allotted_of_reachable {m : Simulator StrideScheduler 1} (hquantum : 0 < params.quantum)
    (h : Lts.Reachable (Machine.Step cfg Simulator.slot) (init (fun _ => new params) w) m) :
    (∀ q, (m.schedulers q).params = params) ∧ Allotted params.quantum m := by
  refine h.induction (I := fun m : Simulator StrideScheduler 1 =>
    (∀ q, (m.schedulers q).params = params) ∧ Allotted params.quantum m)
    ⟨fun _ => rfl, by rintro p ⟨⟩⟩ ?_
  rintro s e t - ⟨hparams, hm⟩ ⟨-, -, hmove⟩
  refine ⟨hmove.grants (grantsAtLeast params) hparams, ?_⟩
  have henq : Allotted params.quantum ((s.pop e).enqueue () e.task) := by
    intro p hp
    rw [Task.congrLedger Task.remainingTime ledger_enqueue]
    split <;> exact hm p hp
  cases hmove with
  | skip => exact hm
  | queued => exact henq
  | @woken c _ harr hidle hn =>
    obtain rfl : c = 0 := Subsingleton.elim _ _
    refine hn.allotted hquantum (fun p x hs => ?_) hidle
    have hparams' := grants_enqueue (m := s.pop e) (q := ()) (p := e.task) (grantsAtLeast params)
      hparams
    rw [schedule_quantum hs, hparams']
  | preempted _ _ _ hp => cases hp
  | expired hts hc hn =>
    have hcore : e.coreId = 0 := Subsingleton.elim _ _
    rw [hcore] at hc hn
    refine hn.allotted hquantum (fun p x hs => ?_) (by rw [settle_runningTasks, setAt_self])
    have hparams' := grants_settle (m := s.pop e) (q := ()) (c := 0) (p := e.task)
      (grantsAtLeast params) hparams
    rw [schedule_quantum hs, hparams']

/-- The pass of a task that goes back into the queue fits a 32-bit word. -/
def NoOverflow (m : Simulator StrideScheduler 1) (e : Event 1) : Prop :=
  ∀ k, Requeues m e k → (m.heap k).passValue.toNat + (m.heap k).stride.toNat < 2 ^ 32

instance (m : Simulator StrideScheduler 1) (e : Event 1) : Decidable (NoOverflow m e) :=
  decidable_of_iff (Requeues m e e.task →
      (m.heap e.task).passValue.toNat + (m.heap e.task).stride.toNat < 2 ^ 32)
    ⟨fun h k hk => by obtain rfl := hk.task; exact h hk, fun h => h e.task⟩

/-- If a task arrives while another one runs and nobody waits, then the global pass is not
behind the pass of the running task. -/
def KeepsPace (s : Simulator StrideScheduler 1) (e : Event 1) : Prop :=
  e.type = .arrival → s.ready () = [] → ∀ p, s.runningTasks 0 = some p → s.pass p ≤ s.globalPass

instance (s : Simulator StrideScheduler 1) (e : Event 1) : Decidable (KeepsPace s e) :=
  inferInstanceAs (Decidable (_ → _ → ∀ p ∈ s.runningTasks 0, s.pass p ≤ s.globalPass))

theorem close_of_reachable (hquantum : 0 < params.quantum)
    (h : Lts.Reachable (fun s e t => Machine.Step cfg Simulator.slot s e t ∧ KeepsPace s e)
      (init (fun _ => new params) w) s) : s.Settled params ∧ s.Close := by
  refine h.induction (I := fun m : Simulator StrideScheduler 1 => m.Settled params ∧ m.Close)
    ⟨?_, ?_, ?_⟩ ?_
  · rintro r (hr | ⟨c, -, ⟨⟩⟩)
    cases hr
  · exact fun hne => absurd rfl hne
  · rintro - p ⟨⟩
  · rintro s e t hs ⟨hsettled, hclose⟩ ⟨⟨hnext, hstop, hmove⟩, hpace⟩
    have hs' : Lts.Reachable (Machine.Step cfg Simulator.slot) (init (fun _ => new params) w) s :=
      hs.simulate (f := id) fun _ _ _ hst => hst.1
    have hone : ∀ p, s.places p ≤ 1 := fun p =>
      (places_le_count (fun _ => rfl) hs' p).trans (List.nodup_iff_count_le_one.1 w.nodup p)
    obtain ⟨hparams, hallotted⟩ := allotted_of_reachable hquantum hs'
    refine ⟨hmove.settled (hparams ()) hone hsettled,
      hmove.close hnext hone (hparams ()) (fun harr => ?_) hpace (fun hc => ?_)
        (floored_of_reachable hs') hsettled hclose⟩
    · exact unstarted_of_reachable (fun _ => rfl) hs' _
        (EventQueue.mem_arrivals.2 ⟨e, hnext.1, harr, rfl⟩)
    · -- no slice is longer than the quantum
      have hslice : e.time - s.lastEventTime 0 ≤ params.quantum := by
        have hle := elapsed_le_granted (slicePending_of_reachable hs') hnext hc
        rw [hallotted _ hc] at hle
        exact hle.trans (min_le_left _ _)
      have hstride : 1 ≤ (s.heap e.task).stride.toNat := by
        rw [hsettled e.task (.inr ⟨0, rfl, hc⟩)]
        exact one_le_strideOf _ _
      rw [hparams ()]
      exact passAdvance_le hquantum hslice hstride

/-- **Passes stay together** in every run in which no arrival finds a task running alone
above the global pass. -/
theorem passSpread (params : StrideParams) (hquantum : 0 < params.quantum) (cfg : SimConfig)
    (w : Workload) (s : Simulator StrideScheduler 1)
    (hs : Lts.Reachable (fun s e s' => Simulator.Step cfg s e s' ∧ KeepsPace s e)
      (Simulator.init (new params) w) s) : s.PassSpread := by
  have hmachine : Lts.Reachable
      (fun s e t => Machine.Step cfg Simulator.slot s e t ∧ KeepsPace s e)
      (init (fun _ => new params) w) s :=
    hs.simulate (f := id) fun _ _ _ h => ⟨Simulator.step_machine h.1, h.2⟩
  have hs' : Lts.Reachable (Machine.Step cfg Simulator.slot) (init (fun _ => new params) w) s :=
    hmachine.simulate (f := id) fun _ _ _ h => h.1
  exact (close_of_reachable hquantum hmachine).2.spread (floored_of_reachable hs')

/-- The second task of the pair arrives in the first quantum of the first one. -/
theorem passSpread_pair :
    let cfg : SimConfig := { stopTime := 50 }
    let s : Simulator StrideScheduler 1 := Simulator.turns cfg 3 (Simulator.init (new {}) .pair)
    s.PassSpread := by
  intro cfg s
  exact passSpread {} (by norm_num) cfg .pair s
    (Simulator.reachable_turns_of cfg 3 _ (by decide +kernel))

/-- **A task that has run alone is far ahead.**  After two quanta its pass is 18, and the task
that arrives at 12 starts at the global pass, which is still 0. -/
theorem passSpread_false :
    let cfg : SimConfig := { stopTime := 50 }
    let w := Workload.ofList [⟨0, 0, 100, 0⟩, ⟨1, 12, 10, 0⟩]
    ¬ ∀ s : Simulator StrideScheduler 1,
      Lts.Reachable (fun s e s' => Simulator.Step cfg s e s' ∧ NoOverflow s e)
        (Simulator.init (new {}) w) s → s.PassSpread := by
  intro cfg w h
  let s : Simulator StrideScheduler 1 := Simulator.turns cfg 4 (Simulator.init (new {}) w)
  have hrun : s.runningTasks 0 = some 0 := by decide +kernel
  have hready : s.ready () = [1] := by decide +kernel
  obtain ⟨u, hu, hle⟩ := h s (Simulator.reachable_turns_of cfg 4 _ (by decide +kernel)) 0 1
    (.inr ⟨0, rfl, hrun⟩) (.inl (by rw [hready]; decide))
  have hstride : s.stride u = 9 := by
    rcases hu with hu | ⟨c, -, hu⟩
    · rw [hready, List.mem_singleton] at hu
      subst hu
      decide +kernel
    · obtain rfl : c = 0 := Subsingleton.elim _ _
      obtain rfl := Option.some.inj (hrun.symm.trans hu)
      decide +kernel
  rw [hstride] at hle
  exact absurd hle (by decide +kernel)

end StrideScheduler

end SchedSim
