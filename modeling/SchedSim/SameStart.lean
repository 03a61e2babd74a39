import SchedSim.SharedCore

/-!
# Tasks that arrive together start together

CFS gives a new task the virtual time it has come to, the floor.
The floor may move between two arrivals at the same instant only if no task that
arrived at that instant is waiting, so two such tasks get the same virtual time.

* `VirtualClock.Floor` — where new tasks start.
* `Machine.Level` — every task that arrived just now is at the floor.
* `Block.level` — every block keeps that.
* `level_of_reachable` — so it holds in every state of a run.
-/

namespace SchedSim

/-- Where a policy lets new tasks start. -/
structure VirtualClock.Floor {σ : Type} [Scheduler σ] (V : VirtualClock σ) where
  floor : σ → ℚ
  vtime_new : ∀ (s : σ) (h : Heap) (p : TaskPtr), V.Good s → (h p).startTime < 0 →
    V.vtime ((addTask s h p).2 p) = floor s
  clamp_le : ∀ (s : σ) (t : Task), V.Good s → V.clamp s t ≤ floor s
  floor_addTask : ∀ (s : σ) (h : Heap) (p : TaskPtr), floor (addTask s h p).1 = floor s
  floor_removeTask : ∀ (s : σ) (h : Heap) (i : UInt32), floor (removeTask s h i) = floor s
  /-- A charge leaves the floor alone while a task at the floor is waiting. -/
  floor_onCpuUsed : ∀ (s : σ) (h : Heap) (p q : TaskPtr) (x : ℚ), V.Good s →
    q ∈ readyTasks s → q ≠ p → V.vtime (h q) ≤ floor s → floor (onCpuUsed s h p x).1 = floor s

namespace Machine

variable {σ : Type} [Scheduler σ] {V : VirtualClock σ} {F : V.Floor} {w : Workload}
  {m m' : Machine σ Unit 1} {e : Event 1} {p q r : TaskPtr} {cfg : SimConfig} {x : ℚ}

/-- Every task that arrived just now is at the floor. -/
def Level (F : V.Floor) (m : Machine σ Unit 1) : Prop :=
  ∀ p ∈ (m.view V).active, (m.heap p).arrivalTime = m.currentTime →
    V.vtime (m.heap p) = F.floor (m.schedulers ())

/-- The books of a task that is ready or on the core are complete up to some
instant that is not in the future. -/
theorem Orderly.balanced (hm : m.Orderly V w) (hp : p ∈ (m.view V).active) :
    ∃ time ≤ m.currentTime, (m.heap p).BalancedAt time := by
  rcases hp with hp | hp
  · have hwaits := (hm.books.booked p).waiting () hp
    exact ⟨_, hwaits.past, hwaits.balanced⟩
  · have hruns := (hm.books.booked p).running 0 hp
    exact ⟨_, hruns.past, hruns.balanced⟩

/-- Whatever is ready or on the core has arrived. -/
theorem Orderly.arrivalTime_le (hm : m.Orderly V w) (hp : p ∈ (m.view V).active) :
    (m.heap p).arrivalTime ≤ m.currentTime := by
  obtain ⟨time, hle, hb⟩ := hm.balanced hp
  have hbooked := hb.booked
  rw [Task.booked] at hbooked
  linarith [hb.waited, hb.served]

/-- A task that arrived just now has had no CPU time. -/
theorem Orderly.served_eq_zero (hm : m.Orderly V w) (hp : p ∈ (m.view V).active)
    (hnow : (m.heap p).arrivalTime = m.currentTime) : (m.heap p).served = 0 := by
  obtain ⟨time, hle, hb⟩ := hm.balanced hp
  have hbooked := hb.booked
  rw [Task.booked] at hbooked
  linarith [hb.waited, hb.served]

/-- A task on the core that arrived just now was dispatched just now. -/
theorem Orderly.elapsed_eq_zero (hm : m.Orderly V w) (hc : m.runningTasks 0 = some p)
    (hnow : (m.heap p).arrivalTime = m.currentTime) : m.elapsed 0 = 0 := by
  have hruns := (hm.books.booked p).running 0 hc
  have hb := hruns.balanced.booked
  have := hruns.balanced.waited
  have := hruns.balanced.served
  have := hruns.past
  rw [Task.booked] at hb
  rw [elapsed]
  linarith

/-! ## What moves the floor -/

section FloorOf

variable (F)

theorem floor_enqueue : F.floor ((m.enqueue () p).schedulers ()) = F.floor (m.schedulers ()) := by
  rw [enqueue]
  simp only [setAt_self]
  exact F.floor_addTask _ _ _

theorem floor_dispatch :
    F.floor ((m.dispatch cfg () 0 p x).schedulers ()) = F.floor (m.schedulers ()) := by
  show F.floor (setAt m.schedulers () _ ()) = _
  rw [setAt_self]
  exact F.floor_removeTask _ _ _

/-- A charge leaves the floor alone while a new task is waiting. -/
theorem floor_charge (hm : m.Clocked V) (hl : Level F m) (hq : q ∈ m.ready ()) (hne : q ≠ p)
    (hnow : (m.heap q).arrivalTime = m.currentTime) :
    F.floor ((m.charge () 0 p).schedulers ()) = F.floor (m.schedulers ()) := by
  rw [charge]
  simp only [setAt_self]
  refine F.floor_onCpuUsed _ _ _ _ _ hm.good hq hne ?_
  rw [Heap.modify_of_ne hne]
  exact (hl q (.inl hq) hnow).le

theorem floor_yieldCore : F.floor ((m.yieldCore () 0 p).schedulers ())
    = F.floor ((m.charge () 0 p).schedulers ()) := floor_enqueue F

end FloorOf

/-! ## Every block keeps new tasks level -/

variable [LawfulScheduler σ]

/-- A task that yields the core as it arrives stays at the floor. -/
theorem level_yield_self (hm : m.Orderly V w) (hl : Level F m) (hc : m.runningTasks 0 = some p)
    (hq : q ∈ m.ready ())
    (hnowq : (m.heap q).arrivalTime = m.currentTime)
    (hnow : (m.heap p).arrivalTime = m.currentTime) :
    V.vtime ((m.yieldCore () 0 p).heap p) = F.floor (m.schedulers ()) := by
  have hne : q ≠ p := by
    rintro rfl
    exact hm.not_ready hc hq
  have hclamp := F.clamp_le ((m.charge () 0 p).schedulers ()) (m.heap p)
    (good_charge hm.clocked.good)
  rw [floor_charge F hm.clocked hl hq hne hnowq] at hclamp
  rw [vtime_yieldCore hm.clocked hc, hm.elapsed_eq_zero hc hnow, mul_zero, add_zero,
    hl p (.inr hc) hnow]
  exact max_eq_left hclamp

theorem Block.level (h : Block V cfg m m') (hm : m.Orderly V w) (hl : Level F m) :
    Level F m' := by
  -- time may only pass while nobody who has arrived is new
  have hpop : ∀ {e : Event 1}, m.events.IsNext e → ∀ r ∈ (m.view V).active,
      (m.heap r).arrivalTime = e.time → V.vtime (m.heap r) = F.floor (m.schedulers ()) := by
    intro e he r hr hnow
    have hle := hm.arrivalTime_le hr
    have hclock := hm.books.clock e he.1
    exact hl r hr (le_antisymm hle (hclock.trans hnow.ge))
  cases h with
  | @skip e he => exact fun r hr hnow => hpop he r hr hnow
  | @arrive e he harr =>
    intro r hr hnow
    rw [floor_enqueue]
    by_cases hre : r = e.task
    · subst hre
      refine F.vtime_new _ _ _ hm.clocked.good ?_
      rw [Heap.modify_self]
      exact hm.clocked.fresh _ (EventQueue.mem_arrivals.2 ⟨e, he.1, harr, rfl⟩)
    · have hr' : r ∈ (m.view V).active := by
        rcases hr with hr | hr
        · exact .inl ((mem_ready_enqueue.1 hr).resolve_left fun h => hre h.2)
        · exact .inr hr
      rw [heap_enqueue_of_ne V hre] at hnow ⊢
      exact hpop he r hr' hnow
  | @yield p hc hx hnew =>
    intro r hr hnow
    have hready : ∀ {r}, r ∈ ((m.yieldCore () 0 p).view V).active → r ≠ p → r ∈ m.ready () := by
      rintro r (hr | hr) hne
      · exact (mem_ready_yieldCore.1 hr).resolve_left fun h => hne h.2
      · have hidle : (m.yieldCore () 0 p).runningTasks 0 = none := by
          rw [yieldCore_runningTasks, setAt_self]
        rw [hidle] at hr
        cases hr
    rw [floor_yieldCore]
    by_cases hrp : r = p
    · subst hrp
      have hnowr : (m.heap r).arrivalTime = m.currentTime :=
        (arrivalTime_congr fixed_yieldCore).symm.trans hnow
      rcases hnew with hlt | ⟨q, hq, hnowq⟩
      · exact absurd hnowr hlt.ne
      · have hne : q ≠ r := by
          rintro rfl
          exact hm.not_ready hc hq
        rw [floor_charge F hm.clocked hl hq hne hnowq]
        exact level_yield_self hm hl hc hq hnowq hnowr
    · rw [heap_yieldCore_of_ne V hrp] at hnow ⊢
      rw [floor_charge F hm.clocked hl (hready hr hrp) hrp hnow]
      exact hl r (.inl (hready hr hrp)) hnow
  | @finish p hc hx hdone hlt =>
    intro r hr hnow
    have hidle : ((m.charge () 0 p).finish 0 p).runningTasks 0 = none := by
      rw [finish_runningTasks, setAt_self]
    have hready : r ∈ m.ready () := by
      rcases hr with hr | hr
      · exact mem_ready_charge.1 hr
      · rw [hidle] at hr
        cases hr
    have hrp : r ≠ p := by
      rintro rfl
      exact hm.not_ready hc hready
    rw [heap_finish_of_ne hrp, heap_charge_of_ne V hrp] at hnow ⊢
    rw [hl r (.inl hready) hnow]
    exact (floor_charge F hm.clocked hl hready hrp hnow).symm
  | countSwitch => exact hl
  | @dispatch p x hc hs =>
    intro r hr hnow
    have hr' : r ∈ (m.view V).active := by
      rcases hr with hr | hr
      · exact .inl (mem_ready_removeReady.1 hr).1
      · rw [dispatch_runningTasks, setAt_self] at hr
        obtain rfl := Option.some.inj hr
        exact .inl (mem_ready_of_schedule hs)
    rw [floor_dispatch, VirtualClock.vtime_congr policy_dispatched]
    exact hl r hr' ((arrivalTime_congr fixed_dispatch).symm.trans hnow)

/-- In every reachable state the tasks that arrived just now are at the floor. -/
theorem level_of_reachable (F : V.Floor) {scheduler : σ} (hgood : V.Good scheduler)
    (hempty : readyTasks scheduler = []) (hvalid : w.Valid)
    (h : Lts.Reachable (Step cfg Simulator.slot) (init (fun _ => scheduler) w) m) : Level F m := by
  obtain ⟨es, hrun⟩ := h
  have hblocks := blocks_of_run hgood hempty hvalid Lts.Reachable.refl hrun
  have hinit : Level F (init (fun _ => scheduler) w : Machine σ Unit 1) := by
    rintro p (hp | hp)
    · rw [ready, init, hempty] at hp
      cases hp
    · cases hp
  clear hrun
  induction hblocks with
  | refl => exact hinit
  | tail hbs hb ih =>
    exact hb.level (Blocks.orderly hbs hvalid (orderly_init hgood hempty hvalid)) ih

end Machine

end SchedSim
