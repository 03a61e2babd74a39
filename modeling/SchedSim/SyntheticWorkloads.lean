import SchedSim.Rngs
import SchedSim.Task
import Mathlib.Data.List.GetD

/-!
# Synthetic workloads

`src/workloads/server_workload.cpp`, `src/workloads/desktop_workload.cpp`, and the two variates of
`lib/rvgs.c` they use.  Both generators alternate between periods; a period has one task or a burst
of tasks, a gap before each of them, and kinds of tasks to choose from.  Numbers are exact, and the
logarithm is a parameter.

* `SyntheticWorkload.generate_spec` — the tasks that are generated.
* `SyntheticWorkload.generate_take` — a smaller workload is the beginning of a larger one.
-/

namespace SchedSim

namespace Rvgs

/-- A number between `a` and `b` -/
def uniform (a b : ℚ) (g : Rngs) : ℚ × Rngs := (a + (b - a) * g.random.1, g.random.2)

/-- A positive number with mean `m` -/
def exponential (log : ℚ → ℚ) (m : ℚ) (g : Rngs) : ℚ × Rngs :=
  (-m * log (1 - g.random.1), g.random.2)

end Rvgs

open Rvgs

/-- How the time to the next arrival is drawn -/
inductive Gap
  | uniform (a b : ℚ)
  | exponential (m : ℚ)

def Gap.draw (log : ℚ → ℚ) : Gap → Rngs → ℚ × Rngs
  | .uniform a b => Rvgs.uniform a b
  | .exponential m => Rvgs.exponential log m

/-- The execution times and the nice value of a kind of tasks -/
structure Kind where
  lo : ℚ
  hi : ℚ
  nice : ℤ
  deriving DecidableEq

/-- A chain of comparisons `if (r < …) … else if (r < …) … else …` -/
def chooseBelow {α : Type} (r : ℚ) : List (ℚ × α) → α → α
  | [], otherwise => otherwise
  | (bound, a) :: rest, otherwise => if r < bound then a else chooseBelow r rest otherwise

/-- A period of the user's or the clients' activity.  A number is drawn for the kind of a task
only if there is more than one kind. -/
structure Period where
  /-- The size of a burst; otherwise the period has one task. -/
  burst : Option (ℚ × ℚ) := none
  gap : Gap
  kinds : List (ℚ × Kind) := []
  otherwise : Kind

def Period.kind (period : Period) (g : Rngs) : Kind × Rngs :=
  if period.kinds = [] then (period.otherwise, g)
  else (chooseBelow g.random.1 period.kinds period.otherwise, g.random.2)

/-- A workload generator that draws its tasks -/
structure SyntheticWorkload where
  name : String
  periods : List (ℚ × Period)
  otherwise : Period

/-- `ServerWorkload::generate`, the periods of its loop -/
def serverWorkload : SyntheticWorkload where
  name := "Server"
  periods :=
    -- burst period (traffic spike)
    [(0.3,
      { burst := some (8, 15)
        gap := .uniform 0.1 0.5
        kinds := [(0.60, ⟨1, 8, -5⟩), (0.85, ⟨5, 20, 0⟩)]
        otherwise := ⟨25, 60, 5⟩ })]
  -- steady period (normal traffic)
  otherwise :=
    { gap := .exponential 2
      kinds := [(0.55, ⟨2, 10, -5⟩), (0.80, ⟨8, 25, 10⟩), (0.95, ⟨15, 40, 0⟩)]
      otherwise := ⟨50, 100, 5⟩ }

/-- `DesktopWorkload::generate`, the periods of its loop -/
def desktopWorkload : SyntheticWorkload where
  name := "Desktop"
  periods :=
    -- user idle / thinking gap
    [(0.25,
      { gap := .uniform 10 30
        otherwise := ⟨30, 80, 10⟩ }),
    -- rapid interactive burst
     (0.55,
      { burst := some (3, 8)
        gap := .uniform 0.2 1
        otherwise := ⟨0.5, 5, -5⟩ }),
    -- normal interactive task
     (0.80,
      { gap := .exponential 2
        kinds := [(0.70, ⟨1, 10, -5⟩)]
        otherwise := ⟨8, 25, 0⟩ })]
  -- heavy batch job
  otherwise :=
    { gap := .exponential 3
      kinds := [(0.50, ⟨40, 90, 5⟩), (0.80, ⟨20, 50, 0⟩)]
      otherwise := ⟨80, 150, 5⟩ }

namespace SyntheticWorkload

/-- The local variables of `generate`, with the state of the random number library -/
structure Progress where
  tasks : List TaskArgs := []
  arrivalTime : ℚ := 0
  taskCount : ℕ := 0
  rngs : Rngs

/-- The same variables, with another state of the library -/
def Progress.withRngs (s : Progress) (g : Rngs) : Progress := { s with rngs := g }

/-- One more task: its gap is drawn from stream 0, the rest of it from stream 1. -/
def pushTask (log : ℚ → ℚ) (period : Period) (s : Progress) : Progress :=
  let (gap, g) := period.gap.draw log s.rngs
  let arrivalTime := s.arrivalTime + gap
  let (kind, g) := period.kind (g.selectStream 1)
  let (executionTime, g) := uniform kind.lo kind.hi g
  { tasks := s.tasks ++ [⟨UInt32.ofNat s.taskCount, arrivalTime, executionTime, kind.nice⟩]
    arrivalTime := arrivalTime
    taskCount := s.taskCount + 1
    rngs := g.selectStream 0 }

/-- `for (int b = 0; b < burst_size && task_count < num_tasks; ++b)` -/
def burstLoop (log : ℚ → ℚ) (numTasks : ℕ) (period : Period) : ℕ → Progress → Progress
  | 0, s => s
  | b + 1, s =>
    if s.taskCount < numTasks then burstLoop log numTasks period b (pushTask log period s) else s

/-- The tasks of a period; the size of a burst is drawn from stream 4. -/
def runPeriod (log : ℚ → ℚ) (numTasks : ℕ) (period : Period) (s : Progress) : Progress :=
  match period.burst with
  | none => pushTask log period s
  | some (lo, hi) =>
    let (size, g) := uniform lo hi (s.rngs.selectStream 4)
    burstLoop log numTasks period (truncate size).toNat (s.withRngs (g.selectStream 0))

/-- The body of the loop: the period is drawn from stream 3. -/
def round (w : SyntheticWorkload) (log : ℚ → ℚ) (numTasks : ℕ) (s : Progress) : Progress :=
  let (roll, g) := (s.rngs.selectStream 3).random
  runPeriod log numTasks (chooseBelow roll w.periods w.otherwise) (s.withRngs (g.selectStream 0))

/-- `while (task_count < num_tasks)`, for at most so many rounds -/
def loop (w : SyntheticWorkload) (log : ℚ → ℚ) (numTasks : ℕ) : ℕ → Progress → Progress
  | 0, s => s
  | fuel + 1, s =>
    if s.taskCount < numTasks then w.loop log numTasks fuel (w.round log numTasks s) else s

/-- The variables when the loop begins -/
def start (g : Rngs) : Progress where
  rngs := g.selectStream 0

/-- The tasks, and the state of the random number library afterwards -/
def generate (w : SyntheticWorkload) (log : ℚ → ℚ) (numTasks : UInt32) (g : Rngs) :
    List TaskArgs × Rngs :=
  let s := w.loop log numTasks.toNat numTasks.toNat (start g)
  (s.tasks, s.rngs)

end SyntheticWorkload

/-! ## What is drawn -/

section Draws

variable {log : ℚ → ℚ} {g : Rngs}

/-- What the generators rely on in the logarithm -/
def NegativeBelowOne (log : ℚ → ℚ) : Prop := ∀ x, 0 < x → x < 1 → log x < 0

/-- The time to the next arrival is positive. -/
def Gap.Positive : Gap → Prop
  | .uniform a b => 0 < a ∧ a ≤ b
  | .exponential m => 0 < m

instance : DecidablePred Gap.Positive
  | .uniform a b => inferInstanceAs (Decidable (0 < a ∧ a ≤ b))
  | .exponential m => inferInstanceAs (Decidable (0 < m))

theorem uniform_mem {a b : ℚ} (hab : a < b) (hg : g.WellSeeded) :
    a < (uniform a b g).1 ∧ (uniform a b g).1 < b := by
  obtain ⟨hpos, hlt⟩ := hg.random_mem
  rw [uniform]
  constructor
  · have := mul_pos (sub_pos.2 hab) hpos
    linarith
  · have := mul_lt_mul_of_pos_left hlt (sub_pos.2 hab)
    linarith

theorem le_uniform {a b : ℚ} (hab : a ≤ b) (hg : g.WellSeeded) : a ≤ (uniform a b g).1 := by
  have := mul_nonneg (sub_nonneg.2 hab) hg.random_mem.1.le
  rw [uniform]
  linarith

theorem Gap.draw_pos (hlog : NegativeBelowOne log) {gap : Gap} (hgap : gap.Positive)
    (hg : g.WellSeeded) : 0 < (gap.draw log g).1 := by
  cases gap with
  | uniform a b => exact hgap.1.trans_le (le_uniform hgap.2 hg)
  | exponential m =>
    obtain ⟨hpos, hlt⟩ := hg.random_mem
    have hneg := hlog (1 - g.random.1) (by linarith) (by linarith)
    exact mul_pos_of_neg_of_neg (neg_neg_of_pos hgap) hneg

@[simp] theorem Gap.draw_snd (gap : Gap) : (gap.draw log g).2 = g.random.2 := by cases gap <;> rfl

/-- What is chosen is one of the alternatives. -/
theorem chooseBelow_mem {α : Type} (r : ℚ) (l : List (ℚ × α)) (otherwise : α) :
    chooseBelow r l otherwise ∈ otherwise :: l.map Prod.snd := by
  induction l with
  | nil => exact List.mem_singleton_self _
  | cons a l ih =>
    rw [chooseBelow]
    split
    · simp
    · simp only [List.map_cons, List.mem_cons] at ih ⊢
      rcases ih with h | h
      · exact .inl h
      · exact .inr (.inr h)

end Draws

/-- The kinds of tasks in a period -/
def Period.allKinds (period : Period) : List Kind := period.otherwise :: period.kinds.map Prod.snd

/-- A burst has at least one task, no two tasks arrive at once, and all have work to do. -/
structure Period.Valid (period : Period) : Prop where
  burst : ∀ b ∈ period.burst, 1 ≤ b.1 ∧ b.1 ≤ b.2
  gap : period.gap.Positive
  kinds : ∀ k ∈ period.allKinds, 0 < k.lo ∧ k.lo < k.hi

theorem Period.valid_iff {period : Period} : period.Valid ↔
    (∀ b ∈ period.burst, 1 ≤ b.1 ∧ b.1 ≤ b.2) ∧ period.gap.Positive ∧
      ∀ k ∈ period.allKinds, 0 < k.lo ∧ k.lo < k.hi :=
  ⟨fun h => ⟨h.burst, h.gap, h.kinds⟩, fun h => ⟨h.1, h.2.1, h.2.2⟩⟩

instance : DecidablePred Period.Valid := fun _ => decidable_of_iff' _ Period.valid_iff

theorem Period.kind_mem (period : Period) (g : Rngs) : (period.kind g).1 ∈ period.allKinds := by
  rw [kind]
  split
  · exact List.mem_cons_self
  · exact chooseBelow_mem _ _ _

theorem Period.wellSeeded_kind (period : Period) {g : Rngs} (hg : g.WellSeeded) :
    (period.kind g).2.WellSeeded := by
  rw [kind]
  split
  · exact hg
  · exact hg.advance

namespace SyntheticWorkload

/-- The periods of a workload -/
def allPeriods (w : SyntheticWorkload) : List Period := w.otherwise :: w.periods.map Prod.snd

def Valid (w : SyntheticWorkload) : Prop := ∀ period ∈ w.allPeriods, period.Valid

theorem valid_serverWorkload : serverWorkload.Valid := by
  unfold Valid
  decide +kernel

theorem valid_desktopWorkload : desktopWorkload.Valid := by
  unfold Valid
  decide +kernel

end SyntheticWorkload

namespace Workload

variable {l : List TaskArgs}

theorem getD_mem {p : ℕ} (h : p ∈ (ofList l).added) : (ofList l).args p ∈ l := by
  have hp : p < l.length := List.mem_range.1 h
  show l.getD p _ ∈ l
  rw [List.getD_eq_getElem l _ hp]
  exact List.getElem_mem hp

theorem valid_ofList (h : ∀ t ∈ l, 0 ≤ t.arrivalTime ∧ 0 < t.executionTime) : (ofList l).Valid :=
  fun _ hp => h _ (getD_mem hp)

theorem distinctIds_ofList (h : (l.map TaskArgs.id).Nodup) : (ofList l).DistinctIds := by
  intro p hp q hq hpq
  have hp' : p < l.length := List.mem_range.1 hp
  have hq' : q < l.length := List.mem_range.1 hq
  have hget : ∀ i (hi : i < l.length),
      ((ofList l).args i).id = (l.map TaskArgs.id).get ⟨i, by simpa using hi⟩ := by
    intro i hi
    show (l.getD i _).id = _
    rw [List.getD_eq_getElem l _ hi, List.get_eq_getElem, List.getElem_map]
  rw [hget p hp', hget q hq'] at hpq
  exact congrArg Fin.val (List.nodup_iff_injective_get.1 h hpq)

end Workload

namespace SyntheticWorkload

/-! ## The tasks that are generated -/

section Generate

variable {w : SyntheticWorkload} {log : ℚ → ℚ} {period : Period} {numTasks : ℕ} {s : Progress}

/-- The execution time and the nice value of a task are those of a kind of the workload. -/
def Drawn (w : SyntheticWorkload) (t : TaskArgs) : Prop :=
  ∃ period ∈ w.allPeriods, ∃ kind ∈ period.allKinds,
    kind.lo < t.executionTime ∧ t.executionTime < kind.hi ∧ t.nice = kind.nice

/-- What holds of the tasks that have been generated, at any point of the loops. -/
structure Generated (w : SyntheticWorkload) (s : Progress) : Prop where
  rngs : s.rngs.WellSeeded
  ids : s.tasks.map TaskArgs.id = (List.range s.taskCount).map UInt32.ofNat
  arrivals : s.tasks.Pairwise fun t u => t.arrivalTime < u.arrivalTime
  last : ∀ t ∈ s.tasks, 0 < t.arrivalTime ∧ t.arrivalTime ≤ s.arrivalTime
  arrivalTime : 0 ≤ s.arrivalTime
  drawn : ∀ t ∈ s.tasks, Drawn w t

theorem Generated.start {g : Rngs} (hg : g.WellSeeded) : Generated w (start g) where
  rngs := hg.selectStream 0
  ids := rfl
  arrivals := .nil
  last _ h := absurd h List.not_mem_nil
  arrivalTime := le_rfl
  drawn _ h := absurd h List.not_mem_nil

/-- One more task, later than all the others -/
theorem Generated.pushTask (h : Generated w s) (hlog : NegativeBelowOne log)
    (hperiod : period ∈ w.allPeriods) (hvalid : period.Valid) :
    Generated w (pushTask log period s) := by
  have hgap := Gap.draw_pos hlog hvalid.gap h.rngs
  have hg : (period.gap.draw log s.rngs).2.WellSeeded := by
    rw [Gap.draw_snd]
    exact h.rngs.advance
  have hkind := period.kind_mem ((period.gap.draw log s.rngs).2.selectStream 1)
  have hg' := period.wellSeeded_kind (hg.selectStream 1)
  have hexec := uniform_mem (hvalid.kinds _ hkind).2 hg'
  refine ⟨hg'.advance.selectStream 0, ?_, ?_, ?_, ?_, ?_⟩
  · show (s.tasks ++ [_]).map TaskArgs.id = (List.range (s.taskCount + 1)).map UInt32.ofNat
    rw [List.map_append, h.ids, List.range_succ, List.map_append]
    rfl
  · refine List.pairwise_append.2 ⟨h.arrivals, List.pairwise_singleton _ _, ?_⟩
    intro t ht u hu
    obtain rfl := List.mem_singleton.1 hu
    show t.arrivalTime < s.arrivalTime + (period.gap.draw log s.rngs).1
    have := (h.last t ht).2
    linarith
  · intro t ht
    show _ ∧ _ ≤ s.arrivalTime + (period.gap.draw log s.rngs).1
    rcases List.mem_append.1 ht with ht | ht
    · obtain ⟨hpos, hle⟩ := h.last t ht
      exact ⟨hpos, by linarith⟩
    · obtain rfl := List.mem_singleton.1 ht
      exact ⟨add_pos_of_nonneg_of_pos h.arrivalTime hgap, le_rfl⟩
  · exact add_nonneg h.arrivalTime hgap.le
  · intro t ht
    rcases List.mem_append.1 ht with ht | ht
    · exact h.drawn t ht
    · obtain rfl := List.mem_singleton.1 ht
      exact ⟨period, hperiod, _, hkind, hexec.1, hexec.2, rfl⟩

theorem Generated.burstLoop (h : Generated w s) (hlog : NegativeBelowOne log)
    (hperiod : period ∈ w.allPeriods) (hvalid : period.Valid) (b : ℕ) :
    Generated w (burstLoop log numTasks period b s) := by
  induction b generalizing s with
  | zero => exact h
  | succ b ih =>
    rw [SyntheticWorkload.burstLoop]
    split
    · exact ih (h.pushTask hlog hperiod hvalid)
    · exact h

theorem Generated.withRngs (h : Generated w s) {g : Rngs} (hg : g.WellSeeded) :
    Generated w (s.withRngs g) :=
  { h with rngs := hg }

theorem runPeriod_single (h : period.burst = none) :
    runPeriod log numTasks period s = pushTask log period s := by
  rw [runPeriod, h]

theorem runPeriod_burst {lo hi : ℚ} (h : period.burst = some (lo, hi)) :
    runPeriod log numTasks period s
      = burstLoop log numTasks period (truncate (uniform lo hi (s.rngs.selectStream 4)).1).toNat
          (s.withRngs ((s.rngs.selectStream 4).advance.selectStream 0)) := by
  rw [runPeriod, h]
  rfl

/-- The body of the loop, with the period it chooses -/
theorem round_eq (w : SyntheticWorkload) (log : ℚ → ℚ) (s : Progress) :
    ∃ period ∈ w.allPeriods, ∀ numTasks, w.round log numTasks s = runPeriod log numTasks period
      (s.withRngs ((s.rngs.selectStream 3).advance.selectStream 0)) :=
  ⟨_, chooseBelow_mem (s.rngs.selectStream 3).random.1 w.periods w.otherwise, fun _ => rfl⟩

theorem Generated.runPeriod (h : Generated w s) (hlog : NegativeBelowOne log)
    (hperiod : period ∈ w.allPeriods) (hvalid : period.Valid) :
    Generated w (runPeriod log numTasks period s) := by
  rcases hburst : period.burst with - | ⟨lo, hi⟩
  · rw [runPeriod_single hburst]
    exact h.pushTask hlog hperiod hvalid
  · rw [runPeriod_burst hburst]
    have hg := (h.rngs.selectStream 4).advance.selectStream 0
    exact (h.withRngs hg).burstLoop hlog hperiod hvalid _

theorem Generated.round (h : Generated w s) (hlog : NegativeBelowOne log) (hw : w.Valid) :
    Generated w (w.round log numTasks s) := by
  obtain ⟨period, hperiod, hround⟩ := round_eq w log s
  rw [hround]
  have hg := (h.rngs.selectStream 3).advance.selectStream 0
  exact (h.withRngs hg).runPeriod hlog hperiod (hw _ hperiod)

theorem Generated.loop (h : Generated w s) (hlog : NegativeBelowOne log) (hw : w.Valid)
    (fuel : ℕ) : Generated w (w.loop log numTasks fuel s) := by
  induction fuel generalizing s with
  | zero => exact h
  | succ fuel ih =>
    rw [SyntheticWorkload.loop]
    split
    · exact ih (h.round hlog hw)
    · exact h

/-! ## The number of tasks -/

theorem taskCount_burstLoop_le (hs : s.taskCount ≤ numTasks) (b : ℕ) :
    (burstLoop log numTasks period b s).taskCount ≤ numTasks := by
  induction b generalizing s with
  | zero => exact hs
  | succ b ih =>
    rw [burstLoop]
    split
    next hlt => exact ih hlt
    next => exact hs

theorem le_taskCount_burstLoop (b : ℕ) :
    s.taskCount ≤ (burstLoop log numTasks period b s).taskCount := by
  induction b generalizing s with
  | zero => exact le_rfl
  | succ b ih =>
    rw [burstLoop]
    split
    next =>
      have hpush : s.taskCount ≤ (pushTask log period s).taskCount := Nat.le_succ _
      exact hpush.trans ih
    next => exact le_rfl

/-- The size of a burst is at least one. -/
theorem exists_burstSize (hvalid : period.Valid) {lo hi : ℚ}
    (h : period.burst = some (lo, hi)) {g : Rngs} (hg : g.WellSeeded) :
    ∃ b, (truncate (uniform lo hi g).1).toNat = b + 1 := by
  obtain ⟨hone, hle⟩ := hvalid.burst (lo, hi) h
  have hsize : 1 ≤ (uniform lo hi g).1 := hone.trans (le_uniform hle hg)
  have hfloor : 1 ≤ ⌊(uniform lo hi g).1⌋ := Int.le_floor.2 (by exact_mod_cast hsize)
  refine Nat.exists_eq_succ_of_ne_zero ?_
  rw [truncate_of_nonneg (zero_le_one.trans hsize)]
  omega

/-- A period generates at least one task, and not too many. -/
theorem taskCount_runPeriod (h : s.rngs.WellSeeded) (hvalid : period.Valid)
    (hs : s.taskCount < numTasks) :
    s.taskCount < (runPeriod log numTasks period s).taskCount ∧
      (runPeriod log numTasks period s).taskCount ≤ numTasks := by
  rcases hburst : period.burst with - | ⟨lo, hi⟩
  · rw [runPeriod_single hburst]
    exact ⟨Nat.lt_succ_self _, hs⟩
  · obtain ⟨b, hb⟩ := exists_burstSize hvalid hburst (h.selectStream 4)
    rw [runPeriod_burst hburst, hb, burstLoop, if_pos (by exact hs)]
    have hpush : s.taskCount < (pushTask log period (s.withRngs
      ((s.rngs.selectStream 4).advance.selectStream 0))).taskCount := Nat.lt_succ_self _
    exact ⟨hpush.trans_le (le_taskCount_burstLoop b), taskCount_burstLoop_le hs b⟩

theorem taskCount_round (h : s.rngs.WellSeeded) (hw : w.Valid) (hs : s.taskCount < numTasks) :
    s.taskCount < (w.round log numTasks s).taskCount ∧
      (w.round log numTasks s).taskCount ≤ numTasks := by
  obtain ⟨period, hperiod, hround⟩ := round_eq w log s
  rw [hround]
  exact taskCount_runPeriod (s := s.withRngs _) ((h.selectStream 3).advance.selectStream 0)
    (hw _ hperiod) hs

/-- **The loop ends** after at most as many rounds as there are tasks to generate. -/
theorem taskCount_loop (h : Generated w s) (hlog : NegativeBelowOne log) (hw : w.Valid)
    (hs : s.taskCount ≤ numTasks) {fuel : ℕ} (hfuel : numTasks ≤ s.taskCount + fuel) :
    (w.loop log numTasks fuel s).taskCount = numTasks := by
  induction fuel generalizing s with
  | zero => exact le_antisymm hs hfuel
  | succ fuel ih =>
    rw [loop]
    split
    next hlt =>
      obtain ⟨hmore, hle⟩ := taskCount_round h.rngs hw hlt
      exact ih (h.round hlog hw) hle (by omega)
    next hge => exact le_antisymm hs (not_lt.1 hge)

/-- Once there are enough tasks, nothing is added. -/
theorem loop_of_le (hs : numTasks ≤ s.taskCount) (fuel : ℕ) :
    w.loop log numTasks fuel s = s := by
  cases fuel with
  | zero => rfl
  | succ fuel => rw [loop, if_neg (not_lt.2 hs)]

/-! ## Smaller workloads -/

theorem tasks_burstLoop (b : ℕ) : s.tasks <+: (burstLoop log numTasks period b s).tasks := by
  induction b generalizing s with
  | zero => exact List.prefix_rfl
  | succ b ih =>
    rw [burstLoop]
    split
    next =>
      have hpush : s.tasks <+: (pushTask log period s).tasks := List.prefix_append _ _
      exact hpush.trans ih
    next => exact List.prefix_rfl

theorem tasks_runPeriod : s.tasks <+: (runPeriod log numTasks period s).tasks := by
  rcases hburst : period.burst with - | ⟨lo, hi⟩
  · rw [runPeriod_single hburst]
    exact List.prefix_append _ _
  · rw [runPeriod_burst hburst]
    exact tasks_burstLoop (s := s.withRngs ((s.rngs.selectStream 4).advance.selectStream 0)) _

theorem tasks_round : s.tasks <+: (w.round log numTasks s).tasks := by
  obtain ⟨period, -, hround⟩ := round_eq w log s
  rw [hround]
  exact tasks_runPeriod (s := s.withRngs ((s.rngs.selectStream 3).advance.selectStream 0))

theorem tasks_loop (fuel : ℕ) : s.tasks <+: (w.loop log numTasks fuel s).tasks := by
  induction fuel generalizing s with
  | zero => exact List.prefix_rfl
  | succ fuel ih =>
    rw [loop]
    split
    · exact tasks_round.trans ih
    · exact List.prefix_rfl

/-- A part of the generator with a smaller bound does the same as with a larger one, or it stops
early, where the bound is reached. -/
def StopsEarly (m : ℕ) (small large : Progress) : Prop :=
  small = large ∨ m ≤ small.taskCount ∧ small.tasks <+: large.tasks

theorem stopsEarly_burstLoop {m n : ℕ} (hmn : m ≤ n) (b : ℕ) :
    StopsEarly m (burstLoop log m period b s) (burstLoop log n period b s) := by
  induction b generalizing s with
  | zero => exact .inl rfl
  | succ b ih =>
    by_cases hm : s.taskCount < m
    · rw [burstLoop, burstLoop, if_pos hm, if_pos (hm.trans_le hmn)]
      exact ih
    · rw [burstLoop, if_neg hm]
      exact .inr ⟨not_lt.1 hm, tasks_burstLoop (b + 1)⟩

theorem stopsEarly_round (w : SyntheticWorkload) (log : ℚ → ℚ) (s : Progress) {m n : ℕ}
    (hmn : m ≤ n) :
    StopsEarly m (w.round log m s) (w.round log n s) := by
  obtain ⟨period, -, hround⟩ := round_eq w log s
  rw [hround, hround]
  rcases hburst : period.burst with - | ⟨lo, hi⟩
  · rw [runPeriod_single hburst, runPeriod_single hburst]
    exact .inl rfl
  · rw [runPeriod_burst hburst, runPeriod_burst hburst]
    exact stopsEarly_burstLoop hmn _

theorem tasks_loop_le {m n : ℕ} (hmn : m ≤ n) {fuel fuel' : ℕ} (hfuel : fuel ≤ fuel') :
    (w.loop log m fuel s).tasks <+: (w.loop log n fuel' s).tasks := by
  induction fuel generalizing s fuel' with
  | zero => exact tasks_loop fuel'
  | succ fuel ih =>
    obtain ⟨fuel', rfl⟩ := Nat.exists_eq_succ_of_ne_zero (Nat.ne_of_gt (Nat.zero_lt_of_lt hfuel))
    by_cases hm : s.taskCount < m
    · rw [loop, loop, if_pos hm, if_pos (hm.trans_le hmn)]
      rcases stopsEarly_round w log s hmn with heq | ⟨hdone, hprefix⟩
      · rw [heq]
        exact ih (Nat.le_of_succ_le_succ hfuel)
      · rw [loop_of_le hdone]
        exact hprefix.trans (tasks_loop fuel')
    · rw [loop, if_neg hm]
      exact tasks_loop (fuel' + 1)

end Generate

/-! ## The workloads -/

theorem executionTime_pos {w : SyntheticWorkload} (hw : w.Valid) {t : TaskArgs} (h : Drawn w t) :
    0 < t.executionTime := by
  obtain ⟨period, hperiod, kind, hkind, hlo, -, -⟩ := h
  exact ((hw period hperiod).kinds kind hkind).1.trans hlo

theorem nodup_ids {n : ℕ} (hn : n ≤ 2 ^ 32) : ((List.range n).map UInt32.ofNat).Nodup := by
  refine List.Nodup.map_on ?_ List.nodup_range
  intro i hi j hj hij
  rw [List.mem_range] at hi hj
  have hword : ∀ k < n, (UInt32.ofNat k).toNat = k := fun k hk =>
    UInt32.toNat_ofNat_of_lt' (hk.trans_le hn)
  rw [← hword i hi, ← hword j hj, hij]

/-- The loop ends because the tasks that were asked for are there. -/
theorem generated_loop {w : SyntheticWorkload} (hw : w = serverWorkload ∨ w = desktopWorkload)
    {log : ℚ → ℚ} (hlog : NegativeBelowOne log) {g : Rngs}
    (hg : Lts.Reachable Rngs.step Rngs.initial g) (numTasks : ℕ) :
    w.Valid ∧ Generated w (w.loop log numTasks numTasks (start g)) ∧
      (w.loop log numTasks numTasks (start g)).tasks.map TaskArgs.id
        = (List.range numTasks).map UInt32.ofNat := by
  have hvalid : w.Valid := by
    rcases hw with rfl | rfl
    · exact valid_serverWorkload
    · exact valid_desktopWorkload
  have hstart := Generated.start (w := w) (Rngs.wellSeeded_of_reachable hg)
  have hloop : Generated w (w.loop log numTasks numTasks (start g)) :=
    hstart.loop hlog hvalid numTasks
  have hcount := taskCount_loop hstart hlog hvalid (Nat.zero_le numTasks) (Nat.le_add_left _ _)
  have hids := hloop.ids
  rw [hcount] at hids
  exact ⟨hvalid, hloop, hids⟩

/-- **The generated tasks.** In every state of the random number library that a run can lead to,
both workloads have exactly as many tasks as are asked for, with the ids `0, 1, …`; they arrive one
after the other, never at once, after the simulation starts; and every execution time lies strictly
between the bounds of a kind of the workload, with the nice value of this kind.  So the tasks are
valid for the simulators and have different ids, and the library stays usable. -/
theorem generate_spec {w : SyntheticWorkload} (hw : w = serverWorkload ∨ w = desktopWorkload)
    {log : ℚ → ℚ} (hlog : NegativeBelowOne log) {g : Rngs}
    (hg : Lts.Reachable Rngs.step Rngs.initial g) (numTasks : UInt32) :
    (w.generate log numTasks g).1.map TaskArgs.id
        = (List.range numTasks.toNat).map UInt32.ofNat ∧
      (w.generate log numTasks g).1.Pairwise (fun t u => t.arrivalTime < u.arrivalTime) ∧
      (∀ t ∈ (w.generate log numTasks g).1, 0 < t.arrivalTime ∧ Drawn w t) ∧
      (Workload.ofList (w.generate log numTasks g).1).Valid ∧
      (Workload.ofList (w.generate log numTasks g).1).DistinctIds ∧
      (w.generate log numTasks g).2.WellSeeded := by
  obtain ⟨hvalid, hloop, hids⟩ := generated_loop hw hlog hg numTasks.toNat
  refine ⟨hids, hloop.arrivals, fun t ht => ⟨(hloop.last t ht).1, hloop.drawn t ht⟩, ?_, ?_,
    hloop.rngs⟩
  · apply Workload.valid_ofList
    intro t ht
    exact ⟨(hloop.last t ht).1.le, executionTime_pos hvalid (hloop.drawn t ht)⟩
  · apply Workload.distinctIds_ofList
    show ((w.loop log numTasks.toNat numTasks.toNat (start g)).tasks.map TaskArgs.id).Nodup
    rw [hids]
    exact nodup_ids numTasks.toNat_lt.le

/-- A hundred tasks of a server: their ids, their order and that a simulator can take them. -/
theorem generate_spec_server :
    let tasks := (serverWorkload.generate (fun x => x - 1) 100 Rngs.initial).1
    tasks.map TaskArgs.id = (List.range 100).map UInt32.ofNat ∧
      tasks.Pairwise (fun t u => t.arrivalTime < u.arrivalTime) ∧
      (Workload.ofList tasks).Valid ∧ (Workload.ofList tasks).DistinctIds := by
  obtain ⟨hids, harrivals, -, hvalid, hdistinct, -⟩ :=
    generate_spec (.inl rfl) (fun _ _ hx => sub_neg.2 hx) .refl 100
  exact ⟨hids, harrivals, hvalid, hdistinct⟩

/-- **A smaller workload is the beginning of a larger one**: from the same state of the random
number library, asking for fewer tasks gives the first of those that asking for more would have
given, though the smaller number may be reached in the middle of a burst. -/
theorem generate_take {w : SyntheticWorkload} (hw : w = serverWorkload ∨ w = desktopWorkload)
    {log : ℚ → ℚ} (hlog : NegativeBelowOne log) {g : Rngs}
    (hg : Lts.Reachable Rngs.step Rngs.initial g) {m n : UInt32} (hmn : m ≤ n) :
    (w.generate log m g).1 = (w.generate log n g).1.take m.toNat := by
  have hlength : (w.generate log m g).1.length = m.toNat := by
    obtain ⟨-, -, hids⟩ := generated_loop hw hlog hg m.toNat
    simpa [generate] using congrArg List.length hids
  have hprefix : (w.generate log m g).1 <+: (w.generate log n g).1 :=
    tasks_loop_le (UInt32.le_iff_toNat_le.1 hmn) (UInt32.le_iff_toNat_le.1 hmn)
  rw [← hlength]
  exact List.prefix_iff_eq_take.1 hprefix

/-- Three tasks out of a hundred -/
theorem generate_take_three :
    (desktopWorkload.generate (fun x => x - 1) 3 Rngs.initial).1
      = (desktopWorkload.generate (fun x => x - 1) 100 Rngs.initial).1.take 3 :=
  generate_take (.inr rfl) (fun _ _ hx => sub_neg.2 hx) .refl (by decide)

end SyntheticWorkload

end SchedSim
