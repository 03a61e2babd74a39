import SchedSim.PassThrough

/-!
# The seeds of a plan

The planner gives every case a seed of its own, a thousand apart, and `main` adds a thousand for
every replication.  The two offsets are the same, so the seed of a replication is that of the next
case.

* `CommandLine.plantedSeeds` — the seeds `main` plants, with the replications they are for.
* `RunSuite.ownSeeds_iff` — every case and replication has its own seed exactly when executed
  cases are as many apart as there are replications.
-/

namespace SchedSim

namespace CommandLine

/-! ## The replication loop -/

/-- The schedulers `main` knows -/
def schedulerNames : List String := ["CFS", "EEVDF", "MLFQ", "Stride"]

/-- The workloads `main` knows, by their keys -/
def workloadKeys : List String := ["server", "desktop", "google", "alibaba"]

/-- All names, or the first one with the key that is asked for -/
def select (keyOf : String → String) (names : List String) (wanted : String) : List String :=
  if wanted = "all" then names else (names.find? fun name => keyOf name = wanted).toList

def selectedSchedulers (config : Config) : List String :=
  select CStrings.toLower schedulerNames config.schedulerFilter

def selectedWorkloads (config : Config) : List String :=
  select id workloadKeys config.workloadFilter

/-- `config.seed_base + (rep * 1000)` -/
def seedOf (config : Config) (rep : ℕ) : ℤ := config.seedBase + rep * 1000

/-- The replications and the seeds the loops of `main` plant for them; nothing if the program ends
before, on a configuration it rejects or a selector it does not know. -/
def plantedSeeds (config : Config) : List (ℕ × ℤ) :=
  match validateConfig config with
  | .error _ => []
  | .ok () =>
    (List.range config.numReplications.toNat).flatMap fun rep =>
      (selectedWorkloads config).flatMap fun _ =>
        (selectedSchedulers config).map fun _ => (rep, seedOf config rep)

/-- The program gets to the replication loop and finds something to run. -/
structure Executes (config : Config) : Prop where
  accepted : Accepted config
  workloads : selectedWorkloads config ≠ []
  schedulers : selectedSchedulers config ≠ []

theorem mem_plantedSeeds {config : Config} {rep : ℕ} {seed : ℤ} :
    (rep, seed) ∈ plantedSeeds config ↔
      Executes config ∧ (rep : ℤ) < config.numReplications ∧ seed = seedOf config rep := by
  rw [plantedSeeds]
  split
  next e he =>
    refine ⟨fun h => absurd h List.not_mem_nil, fun h => ?_⟩
    rw [validateConfig_eq_ok.2 h.1.accepted] at he
    cases he
  next hok =>
    simp only [List.mem_flatMap, List.mem_map, List.mem_range, Prod.mk.injEq, exists_and_right]
    constructor
    · rintro ⟨rep', hrep, ⟨w, hw⟩, ⟨s, hs⟩, rfl, rfl⟩
      exact ⟨⟨validateConfig_eq_ok.1 hok, List.ne_nil_of_mem hw, List.ne_nil_of_mem hs⟩,
        by omega, rfl⟩
    · rintro ⟨hexec, hrep, rfl⟩
      obtain ⟨w, hw⟩ := List.exists_mem_of_ne_nil _ hexec.workloads
      obtain ⟨s, hs⟩ := List.exists_mem_of_ne_nil _ hexec.schedulers
      exact ⟨rep, by omega, ⟨w, hw⟩, ⟨s, hs⟩, rfl, rfl⟩

end CommandLine

namespace RunSuite

open Py CommandLine

variable {py : Builtins} {registry : BenchmarkPluginRegistry} {args : PlanArgs}

/-! ## The seeds of a case -/

/-- The seeds planted while a case is executed: those of the configuration the simulator reads off
its command line -/
def caseSeeds (binPath : String) (suite : Json) (case : Entry) : List (ℕ × ℤ) :=
  match buildCommand binPath suite case with
  | none => []
  | some argv =>
    match parseArgs argv with
    | .error _ => []
    | .ok config => plantedSeeds config

/-- Every case and replication has its own seed. -/
def OwnSeeds (binPath : String) (suite : Json) (plan : List Entry) : Prop :=
  ∀ e ∈ plan, ∀ e' ∈ plan, ∀ rep rep' seed, (rep, seed) ∈ caseSeeds binPath suite e →
    (rep', seed) ∈ caseSeeds binPath suite e' → e.caseIndex = e'.caseIndex ∧ rep = rep'

/-- The case is executed: its command line can be built, and the simulator accepts it. -/
def Executed (binPath : String) (suite : Json) (case : Entry) : Prop :=
  caseSeeds binPath suite case ≠ []

/-- The seeds fit into a `long` and the offsets of the replications into an `int`. -/
structure SeedsFit (args : PlanArgs) (plan : List Entry) : Prop where
  offset : (args.replications - 1) * 1000 < 2 ^ 31
  seed : args.seedBase + plan.length * 1000 + (args.replications - 1) * 1000 < 2 ^ 63

/-- A case with the seed and the number of replications the planner gives it -/
structure Seeded (args : PlanArgs) (e : Entry) : Prop where
  seed : e.seed = args.seedBase + e.caseIndex * 1000
  replications : e.replications = args.replications

theorem seeded_newEntry {caseIndex : ℕ} {planned : PlannedRun} {key : RunKey}
    {workload scheduler : Plugin} {e : Entry}
    (h : newEntry py args caseIndex planned key workload scheduler = .ok e) : Seeded args e := by
  simp only [newEntry, bind_eq_ok, pure_eq_ok] at h
  obtain ⟨stop, -, suiteId, -, rfl⟩ := h
  exact ⟨rfl, rfl⟩

theorem seeded_addExperiment {c : ℕ} {expId : Json} {e : Entry} (h : Seeded args e) :
    Seeded args (addExperiment c expId e) := by
  unfold addExperiment
  split
  · exact ⟨h.seed, h.replications⟩
  · exact h

/-- The cases of a plan are numbered from one, and seeded by their numbers. -/
theorem seeded_of_buildRunPlan {selected : List Json} {plan : List Entry}
    (h : buildRunPlan py registry args selected = .ok plan) :
    plan.map Entry.caseIndex = List.range' 1 plan.length ∧ ∀ e ∈ plan, Seeded args e := by
  obtain ⟨runs, s, -, hfold, rfl⟩ := buildRunPlan_eq_ok h
  have hindices := (describes_of_foldlM hfold).indices
  have hlength : s.plan.length = s.caseIndex := by
    have := congrArg List.length hindices
    rwa [List.length_map, List.length_range'] at this
  rw [hlength]
  exact ⟨hindices, forall_of_foldlM seeded_newEntry seeded_addExperiment hfold (by simp)⟩

/-- What the simulator reads of the seed and of the replications. -/
theorem parseArgs_seed {binPath : String} {suite : Json} {case : Entry} {argv : List String}
    (h : buildCommand binPath suite case = some argv) :
    ∃ config, parseArgs argv = .ok config ∧
      config.seedBase = CStrings.atol (toString case.seed) ∧
      config.numReplications = CStrings.atoi (toString case.replications) := by
  have hcommand := h
  unfold buildCommand at h
  split at h
  next benchmarkVersion hversion =>
    split at h
    next suiteId hsuite =>
      split at h
      next topology htop =>
        split at h
        next stop hstop =>
          have hbal : ∃ balancer, topology = "mq" → case.balancer = .str balancer := by
            by_cases hmq : topology = "mq"
            · rw [if_pos hmq] at h
              split at h
              next balancer hbalancer => exact ⟨balancer, fun _ => hbalancer⟩
              next => cases h
            · exact ⟨"", fun h => absurd h hmq⟩
          obtain ⟨balancer, hbal⟩ := hbal
          obtain ⟨argv', hargv', hparse⟩ :=
            parseArgs_buildCommand binPath hversion hsuite htop hstop hbal
          obtain rfl : argv = argv' := Option.some.inj (hcommand.symm.trans hargv')
          exact ⟨_, hparse, rfl, rfl⟩
        next => cases h
      next => cases h
    next => cases h
  next => cases h

/-- The seeds of an executed case: one for each replication, a thousand apart. -/
theorem mem_caseSeeds {binPath : String} {suite : Json} {plan : List Entry} {e : Entry}
    (hbase : 1 ≤ args.seedBase) (hreps : 1 ≤ args.replications) (hfits : SeedsFit args plan)
    (he : Seeded args e) (hindex : e.caseIndex ≤ plan.length) {rep : ℕ} {seed : ℤ} :
    (rep, seed) ∈ caseSeeds binPath suite e ↔ Executed binPath suite e ∧
      (rep : ℤ) < args.replications ∧ seed = args.seedBase + (e.caseIndex + rep) * 1000 := by
  obtain ⟨hoffset, hseed⟩ := hfits
  rw [Executed, caseSeeds]
  cases hcommand : buildCommand binPath suite e with
  | none => simp
  | some argv =>
    obtain ⟨config, hparse, hconfig, hnum⟩ := parseArgs_seed hcommand
    simp only [hparse]
    have hatol : config.seedBase = args.seedBase + e.caseIndex * 1000 := by
      rw [hconfig, he.seed]
      obtain ⟨k, hk⟩ := Int.eq_ofNat_of_zero_le
        (show (0 : ℤ) ≤ args.seedBase + e.caseIndex * 1000 by omega)
      rw [hk, CStrings.atol, CStrings.strtol_toString, min_eq_left (by omega)]
    have hatoi : config.numReplications = args.replications := by
      rw [hnum, he.replications]
      exact (CStrings.atoi_toString (by omega)).2 (by omega)
    rw [mem_plantedSeeds, seedOf, hatol, hatoi]
    have hexec : plantedSeeds config ≠ [] ↔ Executes config := by
      constructor
      · intro hne
        obtain ⟨⟨rep, seed⟩, hmem⟩ := List.exists_mem_of_ne_nil _ hne
        exact (mem_plantedSeeds.1 hmem).1
      · intro hexec
        refine List.ne_nil_of_mem (a := (0, seedOf config 0)) (mem_plantedSeeds.2 ⟨hexec, ?_, rfl⟩)
        rw [hatoi]
        exact hreps
    rw [hexec]
    refine and_congr_right fun _ => and_congr_right fun _ => ?_
    rw [add_mul, add_assoc]

/-- **Every case and replication of a plan has its own seed exactly when** any two executed cases
are at least as many cases apart as there are replications; when all cases are executed, this
means that there is one case or one replication. -/
theorem ownSeeds_iff (py : Builtins) (registry : BenchmarkPluginRegistry) (args : PlanArgs)
    (binPath : String) (selected : List Json) (plan : List Entry) (hbase : 1 ≤ args.seedBase)
    (hreps : 1 ≤ args.replications) (hplan : buildRunPlan py registry args selected = .ok plan)
    (hfits : SeedsFit args plan) :
    (OwnSeeds binPath args.suite plan ↔
      ∀ e ∈ plan, ∀ e' ∈ plan, Executed binPath args.suite e → Executed binPath args.suite e' →
        e.caseIndex < e'.caseIndex → args.replications ≤ e'.caseIndex - e.caseIndex) ∧
    ((∀ e ∈ plan, Executed binPath args.suite e) →
      (OwnSeeds binPath args.suite plan ↔ plan.length ≤ 1 ∨ args.replications = 1)) := by
  obtain ⟨hindices, hseeded⟩ := seeded_of_buildRunPlan hplan
  have hbound : ∀ e ∈ plan, 1 ≤ e.caseIndex ∧ e.caseIndex ≤ plan.length := by
    intro e he
    have hmem := List.mem_map_of_mem (f := Entry.caseIndex) he
    rw [hindices, List.mem_range'_1] at hmem
    omega
  have hmem : ∀ e ∈ plan, ∀ rep seed, (rep, seed) ∈ caseSeeds binPath args.suite e ↔
      Executed binPath args.suite e ∧ (rep : ℤ) < args.replications ∧
        seed = args.seedBase + (e.caseIndex + rep) * 1000 := fun e he _ _ =>
    mem_caseSeeds hbase hreps hfits (hseeded e he) (hbound e he).2
  have hiff : OwnSeeds binPath args.suite plan ↔
      ∀ e ∈ plan, ∀ e' ∈ plan, Executed binPath args.suite e → Executed binPath args.suite e' →
        e.caseIndex < e'.caseIndex → args.replications ≤ e'.caseIndex - e.caseIndex := by
    constructor
    · intro hown e he e' he' hexec hexec' hlt
      by_contra hfew
      -- the replication that makes up for the distance
      have hsame := hown e he e' he' (e'.caseIndex - e.caseIndex) 0 _
        ((hmem e he _ _).2 ⟨hexec, by omega, rfl⟩)
        ((hmem e' he' _ _).2 ⟨hexec', by omega, by push_cast [Nat.cast_sub hlt.le]; ring⟩)
      omega
    · intro happart e he e' he' rep rep' seed hs hs'
      obtain ⟨hexec, hrep, rfl⟩ := (hmem e he _ _).1 hs
      obtain ⟨hexec', hrep', hseed⟩ := (hmem e' he' _ _).1 hs'
      rcases lt_trichotomy e.caseIndex e'.caseIndex with hlt | heq | hlt
      · have := happart e he e' he' hexec hexec' hlt
        omega
      · omega
      · have := happart e' he' e he hexec' hexec hlt
        omega
  refine ⟨hiff, fun hall => hiff.trans ⟨fun happart => ?_, fun hone e he e' he' _ _ hlt => ?_⟩⟩
  · by_contra hmany
    rw [not_or, not_le] at hmany
    have hcase : ∀ k, 1 ≤ k → k ≤ plan.length → ∃ e ∈ plan, e.caseIndex = k := by
      intro k hk hk'
      have hin : k ∈ plan.map Entry.caseIndex := by
        rw [hindices, List.mem_range'_1]
        omega
      exact List.mem_map.1 hin
    obtain ⟨e, he, hindex⟩ := hcase 1 le_rfl (by omega)
    obtain ⟨e', he', hindex'⟩ := hcase 2 (by norm_num) (by omega)
    have := happart e he e' he' (hall e he) (hall e' he') (by omega)
    omega
  · have := hbound e he
    have := hbound e' he'
    rcases hone with hone | hone
    · omega
    · omega

/-- Two runs, of 5 and of 7 time units -/
def sampleRuns : List Json :=
  [sampleRun (.int 5) [("topology", .str "sq")], sampleRun (.int 7) [("topology", .str "sq")]]

/-- Two cases and one replication -/
theorem ownSeeds_two :
    ∃ plan, buildRunPlan sampleBuiltins sampleRegistry (sampleArgs sampleRuns)
        [sampleExperiment sampleRuns] = .ok plan ∧
      OwnSeeds "scheduler_sim" (sampleSuite sampleRuns) plan := by
  obtain ⟨plan, hplan, hlength⟩ : ∃ plan, buildRunPlan sampleBuiltins sampleRegistry
      (sampleArgs sampleRuns) [sampleExperiment sampleRuns] = .ok plan ∧
      decide (plan.length = 2) = true := exists_ok_of_any _ (by decide +kernel)
  have hfits : SeedsFit (sampleArgs sampleRuns) plan := by
    rw [decide_eq_true_iff] at hlength
    exact ⟨by decide +kernel, by rw [hlength]; decide +kernel⟩
  exact ⟨plan, hplan, (ownSeeds_iff _ _ (sampleArgs sampleRuns) "scheduler_sim" _ plan
    (by decide) (by decide) hplan hfits).1.2 fun e he e' he' _ _ hlt => by
      show (1 : ℤ) ≤ _
      omega⟩

/-- **Two cases and two replications** have a seed in common: the one of the second replication
of the first case is the one of the first replication of the second. -/
theorem ownSeeds_collide :
    let args := { sampleArgs sampleRuns with replications := 2 }
    validateSuite sampleBuiltins sampleRegistry args.suite = .ok () ∧
      ∃ plan, buildRunPlan sampleBuiltins sampleRegistry args [sampleExperiment sampleRuns]
        = .ok plan ∧ ¬ OwnSeeds "scheduler_sim" args.suite plan := by
  intro args
  refine ⟨by decide +kernel, ?_⟩
  obtain ⟨plan, hplan, hcollide⟩ : ∃ plan, buildRunPlan sampleBuiltins sampleRegistry args
      [sampleExperiment sampleRuns] = .ok plan ∧
      decide (∃ e ∈ plan, ∃ e' ∈ plan, e.caseIndex ≠ e'.caseIndex ∧
        ((1, 2001) : ℕ × ℤ) ∈ caseSeeds "scheduler_sim" args.suite e ∧
        ((0, 2001) : ℕ × ℤ) ∈ caseSeeds "scheduler_sim" args.suite e') = true :=
    exists_ok_of_any _ (by decide +kernel)
  rw [decide_eq_true_iff] at hcollide
  obtain ⟨e, he, e', he', hne, hseed, hseed'⟩ := hcollide
  exact ⟨plan, hplan, fun hown => hne (hown e he e' he' 1 0 2001 hseed hseed').1⟩

end RunSuite

end SchedSim
