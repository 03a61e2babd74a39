import SchedSim.Registration

/-!
# The two validators of a suite

`scripts/validate_benchmark_spec.py`, with which contributors check a suite, beside
`validate_suite` of `benchmark/runner/run_suite.py`, with which the runner checks it.

* `runSuite_validateSuite_eq_ok`, `validateDocument_eq_ok` — what each of them accepts: the
  checks they share, and each some of its own.
* `ScriptRefuses`, `RunnerRefuses` — the features of a document that only one of them refuses.
* `sameSuites_iff` — they agree on a document exactly when a shared check fails, or it has no such
  feature, or some of either kind; in particular on a conventional suite.
* `sameSuites_capital` — and a suite on which they do not.
-/

namespace SchedSim

namespace ValidateBenchmarkSpec

open Py RunSuite

section

variable (py : Builtins) (registry : BenchmarkPluginRegistry)

/-! ## The script -/

/-- `isinstance(v, str) and v.strip()` -/
def isName : Json → Bool
  | .str s => strip s ≠ ""
  | _ => false

/-- `isinstance(v, bool)` -/
def isBool : Json → Bool
  | .bool _ => true
  | _ => false

/-- `isinstance(v, list) and v` -/
def isFilledList (v : Json) : Bool :=
  v.isList && v.truthy

def validateTopLevel (doc : Json) : Py Unit := do
  forM requiredKeys fun key => do
    let present ← doc.contains key
    failIf (present = false) s!"missing required top-level key: {key}"
  let version ← doc.item "schema_version"
  failIf (version.isStr "suite.v1" = false)
    s!"unsupported schema_version: {py.str version} (expected suite.v1)"
  let benchmarkVersion ← doc.item "benchmark_version"
  failIf (isName benchmarkVersion = false) "benchmark_version must be a non-empty string"
  let suiteId ← doc.item "suite_id"
  failIf (isName suiteId = false) "suite_id must be a non-empty string"
  let experiments ← doc.item "experiments"
  failIf (isFilledList experiments = false) "experiments must be a non-empty list"

/-- `sorted(VALID_TOPOLOGIES)`, printed -/
def knownTopologies : String :=
  py.str (.list ((validTopologies.insertionSort (· ≤ ·)).map .str))

def validateDefaults (defaults : Json) : Py Unit := do
  forM requiredDefaults fun key => do
    let present ← defaults.contains key
    failIf (present = false) s!"defaults.{key} is required"
  let scheduler ← defaults.item "scheduler"
  failIf (registry.resolveScheduler py scheduler = none)
    (s!"defaults.scheduler must be registered plugin key or alias. " ++
      s!"Got '{py.str scheduler}'. Known scheduler keys: {knownSchedulers py registry}")
  let replications ← py.int (← defaults.item "replications")
  failIf (replications < 1) "defaults.replications must be >= 1"
  let topology ← defaults.item "topology"
  let valid ← inNames topology validTopologies
  failIf (valid = false) s!"defaults.topology must be one of {knownTopologies py}"
  let seedBase ← py.int (← defaults.item "seed_base")
  failIf (seedBase < 1) "defaults.seed_base must be >= 1"

def requiredRunKeys : List String :=
  ["workload", "cores", "num_tasks", "stop_time", "topology"]

/-- The checks made of multi-queue runs only -/
def validateMultiQueue (place : String) (run : Json) : Py Unit := do
  let present ← run.contains "balancer"
  failIf (present = false) s!"{place} mq run requires balancer"
  let balancer ← run.item "balancer"
  let valid ← inNames balancer validBalancers
  failIf (valid = false) s!"{place}.balancer invalid: {py.str balancer}"
  let stealing ← run.contains "work_stealing"
  (if stealing = true then do
    let workStealing ← run.item "work_stealing"
    failIf (isBool workStealing = false) s!"{place}.work_stealing must be boolean"
  else pure ())

/-- `validate_run`; `place` is the path of the run in the document. -/
def validateRun (place : String) (run : Json) : Py Unit := do
  forM requiredRunKeys fun key => do
    let present ← run.contains key
    failIf (present = false) s!"{place} missing required key: {key}"
  let workload ← run.item "workload"
  failIf (registry.resolveWorkload py workload = none)
    (s!"{place}.workload invalid: '{py.str workload}'. " ++
      s!"Known workload keys: {knownWorkloads py registry}")
  let cores ← py.int (← run.item "cores")
  failIf (cores < 1) s!"{place}.cores must be >= 1"
  let numTasks ← py.int (← run.item "num_tasks")
  failIf (numTasks < 1) s!"{place}.num_tasks must be >= 1"
  let stopTime ← py.float (← run.item "stop_time")
  failIf (stopTime.nonpos = true) s!"{place}.stop_time must be > 0"
  let topology ← run.item "topology"
  let valid ← inNames topology validTopologies
  failIf (valid = false) s!"{place}.topology invalid: {py.str topology}"
  (if topology.isStr "mq" then validateMultiQueue py place run else pure ())
  let own ← run.contains "scheduler"
  (if own = true then do
    let scheduler ← run.item "scheduler"
    failIf (registry.resolveScheduler py scheduler = none)
      (s!"{place}.scheduler invalid: '{py.str scheduler}'. " ++
        s!"Known scheduler keys: {knownSchedulers py registry}")
  else pure ())

def requiredExperimentKeys : List String := ["id", "title", "objective", "runs"]

/-- One iteration of the first loop of `validate_experiments`; `seen` are the ids before it. -/
def validateExperiment (seen : List Json.Key) (exp : Json) : Py (List Json.Key) := do
  forM requiredExperimentKeys fun key => do
    let present ← exp.contains key
    failIf (present = false) s!"experiment missing required key: {key}"
  let expId ← exp.item "id"
  let key ← hashed expId
  failIf (key ∈ seen) s!"duplicate experiment id: {py.str expId}"
  let runs ← exp.item "runs"
  failIf (runs.isList = false) s!"{py.str expId}.runs must be a list"
  forM (← runs.iterate).zipIdx fun (run, idx) =>
    validateRun py registry s!"{py.str expId}.runs[{idx}]" run
  return key :: seen

/-- One iteration of the second loop -/
def validateParent (seen : List Json.Key) (exp : Json) : Py Unit := do
  let parent ← exp.get "reuse_from_experiment" .null
  (if parent.truthy then do
    let key ← hashed parent
    (if key ∈ seen then pure () else do
      let expId ← exp.item "id"
      .error (.valueError
        s!"{py.str expId}.reuse_from_experiment references unknown experiment: {py.str parent}"))
  else pure ())

def validateExperiments (experiments : Json) : Py Unit := do
  let experiments ← experiments.iterate
  let seen ← experiments.foldlM (validateExperiment py registry) []
  forM experiments (validateParent py seen)

/-- What `main` does with a loaded document before it reports that it is valid. -/
def validateDocument (doc : Json) : Py Unit := do
  validateTopLevel py doc
  validateDefaults py registry (← doc.item "defaults")
  validateExperiments py registry (← doc.item "experiments")

end

/-! ## What is checked -/

/-- What both validators ask of `defaults`. -/
structure DefaultsChecks (py : Builtins) (registry : BenchmarkPluginRegistry) (defaults : Json) :
    Prop where
  keys : ∀ key ∈ requiredDefaults, defaults.contains key = .ok true
  replications : ∃ v n, defaults.item "replications" = .ok v ∧ py.int v = .ok n ∧ 1 ≤ n
  seedBase : ∃ v n, defaults.item "seed_base" = .ok v ∧ py.int v = .ok n ∧ 1 ≤ n
  topology : ∃ v, defaults.item "topology" = .ok v ∧ inNames v validTopologies = .ok true
  scheduler : ∃ v, defaults.item "scheduler" = .ok v ∧ registry.resolveScheduler py v ≠ none

/-- What both validators ask of an explicit run: its fields, and names that resolve. -/
structure RunChecks (py : Builtins) (registry : BenchmarkPluginRegistry) (run : Json) : Prop
    extends ValidRun py run where
  workload : ∃ v, run.item "workload" = .ok v ∧ registry.resolveWorkload py v ≠ none
  scheduler : ∀ v, run.item "scheduler" = .ok v → registry.resolveScheduler py v ≠ none

/-- What both validators ask of an experiment; that it has no runs field at all passes the
runner's check only, as an empty list. -/
structure ExperimentChecks (py : Builtins) (registry : BenchmarkPluginRegistry) (exp : Json) :
    Prop where
  isDict : ∃ fields, exp = .dict fields
  runs : ∃ runs, exp.get "runs" (.list []) = .ok (.list runs) ∧
    ∀ run ∈ runs, RunChecks py registry run

/-- The checks that the two validators share. -/
structure SuiteChecks (py : Builtins) (registry : BenchmarkPluginRegistry) (doc : Json)
    (experiments : List Json) : Prop where
  keys : ∀ key ∈ requiredKeys, doc.contains key = .ok true
  version : doc.item "schema_version" = .ok (.str "suite.v1")
  defaults : ∃ v, doc.item "defaults" = .ok v ∧ DefaultsChecks py registry v
  listed : doc.item "experiments" = .ok (.list experiments)
  each : ∀ exp ∈ experiments, ExperimentChecks py registry exp

/-- What the runner asks beyond that: that every experiment has an id that does not print as
blank, and that a parent is a string and one of the printed ids, stripped. -/
structure RunnerChecks (py : Builtins) (experiments : List Json) (ids : List String) : Prop where
  named : List.Forall₂ (fun exp id => experimentId py exp = .ok id) experiments ids
  filled : ∀ id ∈ ids, id ≠ ""
  parents : ∀ exp ∈ experiments, ∀ parent, exp.item "reuse_from_experiment" = .ok parent →
    parent.truthy = true → ∃ id ∈ ids, parent = .str id

/-- What the script asks of a run beyond that: a topology and a balancer in small letters, and a
boolean for `work_stealing`. -/
structure ExactRun (run : Json) : Prop where
  topology : ∃ s ∈ validTopologies, run.item "topology" = .ok (.str s)
  balancer : run.item "topology" = .ok (.str "mq") →
    ∃ s ∈ validBalancers, run.item "balancer" = .ok (.str s)
  workStealing : run.item "topology" = .ok (.str "mq") →
    ∀ v, run.item "work_stealing" = .ok v → ∃ b, v = .bool b

/-- The id of an experiment, as a key -/
def experimentKey (exp : Json) : Py Json.Key := do
  hashed (← exp.item "id")

/-- What the script asks beyond the shared checks: a suite with names and experiments, all fields
of the experiments, ids that are keys of a dictionary and differ as such, and a parent that is
one of these keys. -/
structure SpecChecks (doc : Json) (experiments : List Json) (ids : List Json.Key) : Prop where
  benchmarkVersion : ∃ s, doc.item "benchmark_version" = .ok (.str s) ∧ strip s ≠ ""
  suiteId : ∃ s, doc.item "suite_id" = .ok (.str s) ∧ strip s ≠ ""
  filled : experiments ≠ []
  keys : ∀ exp ∈ experiments, ∀ key ∈ requiredExperimentKeys, exp.contains key = .ok true
  keyed : List.Forall₂ (fun exp id => experimentKey exp = .ok id) experiments ids
  distinct : ids.Nodup
  parents : ∀ exp ∈ experiments, ∀ parent, exp.item "reuse_from_experiment" = .ok parent →
    parent.truthy = true → ∃ id ∈ ids, parent.key? = some id
  exact : ∀ exp ∈ experiments, ∀ runs, exp.item "runs" = .ok (.list runs) →
    ∀ run ∈ runs, ExactRun run

/-! ## Fields of a dictionary -/

section

variable {v value default : Json} {key : String}

/-- A value a dictionary is asked for is there, or it is the default. -/
theorem get_eq_ok : v.get key default = .ok value ↔
    v.item key = .ok value ∨ (∃ fields, v = .dict fields ∧ fields.lookup key = none) ∧
      default = value := by
  cases v with
  | dict fields =>
    rw [Json_get_dict, Except.ok.injEq]
    cases hv : fields.lookup key with
    | none =>
      simp only [Json.item, hv, Option.getD_none, reduceCtorEq, false_or]
      exact ⟨fun h => ⟨⟨fields, rfl, hv⟩, h⟩, And.right⟩
    | some w =>
      simp only [Json.item, hv, Option.getD_some, Except.ok.injEq]
      refine ⟨Or.inl, fun h => h.resolve_right ?_⟩
      rintro ⟨⟨_, ⟨⟩, hnone⟩, -⟩
      rw [hv] at hnone
      cases hnone
  | _ => simp [Json.get, Json.item]

/-- In a dictionary, a key is there when it has a value. -/
theorem contains_eq_true {fields : List (String × Json)} (hv : v = .dict fields) :
    v.contains key = .ok true ↔ ∃ value, v.item key = .ok value := by
  subst hv
  cases hlookup : fields.lookup key <;> simp [Json.contains, Json.item, hlookup]

/-- What has a field is a dictionary. -/
theorem isDict_of_item (h : v.item key = .ok value) : ∃ fields, v = .dict fields := by
  cases v <;> simp [Json.item] at h ⊢

theorem isDict_of_get (h : v.get key default = .ok value) : ∃ fields, v = .dict fields := by
  cases v <;> simp [Json.get] at h ⊢

end

/-! ## What the runner accepts -/

section

variable {py : Builtins} {registry : BenchmarkPluginRegistry}

/-- A field that is checked if it is there. -/
theorem optional_eq_ok {run : Json} {key : String} {check : Json → Py Unit} {P : Json → Prop}
    (hdict : ∃ fields, run = .dict fields) (hcheck : ∀ v, check v = .ok () ↔ P v) :
    (∃ present, run.contains key = .ok present ∧
      (if present = true then run.item key >>= check else pure ()) = .ok ()) ↔
      ∀ v, run.item key = .ok v → P v := by
  obtain ⟨fields, rfl⟩ := hdict
  cases hv : fields.lookup key with
  | none => simp [Json.contains, Json.item, hv]
  | some w => simp [Json.contains, Json.item, hv, bind_eq_ok, hcheck]

/-- The runner accepts a run when the shared checks pass. -/
theorem runSuite_validateRun_eq_ok {place : String} {run : Json}
    (hempty : registry.resolveWorkload py (.str "") = none) :
    RunSuite.validateRun py registry place run = .ok () ↔ RunChecks py registry run := by
  constructor
  · intro h
    have hvalid := validRun_of_validateRun h
    unfold RunSuite.validateRun at h
    simp only [bind_eq_ok, failIf_eq_ok, exists_const] at h
    obtain ⟨v, hv, _, -, hworkload, _, -, _, -, -, _, -, _, -, -, _, -, _, -, -, _, -, -, _, -,
      hown⟩ := h
    refine ⟨hvalid, ?_, (optional_eq_ok hvalid.isDict fun _ => failIf_eq_ok).1 hown⟩
    rcases get_eq_ok.1 hv with hitem | ⟨-, rfl⟩
    · exact ⟨v, hitem, hworkload⟩
    · exact absurd hempty hworkload
  · rintro ⟨⟨hdict, ⟨vcores, cores, hvcores, hcores, hcores1⟩,
      ⟨vtasks, tasks, hvtasks, htasks, htasks1⟩, ⟨vstop, stop, hvstop, hstop, hpos⟩, ⟨s, hs, hmem⟩,
      hbal⟩, ⟨v, hv, hworkload⟩, hown⟩
    have hlower : py.lower (py.str (.str s)) = CStrings.toLower s :=
      lower_str_of_mem (List.mem_append_left validBalancers hmem)
    have hbalancer : (if CStrings.toLower s = "mq" then validateBalancer py place run else pure ())
        = .ok () := by
      by_cases hmq : CStrings.toLower s = "mq"
      · obtain ⟨b, hb, hbmem⟩ := hbal s hs hmq
        have hblower : py.lower (py.str (.str b)) = CStrings.toLower b :=
          lower_str_of_mem (List.mem_append_right validTopologies hbmem)
        rw [if_pos hmq, validateBalancer, bind_eq_ok]
        refine ⟨.str b, get_of_item hb, failIf_eq_ok.2 ?_⟩
        rw [hblower]
        exact not_not.2 hbmem
      · rw [if_neg hmq]
        rfl
    unfold RunSuite.validateRun
    simp only [bind_eq_ok, failIf_eq_ok, exists_const]
    refine ⟨v, get_of_item hv, v, get_of_item hv, hworkload, vcores, get_of_item hvcores, cores,
      hcores, not_lt.2 hcores1, vtasks, get_of_item hvtasks, tasks, htasks, not_lt.2 htasks1, vstop,
      get_of_item hvstop, stop, hstop, by rw [hpos]; decide, .str s, get_of_item hs, ?_, (), ?_,
      (optional_eq_ok hdict fun _ => failIf_eq_ok).2 hown⟩
    · rw [hlower]
      exact not_not.2 hmem
    · rw [hlower]
      exact hbalancer

theorem runSuite_validateDefaults_eq_ok {defaults : Json} :
    RunSuite.validateDefaults py registry defaults = .ok () ↔
      DefaultsChecks py registry defaults := by
  simp only [RunSuite.validateDefaults, bind_eq_ok, failIf_eq_ok, forM_eq_ok, exists_const, not_lt,
    Bool.not_eq_false]
  constructor
  · rintro ⟨hkeys, vreps, hvreps, reps, hreps, hreps1, vseed, hvseed, seed, hseed, hseed1, vtop,
      hvtop, valid, hvalid, htrue, vsched, hvsched, hsched⟩
    refine ⟨fun key hkey => ?_, ⟨vreps, reps, hvreps, hreps, hreps1⟩,
      ⟨vseed, seed, hvseed, hseed, hseed1⟩, ⟨vtop, hvtop, htrue ▸ hvalid⟩,
      ⟨vsched, hvsched, hsched⟩⟩
    obtain ⟨present, hpresent, htrue⟩ := hkeys key hkey
    exact htrue ▸ hpresent
  · rintro ⟨hkeys, ⟨vreps, reps, hvreps, hreps, hreps1⟩, ⟨vseed, seed, hvseed, hseed, hseed1⟩,
      ⟨vtop, hvtop, hvalid⟩, ⟨vsched, hvsched, hsched⟩⟩
    exact ⟨fun key hkey => ⟨true, hkeys key hkey, rfl⟩, vreps, hvreps, reps, hreps, hreps1, vseed,
      hvseed, seed, hseed, hseed1, vtop, hvtop, true, hvalid, rfl, vsched, hvsched, hsched⟩

/-- A check of each element of an enumeration that does not depend on its number. -/
theorem forM_zipIdx_eq_ok {check : Json × ℕ → Py Unit} {P : Json → Prop} {items : List Json}
    (hcheck : ∀ entry, check entry = .ok () ↔ P entry.1) :
    forM items.zipIdx check = .ok () ↔ ∀ item ∈ items, P item := by
  simp only [forM_eq_ok, hcheck]
  constructor
  · intro hall item hitem
    obtain ⟨i, hi⟩ := List.mem_iff_getElem?.1 hitem
    exact hall (item, i) (List.mk_mem_zipIdx_iff_getElem?.2 hi)
  · intro hall entry hentry
    exact hall _ (List.fst_mem_of_mem_zipIdx hentry)

theorem isList_iff {v : Json} : v.isList = true ↔ ∃ items, v = .list items := by
  cases v <;> simp [Json.isList]

theorem runSuite_validateExperiment_eq_ok {exp : Json}
    (hempty : registry.resolveWorkload py (.str "") = none) :
    RunSuite.validateExperiment py registry exp = .ok () ↔
      ExperimentChecks py registry exp ∧ ∃ id, experimentId py exp = .ok id ∧ id ≠ "" := by
  simp only [RunSuite.validateExperiment, bind_eq_ok, failIf_eq_ok, exists_const,
    Bool.not_eq_false, isList_iff,
    forM_zipIdx_eq_ok fun _ => runSuite_validateRun_eq_ok hempty]
  constructor
  · rintro ⟨id, hid, hne, _, hruns, ⟨items, rfl⟩, _, ⟨⟩, hall⟩
    exact ⟨⟨isDict_of_get hruns, items, hruns, hall⟩, id, hid, hne⟩
  · rintro ⟨⟨-, items, hruns, hall⟩, id, hid, hne⟩
    exact ⟨id, hid, hne, .list items, hruns, ⟨items, rfl⟩, items, rfl, hall⟩

/-- Only a string is one of the names. -/
theorem inNames_eq_true {v : Json} {names : List String} :
    inNames v names = .ok true ↔ ∃ s ∈ names, v = .str s := by
  unfold inNames
  split
  next s hs =>
    obtain rfl := Json.key?_eq_str.1 hs
    simp
  next hne hsome =>
    simp only [Except.ok.injEq, Bool.false_eq_true, false_iff]
    rintro ⟨s, -, rfl⟩
    exact hne s (Option.some.inj hsome).symm
  next hnone =>
    simp only [reduceCtorEq, false_iff]
    rintro ⟨s, -, rfl⟩
    cases hnone

/-- The parent of an experiment, if it is looked at: a field that is absent is not. -/
theorem parent_iff {exp parent : Json} {P : Json → Prop} {fields : List (String × Json)}
    (hexp : exp = .dict fields) (h : exp.get "reuse_from_experiment" .null = .ok parent) :
    (parent.truthy = true → P parent) ↔
      ∀ parent, exp.item "reuse_from_experiment" = .ok parent → parent.truthy = true →
      P parent := by
  rcases get_eq_ok.1 h with hitem | ⟨⟨_, hfields, hnone⟩, rfl⟩
  · constructor
    · intro hP parent' hparent'
      obtain rfl : parent = parent' := by simpa using hitem.symm.trans hparent'
      exact hP
    · intro hall
      exact hall parent hitem
  · subst hfields
    simp [Json.truthy, Json.item, hnone]

theorem runSuite_validateReuse_eq_ok {ids : List String} {exp : Json}
    (hdict : ∃ fields, exp = .dict fields) :
    RunSuite.validateReuse py ids exp = .ok () ↔
      ∀ parent, exp.item "reuse_from_experiment" = .ok parent → parent.truthy = true →
        ∃ id ∈ ids, parent = .str id := by
  obtain ⟨fields, rfl⟩ := hdict
  obtain ⟨parent, hparent⟩ : ∃ parent,
      (Json.dict fields).get "reuse_from_experiment" .null = .ok parent := ⟨_, rfl⟩
  obtain ⟨id, hid⟩ : ∃ id, (Json.dict fields).get "id" .null = .ok id := ⟨_, rfl⟩
  rw [← parent_iff (P := fun parent => ∃ id ∈ ids, parent = .str id) rfl hparent]
  simp only [RunSuite.validateReuse, hparent, hid, bind_eq_ok, failIf_eq_ok, Bool.not_eq_false,
    Except.ok.injEq, exists_eq_left', ← inNames_eq_true]
  by_cases htruthy : parent.truthy = true <;> simp [htruthy]

/-- The results of a comprehension that does not raise, one for each element. -/
theorem mapM_eq_ok {α β : Type} {f : α → Py β} {l : List α} {results : List β} :
    l.mapM f = .ok results ↔ List.Forall₂ (fun a b => f a = .ok b) l results := by
  induction l generalizing results with
  | nil =>
    rw [List.mapM_nil, pure_eq_ok, List.forall₂_nil_left_iff, eq_comm]
  | cons a l ih =>
    simp only [List.mapM_cons, bind_eq_ok, pure_eq_ok, ih, List.forall₂_cons_left_iff]
    constructor
    · rintro ⟨b, hb, rest, hrest, rfl⟩
      exact ⟨b, rest, hb, hrest, rfl⟩
    · rintro ⟨b, rest, hb, hrest, rfl⟩
      exact ⟨b, hb, rest, hrest, rfl⟩

/-- A check of each result of a comprehension. -/
theorem forall_results {α β : Type} {f : α → Py β} {P : β → Prop} {l : List α} {results : List β}
    (h : List.Forall₂ (fun a b => f a = .ok b) l results) :
    (∀ a ∈ l, ∃ b, f a = .ok b ∧ P b) ↔ ∀ b ∈ results, P b := by
  induction h with
  | nil => simp
  | cons hab _ ih => simp [hab, ih]

/-- **What the runner accepts**: the shared checks and its own. -/
theorem runSuite_validateSuite_eq_ok {doc : Json}
    (hempty : registry.resolveWorkload py (.str "") = none) :
    RunSuite.validateSuite py registry doc = .ok () ↔
      ∃ experiments, SuiteChecks py registry doc experiments ∧
        ∃ ids, RunnerChecks py experiments ids := by
  simp only [RunSuite.validateSuite, bind_eq_ok, failIf_eq_ok, forM_eq_ok, exists_const,
    Bool.not_eq_false, Json.isStr_iff, isList_iff, mapM_eq_ok,
    runSuite_validateExperiment_eq_ok hempty]
  constructor
  · rintro ⟨hkeys, _, hversion, rfl, _, hlisted, ⟨experiments, rfl⟩, defaults, hdefaults, _,
      hchecks, _, hitems, ids, hids, heach, hparents⟩
    obtain rfl := Except.ok.inj hitems
    refine ⟨experiments, ⟨fun key hkey => ?_, hversion, ⟨defaults, hdefaults,
      runSuite_validateDefaults_eq_ok.1 hchecks⟩, hlisted, fun exp hexp => (heach exp hexp).1⟩, ids,
      hids, ?_, fun exp hexp => ?_⟩
    · obtain ⟨present, hpresent, htrue⟩ := hkeys key hkey
      exact htrue ▸ hpresent
    · exact (forall_results hids).1 fun exp hexp => (heach exp hexp).2
    · exact (runSuite_validateReuse_eq_ok (heach exp hexp).1.isDict).1 (hparents exp hexp)
  · rintro ⟨experiments, ⟨hkeys, hversion, ⟨defaults, hdefaults, hchecks⟩, hlisted, heach⟩, ids,
      hids, hfilled, hparents⟩
    have hnamed := (forall_results hids).2 hfilled
    exact ⟨fun key hkey => ⟨true, hkeys key hkey, rfl⟩, _, hversion, rfl, _, hlisted,
      ⟨experiments, rfl⟩, defaults, hdefaults, (), runSuite_validateDefaults_eq_ok.2 hchecks,
      experiments, rfl, ids, hids, fun exp hexp => ⟨heach exp hexp, hnamed exp hexp⟩,
      fun exp hexp => (runSuite_validateReuse_eq_ok (heach exp hexp).isDict).2 (hparents exp hexp)⟩

/-! ## What the script accepts -/

theorem isName_iff {v : Json} : isName v = true ↔ ∃ s, v = .str s ∧ strip s ≠ "" := by
  cases v <;> simp [isName]

theorem isBool_iff {v : Json} : isBool v = true ↔ ∃ b, v = .bool b := by
  cases v <;> simp [isBool]

theorem isFilledList_iff {v : Json} :
    isFilledList v = true ↔ ∃ items, v = .list items ∧ items ≠ [] := by
  cases v <;> simp [isFilledList, Json.isList, Json.truthy]

theorem validateDefaults_eq_ok {defaults : Json} :
    validateDefaults py registry defaults = .ok () ↔ DefaultsChecks py registry defaults := by
  simp only [validateDefaults, bind_eq_ok, failIf_eq_ok, forM_eq_ok, exists_const, not_lt,
    Bool.not_eq_false]
  constructor
  · rintro ⟨hkeys, vsched, hvsched, hsched, vreps, hvreps, reps, hreps, hreps1, vtop, hvtop, valid,
      hvalid, htrue, vseed, hvseed, seed, hseed, hseed1⟩
    refine ⟨fun key hkey => ?_, ⟨vreps, reps, hvreps, hreps, hreps1⟩,
      ⟨vseed, seed, hvseed, hseed, hseed1⟩, ⟨vtop, hvtop, htrue ▸ hvalid⟩,
      ⟨vsched, hvsched, hsched⟩⟩
    obtain ⟨present, hpresent, htrue⟩ := hkeys key hkey
    exact htrue ▸ hpresent
  · rintro ⟨hkeys, ⟨vreps, reps, hvreps, hreps, hreps1⟩, ⟨vseed, seed, hvseed, hseed, hseed1⟩,
      ⟨vtop, hvtop, hvalid⟩, ⟨vsched, hvsched, hsched⟩⟩
    exact ⟨fun key hkey => ⟨true, hkeys key hkey, rfl⟩, vsched, hvsched, hsched, vreps, hvreps,
      reps, hreps, hreps1, vtop, hvtop, true, hvalid, rfl, vseed, hvseed, seed, hseed, hseed1⟩

theorem validateTopLevel_eq_ok {doc : Json} :
    validateTopLevel py doc = .ok () ↔
      (∀ key ∈ requiredKeys, doc.contains key = .ok true) ∧
      doc.item "schema_version" = .ok (.str "suite.v1") ∧
      (∃ s, doc.item "benchmark_version" = .ok (.str s) ∧ strip s ≠ "") ∧
      (∃ s, doc.item "suite_id" = .ok (.str s) ∧ strip s ≠ "") ∧
      ∃ experiments, doc.item "experiments" = .ok (.list experiments) ∧ experiments ≠ [] := by
  simp only [validateTopLevel, bind_eq_ok, failIf_eq_ok, forM_eq_ok, exists_const,
    Bool.not_eq_false, Json.isStr_iff, isName_iff, isFilledList_iff]
  constructor
  · rintro ⟨hkeys, _, hversion, rfl, _, hbench, ⟨bench, rfl, hbench'⟩, _, hsuite,
      ⟨suite, rfl, hsuite'⟩, _, hlisted, experiments, rfl, hfilled⟩
    refine ⟨fun key hkey => ?_, hversion, ⟨bench, hbench, hbench'⟩, ⟨suite, hsuite, hsuite'⟩,
      experiments, hlisted, hfilled⟩
    obtain ⟨present, hpresent, htrue⟩ := hkeys key hkey
    exact htrue ▸ hpresent
  · rintro ⟨hkeys, hversion, ⟨bench, hbench, hbench'⟩, ⟨suite, hsuite, hsuite'⟩, experiments,
      hlisted, hfilled⟩
    exact ⟨fun key hkey => ⟨true, hkeys key hkey, rfl⟩, _, hversion, rfl, _, hbench,
      ⟨bench, rfl, hbench'⟩, _, hsuite, ⟨suite, rfl, hsuite'⟩, _, hlisted, experiments, rfl,
      hfilled⟩

theorem validateMultiQueue_eq_ok {place : String} {run : Json}
    (hdict : ∃ fields, run = .dict fields) :
    validateMultiQueue py place run = .ok () ↔
      (∃ s ∈ validBalancers, run.item "balancer" = .ok (.str s)) ∧
        ∀ v, run.item "work_stealing" = .ok v → ∃ b, v = .bool b := by
  have hbool : ∀ v, failIf (isBool v = false) s!"{place}.work_stealing must be boolean" = .ok () ↔
      ∃ b, v = .bool b := by
    intro v
    rw [failIf_eq_ok, Bool.not_eq_false, isBool_iff]
  simp only [validateMultiQueue, bind_eq_ok, failIf_eq_ok, exists_const, Bool.not_eq_false]
  constructor
  · rintro ⟨_, -, -, balancer, hbalancer, valid, hvalid, rfl, hstealing⟩
    obtain ⟨s, hs, rfl⟩ := inNames_eq_true.1 hvalid
    exact ⟨⟨s, hs, hbalancer⟩, (optional_eq_ok hdict hbool).1 hstealing⟩
  · rintro ⟨⟨s, hs, hbalancer⟩, hstealing⟩
    have hpresent := (contains_eq_true hdict.choose_spec).2 ⟨_, hbalancer⟩
    exact ⟨true, hpresent, rfl, .str s, hbalancer, true, inNames_eq_true.2 ⟨s, hs, rfl⟩, rfl,
      (optional_eq_ok hdict hbool).2 hstealing⟩

/-- The names that are compared are written in small letters. -/
theorem toLower_of_mem {s : String} (h : s ∈ validTopologies ++ validBalancers) :
    CStrings.toLower s = s := by
  have hall : ∀ s ∈ validTopologies ++ validBalancers, CStrings.toLower s = s := by
    decide +kernel
  exact hall s h

/-- **What the script accepts of a run**: the shared checks, and the exact words. -/
theorem validateRun_eq_ok {place : String} {run : Json} :
    validateRun py registry place run = .ok () ↔ RunChecks py registry run ∧ ExactRun run := by
  simp only [validateRun, bind_eq_ok, failIf_eq_ok, forM_eq_ok, exists_const, Bool.not_eq_false]
  constructor
  · rintro ⟨-, workload, hworkload, hresolves, vcores, hvcores, cores, hcores, hcores1, vtasks,
      hvtasks, tasks, htasks, htasks1, vstop, hvstop, stop, hstop, hpos, vtop, hvtop, valid, hvalid,
      rfl, _, hmulti, hown⟩
    have hdict := isDict_of_item hworkload
    obtain ⟨s, hs, rfl⟩ := inNames_eq_true.1 hvalid
    have hlower := toLower_of_mem (List.mem_append_left validBalancers hs)
    have hmq : run.item "topology" = .ok (.str "mq") → _ := fun hitem => by
      obtain rfl : s = "mq" := by simpa using hvtop.symm.trans hitem
      rw [if_pos (Json.isStr_iff.2 rfl)] at hmulti
      exact (validateMultiQueue_eq_ok hdict).1 hmulti
    refine ⟨⟨⟨hdict, ⟨vcores, cores, hvcores, hcores, not_lt.1 hcores1⟩,
      ⟨vtasks, tasks, hvtasks, htasks, not_lt.1 htasks1⟩,
      ⟨vstop, stop, hvstop, hstop, by simpa using hpos⟩, ⟨s, hvtop, by rwa [hlower]⟩, ?_⟩,
      ⟨workload, hworkload, hresolves⟩, (optional_eq_ok hdict fun _ => failIf_eq_ok).1 hown⟩,
      ⟨s, hs, hvtop⟩, fun hitem => (hmq hitem).1, fun hitem => (hmq hitem).2⟩
    intro s' hs' hlower'
    obtain rfl : s = s' := by simpa using hvtop.symm.trans hs'
    rw [hlower] at hlower'
    obtain ⟨b, hb, hitem⟩ := (hmq (hlower' ▸ hvtop)).1
    exact ⟨b, hitem, by rwa [toLower_of_mem (List.mem_append_right validTopologies hb)]⟩
  · rintro ⟨⟨⟨hdict, ⟨vcores, cores, hvcores, hcores, hcores1⟩,
      ⟨vtasks, tasks, hvtasks, htasks, htasks1⟩, ⟨vstop, stop, hvstop, hstop, hpos⟩, -, -⟩,
      ⟨workload, hworkload, hresolves⟩, hown⟩, ⟨s, hs, hvtop⟩, hbalancer, hstealing⟩
    have hmulti : (if Json.isStr (.str s) "mq" = true then validateMultiQueue py place run
        else pure ()) = .ok () := by
      by_cases hmq : s = "mq"
      · subst hmq
        rw [if_pos (Json.isStr_iff.2 rfl)]
        exact (validateMultiQueue_eq_ok hdict).2 ⟨hbalancer hvtop, hstealing hvtop⟩
      · rw [if_neg (by simpa using hmq)]
        rfl
    refine ⟨fun key hkey => ⟨true, ?_, rfl⟩, workload, hworkload, hresolves, vcores, hvcores, cores,
      hcores, not_lt.2 hcores1, vtasks, hvtasks, tasks, htasks, not_lt.2 htasks1, vstop, hvstop,
      stop, hstop, by rw [hpos]; decide, .str s, hvtop, true, inNames_eq_true.2 ⟨s, hs, rfl⟩, rfl,
      (), hmulti, (optional_eq_ok hdict fun _ => failIf_eq_ok).2 hown⟩
    refine (contains_eq_true hdict.choose_spec).2 ?_
    simp only [requiredRunKeys, List.mem_cons, List.not_mem_nil, or_false] at hkey
    rcases hkey with rfl | rfl | rfl | rfl | rfl
    · exact ⟨_, hworkload⟩
    · exact ⟨_, hvcores⟩
    · exact ⟨_, hvtasks⟩
    · exact ⟨_, hvstop⟩
    · exact ⟨_, hvtop⟩

/-- What the script asks of an experiment by itself. -/
structure SpecExperiment (py : Builtins) (registry : BenchmarkPluginRegistry) (exp : Json) :
    Prop where
  keys : ∀ key ∈ requiredExperimentKeys, exp.contains key = .ok true
  runs : ∃ runs, exp.item "runs" = .ok (.list runs) ∧
    ∀ run ∈ runs, RunChecks py registry run ∧ ExactRun run

theorem specExperiment_iff {exp : Json} :
    SpecExperiment py registry exp ↔ ExperimentChecks py registry exp ∧
      (∀ key ∈ requiredExperimentKeys, exp.contains key = .ok true) ∧
      ∀ runs, exp.item "runs" = .ok (.list runs) → ∀ run ∈ runs, ExactRun run := by
  constructor
  · rintro ⟨hkeys, runs, hruns, hall⟩
    refine ⟨⟨isDict_of_item hruns, runs, get_of_item hruns, fun run hrun => (hall run hrun).1⟩,
      hkeys, fun runs' hruns' run hrun => ?_⟩
    obtain rfl : runs = runs' := by simpa using hruns.symm.trans hruns'
    exact (hall run hrun).2
  · rintro ⟨⟨hdict, runs, hruns, hall⟩, hkeys, hexact⟩
    obtain ⟨v, hv⟩ := (contains_eq_true hdict.choose_spec).1
      (hkeys "runs" (by simp [requiredExperimentKeys]))
    obtain rfl : v = .list runs := by simpa using (get_of_item hv).symm.trans hruns
    exact ⟨hkeys, runs, hv, fun run hrun => ⟨hall run hrun, hexact runs hv run hrun⟩⟩

theorem validateExperiment_eq_ok {seen seen' : List Json.Key} {exp : Json} :
    validateExperiment py registry seen exp = .ok seen' ↔ SpecExperiment py registry exp ∧
      ∃ id, experimentKey exp = .ok id ∧ id ∉ seen ∧ seen' = id :: seen := by
  simp only [validateExperiment, experimentKey, bind_eq_ok, failIf_eq_ok, exists_const,
    Bool.not_eq_false, isList_iff, pure_eq_ok]
  constructor
  · rintro ⟨_, hkeys, v, hv, id, hid, hnew, _, hruns, ⟨runs, rfl⟩, _, ⟨⟩, _, hall, rfl⟩
    refine ⟨⟨fun key hkey => ?_, runs, hruns,
      (forM_zipIdx_eq_ok fun _ => validateRun_eq_ok).1 hall⟩, id, ⟨v, hv, hid⟩, hnew, rfl⟩
    simp only [forM_eq_ok, bind_eq_ok, failIf_eq_ok, Bool.not_eq_false] at hkeys
    obtain ⟨present, hpresent, htrue⟩ := hkeys key hkey
    exact htrue ▸ hpresent
  · rintro ⟨⟨hkeys, runs, hruns, hall⟩, id, ⟨v, hv, hid⟩, hnew, rfl⟩
    refine ⟨(), ?_, v, hv, id, hid, hnew, .list runs, hruns, ⟨runs, rfl⟩, runs, rfl, (),
      (forM_zipIdx_eq_ok fun _ => validateRun_eq_ok).2 hall, rfl⟩
    simp only [forM_eq_ok, bind_eq_ok, failIf_eq_ok, Bool.not_eq_false]
    exact fun key hkey => ⟨true, hkeys key hkey, rfl⟩

/-- The first loop: the ids are new one after the other, so they differ. -/
theorem foldlM_validateExperiment_eq_ok {experiments : List Json} {seen seen' : List Json.Key} :
    experiments.foldlM (validateExperiment py registry) seen = .ok seen' ↔
      (∀ exp ∈ experiments, SpecExperiment py registry exp) ∧
      ∃ ids, List.Forall₂ (fun exp id => experimentKey exp = .ok id) experiments ids ∧
        ids.Nodup ∧ (∀ id ∈ ids, id ∉ seen) ∧ seen' = ids.reverse ++ seen := by
  induction experiments generalizing seen with
  | nil =>
    rw [List.foldlM_nil, pure_eq_ok]
    simp [eq_comm]
  | cons exp experiments ih =>
    simp only [List.foldlM_cons, bind_eq_ok, validateExperiment_eq_ok, ih, List.forall_mem_cons,
      List.forall₂_cons_left_iff]
    constructor
    · rintro ⟨_, ⟨hexp, id, hid, hnew, rfl⟩, hall, ids, hids, hnodup, hfresh, rfl⟩
      refine ⟨⟨hexp, hall⟩, id :: ids, ⟨id, ids, hid, hids, rfl⟩, List.nodup_cons.2 ⟨?_, hnodup⟩,
        ?_, by simp⟩
      · intro hmem
        exact hfresh id hmem List.mem_cons_self
      · intro id' hid'
        rcases List.mem_cons.1 hid' with rfl | hid'
        · exact hnew
        · exact fun hmem => hfresh id' hid' (List.mem_cons_of_mem _ hmem)
    · rintro ⟨⟨hexp, hall⟩, _, ⟨id, ids, hid, hids, rfl⟩, hnodup, hfresh, rfl⟩
      obtain ⟨hnew, hnodup⟩ := List.nodup_cons.1 hnodup
      refine ⟨_, ⟨hexp, id, hid, hfresh id List.mem_cons_self, rfl⟩, hall, ids, hids, hnodup, ?_,
        by simp⟩
      intro id' hid' hmem
      rcases List.mem_cons.1 hmem with rfl | hmem
      · exact hnew hid'
      · exact hfresh id' (List.mem_cons_of_mem _ hid') hmem

theorem hashed_eq_ok {v : Json} {key : Json.Key} : hashed v = .ok key ↔ v.key? = some key := by
  unfold hashed
  cases v.key? <;> simp

theorem validateParent_eq_ok {seen : List Json.Key} {exp : Json}
    (hdict : ∃ fields, exp = .dict fields) :
    validateParent py seen exp = .ok () ↔
      ∀ parent, exp.item "reuse_from_experiment" = .ok parent → parent.truthy = true →
        ∃ id ∈ seen, parent.key? = some id := by
  obtain ⟨fields, rfl⟩ := hdict
  obtain ⟨parent, hparent⟩ : ∃ parent,
      (Json.dict fields).get "reuse_from_experiment" .null = .ok parent := ⟨_, rfl⟩
  rw [← parent_iff (P := fun parent => ∃ id ∈ seen, parent.key? = some id) rfl hparent]
  simp only [validateParent, hparent, bind_eq_ok, Except.ok.injEq, exists_eq_left']
  by_cases htruthy : parent.truthy = true
  · simp only [htruthy, if_true, forall_const, bind_eq_ok, hashed_eq_ok]
    constructor
    · rintro ⟨key, hkey, hmem⟩
      refine ⟨key, ?_, hkey⟩
      by_contra hnew
      rw [if_neg hnew, bind_eq_ok] at hmem
      obtain ⟨_, -, hfails⟩ := hmem
      cases hfails
    · rintro ⟨key, hmem, hkey⟩
      exact ⟨key, hkey, by rw [if_pos hmem]; rfl⟩
  · simp [htruthy]

/-- **What the script accepts**: the shared checks and its own. -/
theorem validateDocument_eq_ok {doc : Json} :
    validateDocument py registry doc = .ok () ↔
      ∃ experiments, SuiteChecks py registry doc experiments ∧
        ∃ ids, SpecChecks doc experiments ids := by
  simp only [validateDocument, validateExperiments, bind_eq_ok, forM_eq_ok,
    foldlM_validateExperiment_eq_ok]
  constructor
  · rintro ⟨_, htop, defaults, hdefaults, _, hchecks, _, hlisted, items, hitems, seen,
      ⟨heach, ids, hids, hnodup, -, rfl⟩, hparents⟩
    obtain ⟨hkeys, hversion, hbench, hsuite, experiments, hlisted', hfilled⟩ :=
      validateTopLevel_eq_ok.1 htop
    obtain rfl := Except.ok.inj (hlisted'.symm.trans hlisted)
    obtain rfl := Except.ok.inj hitems
    have hexp := fun exp hexp => specExperiment_iff.1 (heach exp hexp)
    refine ⟨experiments, ⟨hkeys, hversion, ⟨defaults, hdefaults, validateDefaults_eq_ok.1 hchecks⟩,
      hlisted, fun exp hmem => (hexp exp hmem).1⟩, ids, hbench, hsuite, hfilled,
      fun exp hmem => (hexp exp hmem).2.1, hids, hnodup, fun exp hmem => ?_,
      fun exp hmem => (hexp exp hmem).2.2⟩
    have hparent := (validateParent_eq_ok (hexp exp hmem).1.isDict).1 (hparents exp hmem)
    simpa using hparent
  · rintro ⟨experiments, ⟨hkeys, hversion, ⟨defaults, hdefaults, hchecks⟩, hlisted, heach⟩, ids,
      hbench, hsuite, hfilled, hkeyed, hids, hnodup, hparents, hexact⟩
    have htop : validateTopLevel py doc = .ok () :=
      validateTopLevel_eq_ok.2 ⟨hkeys, hversion, hbench, hsuite, experiments, hlisted, hfilled⟩
    refine ⟨(), htop, defaults, hdefaults, (), validateDefaults_eq_ok.2 hchecks, _, hlisted,
      experiments, rfl, ids.reverse ++ [], ⟨fun exp hexp => ?_, ids, hids, hnodup, by simp, rfl⟩,
      fun exp hexp => ?_⟩
    · exact specExperiment_iff.2 ⟨heach exp hexp, hkeyed exp hexp, hexact exp hexp⟩
    · refine (validateParent_eq_ok (heach exp hexp).isDict).2 ?_
      simpa using hparents exp hexp

/-! ## One-sided checks -/

/-- The id of an experiment as a key of a dictionary, if it has one -/
def idKey : Json → Option Json.Key
  | .dict fields => (fields.lookup "id").bind Json.key?
  | _ => none

/-- The id of an experiment as it prints, stripped; blank if it has none -/
def printedId (py : Builtins) : Json → String
  | .dict fields => strip (py.str ((fields.lookup "id").getD (.str "")))
  | _ => ""

/-- The features of a document that only the script refuses. -/
inductive ScriptRefuses (doc : Json) (experiments : List Json) : Prop
  | benchmarkVersion :
      (∀ s, doc.item "benchmark_version" = .ok (.str s) → strip s = "") →
      ScriptRefuses doc experiments
  | suiteId : (∀ s, doc.item "suite_id" = .ok (.str s) → strip s = "") →
      ScriptRefuses doc experiments
  | noExperiments : experiments = [] → ScriptRefuses doc experiments
  | missingKey {exp key} : exp ∈ experiments → key ∈ requiredExperimentKeys →
      exp.contains key = .ok false → ScriptRefuses doc experiments
  /-- An id that is a list or a dictionary -/
  | unhashable {exp} : exp ∈ experiments → idKey exp = none → ScriptRefuses doc experiments
  | repeated : ¬(experiments.map idKey).Nodup → ScriptRefuses doc experiments
  /-- A parent that is no key, or not the key of an experiment -/
  | parent {exp parent} : exp ∈ experiments → exp.item "reuse_from_experiment" = .ok parent →
      parent.truthy = true →
      (∀ key, parent.key? = some key → some key ∉ experiments.map idKey) →
      ScriptRefuses doc experiments
  /-- A run whose topology or balancer has capital letters, or whose `work_stealing` is not a
  boolean -/
  | run {exp runs run} : exp ∈ experiments → exp.item "runs" = .ok (.list runs) → run ∈ runs →
      ¬ExactRun run → ScriptRefuses doc experiments

/-- The features of a document that only the runner refuses. -/
inductive RunnerRefuses (py : Builtins) (experiments : List Json) : Prop
  | blank : "" ∈ experiments.map (printedId py) → RunnerRefuses py experiments
  /-- A parent that is not a string, or not one of the printed ids -/
  | parent {exp parent} : exp ∈ experiments → exp.item "reuse_from_experiment" = .ok parent →
      parent.truthy = true → (∀ id ∈ experiments.map (printedId py), parent ≠ .str id) →
      RunnerRefuses py experiments

/-- A suite as the documentation writes it: with names, with experiments that have all fields, with
ids that are strings without surrounding blanks and differ, with parents that are strings, and with
small letters. -/
structure Conventional (doc : Json) (experiments : List Json) : Prop where
  benchmarkVersion : ∃ s, doc.item "benchmark_version" = .ok (.str s) ∧ strip s ≠ ""
  suiteId : ∃ s, doc.item "suite_id" = .ok (.str s) ∧ strip s ≠ ""
  filled : experiments ≠ []
  keys : ∀ exp ∈ experiments, ∀ key ∈ requiredExperimentKeys, exp.contains key = .ok true
  ids : ∀ exp ∈ experiments, ∃ id, exp.item "id" = .ok (.str id) ∧ strip id = id ∧ id ≠ ""
  distinct : (experiments.map idKey).Nodup
  parents : ∀ exp ∈ experiments, ∀ parent, exp.item "reuse_from_experiment" = .ok parent →
    parent.truthy = true → ∃ s, parent = .str s
  exact : ∀ exp ∈ experiments, ∀ runs, exp.item "runs" = .ok (.list runs) →
    ∀ run ∈ runs, ExactRun run

theorem experimentKey_eq_ok {exp : Json} {key : Json.Key} :
    experimentKey exp = .ok key ↔ idKey exp = some key := by
  rw [experimentKey, bind_eq_ok]
  cases exp with
  | dict fields =>
    cases hid : fields.lookup "id" <;> simp [Json.item, idKey, hid, hashed_eq_ok]
  | _ => simp [Json.item, idKey]

theorem experimentId_eq_ok {exp : Json} (hdict : ∃ fields, exp = .dict fields) {id : String} :
    experimentId py exp = .ok id ↔ printedId py exp = id := by
  obtain ⟨fields, rfl⟩ := hdict
  simp [experimentId, printedId, Json.get]

/-- A relation that is a function on a list relates it to the list of the values. -/
theorem forall₂_iff_map {α β : Type} {R : α → β → Prop} {f : α → β} {l : List α} {results : List β}
    (h : ∀ a ∈ l, ∀ b, R a b ↔ f a = b) : List.Forall₂ R l results ↔ l.map f = results := by
  induction l generalizing results with
  | nil => rw [List.forall₂_nil_left_iff, List.map_nil, eq_comm]
  | cons a l ih =>
    obtain ⟨ha, hl⟩ := List.forall_mem_cons.1 h
    simp only [List.forall₂_cons_left_iff, ih hl, ha, List.map_cons]
    constructor
    · rintro ⟨b, rest, rfl, rfl, rfl⟩
      rfl
    · rintro rfl
      exact ⟨_, _, rfl, rfl, rfl⟩

variable {doc : Json} {experiments : List Json}

/-- The keys of the experiments, if all of them have one -/
theorem keyed_iff {ids : List Json.Key} :
    List.Forall₂ (fun exp id => experimentKey exp = .ok id) experiments ids ↔
      experiments.map idKey = ids.map some := by
  simp only [experimentKey_eq_ok]
  rw [← forall₂_iff_map (R := fun exp key => idKey exp = key) fun _ _ _ => Iff.rfl,
    List.forall₂_map_right_iff]

/-- The script makes its own checks exactly when none of these features is there. -/
theorem specChecks_iff (hshared : SuiteChecks py registry doc experiments) :
    (∃ ids, SpecChecks doc experiments ids) ↔ ¬ScriptRefuses doc experiments := by
  constructor
  · rintro ⟨ids, hbench, hsuite, hfilled, hkeys, hkeyed, hdistinct, hparents, hexact⟩ hrefuses
    have hids := keyed_iff.1 hkeyed
    cases hrefuses with
    | benchmarkVersion h =>
      obtain ⟨s, hs, hne⟩ := hbench
      exact hne (h s hs)
    | suiteId h =>
      obtain ⟨s, hs, hne⟩ := hsuite
      exact hne (h s hs)
    | noExperiments h => exact hfilled h
    | missingKey hexp hkey h =>
      rw [hkeys _ hexp _ hkey] at h
      cases h
    | unhashable hexp h =>
      have hmem := List.mem_map_of_mem (f := idKey) hexp
      rw [h, hids] at hmem
      simp at hmem
    | repeated h =>
      rw [hids] at h
      exact h (hdistinct.map (Option.some_injective _))
    | parent hexp hparent htruthy h =>
      obtain ⟨id, hid, hkey⟩ := hparents _ hexp _ hparent htruthy
      exact h id hkey (hids ▸ List.mem_map_of_mem hid)
    | run hexp hruns hrun h => exact h (hexact _ hexp _ hruns _ hrun)
  · intro hnone
    have hname : ∀ {key}, (∀ s, doc.item key = .ok (.str s) → strip s = "") ∨
        ∃ s, doc.item key = .ok (.str s) ∧ strip s ≠ "" := by
      intro key
      by_cases h : ∃ s, doc.item key = .ok (.str s) ∧ strip s ≠ ""
      · exact .inr h
      · exact .inl fun s hs => by_contra fun hne => h ⟨s, hs, hne⟩
    have hkey : ∀ exp ∈ experiments, ∃ key, idKey exp = some key := fun exp hexp =>
      Option.ne_none_iff_exists'.1 fun h => hnone (.unhashable hexp h)
    obtain ⟨ids, hids⟩ : ∃ ids : List Json.Key, experiments.map idKey = ids.map some := by
      refine ⟨experiments.filterMap idKey, ?_⟩
      rw [List.map_filterMap_some_eq_filter_map_isSome, List.filter_eq_self.2]
      intro key hmem
      obtain ⟨exp, hexp, rfl⟩ := List.mem_map.1 hmem
      obtain ⟨key, hkey⟩ := hkey exp hexp
      rw [hkey]
      rfl
    refine ⟨ids, hname.resolve_left fun h => hnone (.benchmarkVersion h),
      hname.resolve_left fun h => hnone (.suiteId h), fun h => hnone (.noExperiments h),
      fun exp hexp key hkey => ?_, keyed_iff.2 hids, ?_, fun exp hexp parent hparent htruthy => ?_,
      fun exp hexp runs hruns run hrun => ?_⟩
    · obtain ⟨fields, rfl⟩ := (hshared.each exp hexp).isDict
      cases hlookup : fields.lookup key with
      | some v => simp [Json.contains, hlookup]
      | none => exact absurd (.missingKey hexp hkey (by simp [Json.contains, hlookup])) hnone
    · have hnodup := not_not.1 fun h => hnone (.repeated h)
      rw [hids] at hnodup
      exact hnodup.of_map
    · by_contra hno
      refine hnone (.parent hexp hparent htruthy fun key hparentKey hmem => hno ?_)
      rw [hids] at hmem
      obtain ⟨id, hid, heq⟩ := List.mem_map.1 hmem
      exact ⟨id, hid, by rw [hparentKey, heq]⟩
    · exact by_contra fun h => hnone (.run hexp hruns hrun h)

/-- So does the runner. -/
theorem runnerChecks_iff (hshared : SuiteChecks py registry doc experiments) :
    (∃ ids, RunnerChecks py experiments ids) ↔ ¬RunnerRefuses py experiments := by
  have hnamed : ∀ {ids : List String},
      List.Forall₂ (fun exp id => experimentId py exp = .ok id) experiments ids ↔
        experiments.map (printedId py) = ids :=
    forall₂_iff_map fun exp hexp _ => experimentId_eq_ok (hshared.each exp hexp).isDict
  constructor
  · rintro ⟨ids, hids, hfilled, hparents⟩ hrefuses
    obtain rfl := hnamed.1 hids
    cases hrefuses with
    | blank h => exact hfilled _ h rfl
    | parent hexp hparent htruthy h =>
      obtain ⟨id, hid, heq⟩ := hparents _ hexp _ hparent htruthy
      exact h id hid heq
  · intro hnone
    refine ⟨_, hnamed.2 rfl, ?_, fun exp hexp parent hparent htruthy => ?_⟩
    · rintro id hid rfl
      exact hnone (.blank hid)
    · by_contra hno
      exact hnone (.parent hexp hparent htruthy fun id hid heq => hno ⟨id, hid, heq⟩)

/-- Both refuse a conventional suite for the same reason, a parent that is not there. -/
theorem Conventional.refuses_iff (h : Conventional doc experiments) :
    ScriptRefuses doc experiments ↔ RunnerRefuses py experiments := by
  have hid : ∀ exp ∈ experiments, ∃ id, idKey exp = some (.str id) ∧ printedId py exp = id ∧
      id ≠ "" := by
    intro exp hexp
    obtain ⟨id, hitem, hstrip, hne⟩ := h.ids exp hexp
    obtain ⟨fields, rfl⟩ := isDict_of_item hitem
    have hlookup : fields.lookup "id" = some (.str id) := by
      cases hv : fields.lookup "id" <;> simp_all [Json.item]
    exact ⟨id, by simp [idKey, hlookup, Json.key?],
      by simp [printedId, hlookup, py.str_str, hstrip], hne⟩
  have hparent : ∀ s, some (.str s) ∈ experiments.map idKey ↔
      s ∈ experiments.map (printedId py) := by
    intro s
    simp only [List.mem_map]
    refine exists_congr fun exp => and_congr_right fun hexp => ?_
    obtain ⟨id, hkey, hprinted, -⟩ := hid exp hexp
    rw [hkey, hprinted]
    simp
  constructor
  · intro hrefuses
    cases hrefuses with
    | benchmarkVersion h' =>
      obtain ⟨s, hs, hne⟩ := h.benchmarkVersion
      exact absurd (h' s hs) hne
    | suiteId h' =>
      obtain ⟨s, hs, hne⟩ := h.suiteId
      exact absurd (h' s hs) hne
    | noExperiments h' => exact absurd h' h.filled
    | missingKey hexp hkey h' =>
      rw [h.keys _ hexp _ hkey] at h'
      cases h'
    | unhashable hexp h' =>
      obtain ⟨id, hkey, -⟩ := hid _ hexp
      rw [hkey] at h'
      cases h'
    | repeated h' => exact absurd h.distinct h'
    | parent hexp hitem htruthy h' =>
      obtain ⟨s, rfl⟩ := h.parents _ hexp _ hitem htruthy
      refine .parent hexp hitem htruthy fun id hmem heq => h' _ rfl ?_
      obtain rfl := Json.str.inj heq
      exact (hparent s).2 hmem
    | run hexp hruns hrun h' => exact absurd (h.exact _ hexp _ hruns _ hrun) h'
  · intro hrefuses
    cases hrefuses with
    | blank h' =>
      obtain ⟨exp, hexp, hblank⟩ := List.mem_map.1 h'
      obtain ⟨id, -, hprinted, hne⟩ := hid exp hexp
      exact absurd (hprinted.symm.trans hblank) hne
    | parent hexp hitem htruthy h' =>
      obtain ⟨s, rfl⟩ := h.parents _ hexp _ hitem htruthy
      refine .parent hexp hitem htruthy fun key hkey hmem => ?_
      obtain rfl : Json.Key.str s = key := Option.some.inj hkey
      exact h' s ((hparent s).1 hmem) rfl

/-! ## The same suites -/

/-- The workload that is looked up for a run that names none -/
theorem resolveWorkload_empty (hlower : py.lower "" = "")
    (hregistry : Lts.Reachable (BenchmarkPluginRegistry.Calls py) {} registry) :
    registry.resolveWorkload py (.str "") = none := by
  have hnorm : norm py (.str "") = "" := by
    rw [norm, py.str_str]
    exact hlower
  have hlookup := BenchmarkPluginRegistry.lookup_empty_of_reachable hregistry .workload
  rw [BenchmarkPluginRegistry.resolveWorkload, hnorm, BenchmarkPluginRegistry.resolve]
  rw [BenchmarkPluginRegistry.table] at hlookup
  rw [hlookup]

end

/-- The two validators have the same verdict on a document. -/
def SameVerdict (py : Builtins) (registry : BenchmarkPluginRegistry) (doc : Json) : Prop :=
  validateDocument py registry doc = .ok () ↔ RunSuite.validateSuite py registry doc = .ok ()

/-- **The two validators agree on a document exactly when** a check they share fails, or the
document has none of the features that one of them refuses by itself, or it has some of either kind.
On conventional suites they agree. -/
theorem sameSuites_iff (py : Builtins) (hlower : py.lower "" = "")
    (registry : BenchmarkPluginRegistry)
    (hregistry : Lts.Reachable (BenchmarkPluginRegistry.Calls py) {} registry) (doc : Json) :
    (SameVerdict py registry doc ↔
      ∀ experiments, SuiteChecks py registry doc experiments →
        (ScriptRefuses doc experiments ↔ RunnerRefuses py experiments)) ∧
    ((∀ experiments, doc.item "experiments" = .ok (.list experiments) →
      Conventional doc experiments) → SameVerdict py registry doc) := by
  have hspec : validateDocument py registry doc = .ok () ↔
      ∃ experiments, SuiteChecks py registry doc experiments ∧ ¬ScriptRefuses doc experiments := by
    rw [validateDocument_eq_ok]
    exact exists_congr fun _ => and_congr_right fun hshared => specChecks_iff hshared
  have hrunner : RunSuite.validateSuite py registry doc = .ok () ↔
      ∃ experiments, SuiteChecks py registry doc experiments ∧ ¬RunnerRefuses py experiments := by
    rw [runSuite_validateSuite_eq_ok (resolveWorkload_empty hlower hregistry)]
    exact exists_congr fun _ => and_congr_right fun hshared => runnerChecks_iff hshared
  have hsame : SameVerdict py registry doc ↔
      ∀ experiments, SuiteChecks py registry doc experiments →
        (ScriptRefuses doc experiments ↔ RunnerRefuses py experiments) := by
    rw [SameVerdict, hspec, hrunner]
    constructor
    · intro hverdict experiments hshared
      -- the document lists no other experiments
      have hothers : ∀ others, SuiteChecks py registry doc others → others = experiments :=
        fun others h => by simpa using h.listed.symm.trans hshared.listed
      rw [← not_iff_not]
      constructor
      · intro hnone
        obtain ⟨others, hshared', hnone'⟩ := hverdict.1 ⟨experiments, hshared, hnone⟩
        rwa [hothers others hshared'] at hnone'
      · intro hnone
        obtain ⟨others, hshared', hnone'⟩ := hverdict.2 ⟨experiments, hshared, hnone⟩
        rwa [hothers others hshared'] at hnone'
    · intro hrefuses
      exact exists_congr fun experiments => and_congr_right fun hshared =>
        not_congr (hrefuses experiments hshared)
  exact ⟨hsame, fun hconventional => hsame.2 fun experiments hshared =>
    (hconventional experiments hshared.listed).refuses_iff⟩

/-- A registry of one scheduler and one workload, registered -/
def sampleNames : BenchmarkPluginRegistry :=
  ((({} : BenchmarkPluginRegistry).register sampleBuiltins .scheduler
    (samplePlugin "all")).2.register
    sampleBuiltins .workload (samplePlugin "desktop")).2

theorem sampleNames_reachable :
    Lts.Reachable (BenchmarkPluginRegistry.Calls sampleBuiltins) {} sampleNames := by
  refine Lts.Reachable.tail (e := (samplePlugin "desktop", .workload)) ?_ rfl
  exact Lts.Reachable.tail (e := (samplePlugin "all", .scheduler)) Lts.Reachable.refl rfl

/-- A suite of one experiment with one run of the given topology -/
def sampleDocument (topology : String) : Json :=
  .dict [("schema_version", .str "suite.v1"), ("benchmark_version", .str "community-v1"),
    ("suite_id", .str "sample"), ("title", .str "Sample"), ("description", .str "Sample"),
    ("defaults", .dict [("scheduler", .str "all"), ("replications", .int 1),
      ("topology", .str "sq"), ("seed_base", .int 1)]),
    ("experiments", .list [.dict [("id", .str "exp1"), ("title", .str "One"),
      ("objective", .str "None"),
      ("runs", .list [sampleRun (.int 100) [("topology", .str topology)]])]])]

/-- What passes is the result without a value. -/
theorem eq_ok_of_toBool {check : Py Unit} (h : check.toBool = true) : check = .ok () := by
  obtain ⟨u, hu⟩ := exists_ok h
  exact hu

/-- A suite of two experiments, the second of which reuses the runs of the first -/
def reuseDocument : Json :=
  .dict [("schema_version", .str "suite.v1"), ("benchmark_version", .str "community-v1"),
    ("suite_id", .str "sample"), ("title", .str "Sample"), ("description", .str "Sample"),
    ("defaults", .dict [("scheduler", .str "all"), ("replications", .int 1),
      ("topology", .str "sq"), ("seed_base", .int 1)]),
    ("experiments", .list reuseExperiments)]
where
  reuseExperiments : List Json :=
    [.dict [("id", .str "exp1"), ("title", .str "One"), ("objective", .str "None"),
      ("runs", .list [sampleRun (.int 100) [("topology", .str "mq"), ("balancer", .str "rr"),
        ("work_stealing", .bool false)]])],
    .dict [("id", .str "exp2"), ("title", .str "Two"), ("objective", .str "None"),
      ("runs", .list []), ("reuse_from_experiment", .str "exp1")]]

theorem conventional_reuse : Conventional reuseDocument reuseDocument.reuseExperiments := by
  refine ⟨⟨"community-v1", rfl, by decide +kernel⟩, ⟨"sample", rfl, by decide +kernel⟩,
    List.cons_ne_nil _ _, ?_, ?_, by decide +kernel, ?_, ?_⟩ <;>
    simp only [reuseDocument.reuseExperiments, List.forall_mem_cons, List.not_mem_nil,
      IsEmpty.forall_iff, implies_true, and_true]
  · exact ⟨by decide +kernel, by decide +kernel⟩
  · exact ⟨⟨"exp1", rfl, by decide +kernel, by decide +kernel⟩,
      ⟨"exp2", rfl, by decide +kernel, by decide +kernel⟩⟩
  · refine ⟨?_, ?_⟩
    · rintro parent ⟨⟩
    · rintro parent ⟨⟩ -
      exact ⟨"exp1", rfl⟩
  · refine ⟨?_, ?_⟩
    · rintro runs ⟨⟩ run hrun
      obtain rfl := List.mem_singleton.1 hrun
      refine ⟨⟨"mq", by decide, rfl⟩, fun _ => ⟨"rr", by decide, rfl⟩, fun _ v hv => ⟨false, ?_⟩⟩
      exact (Except.ok.inj hv).symm
    · rintro runs ⟨⟩ run ⟨⟩

/-- A suite that the script accepts, so the runner does too -/
theorem sameSuites_reuse :
    RunSuite.validateSuite sampleBuiltins sampleNames reuseDocument = .ok () := by
  have hlisted : ∀ experiments, reuseDocument.item "experiments" = .ok (.list experiments) →
      Conventional reuseDocument experiments := by
    intro experiments h
    obtain rfl : reuseDocument.reuseExperiments = experiments := Json.list.inj (Except.ok.inj h)
    exact conventional_reuse
  have hverdict := (sameSuites_iff sampleBuiltins rfl sampleNames sampleNames_reachable
    reuseDocument).2 hlisted
  exact hverdict.1 (eq_ok_of_toBool (by decide +kernel))

/-- **A suite may pass one validator only**: the runner takes the topology `SQ`. -/
theorem sameSuites_capital :
    ¬ ∀ registry, Lts.Reachable (BenchmarkPluginRegistry.Calls sampleBuiltins) {} registry →
      ∀ doc, validateDocument sampleBuiltins registry doc = .ok () ↔
        RunSuite.validateSuite sampleBuiltins registry doc = .ok () := by
  intro hall
  have hrunner : RunSuite.validateSuite sampleBuiltins sampleNames (sampleDocument "SQ") = .ok () :=
    eq_ok_of_toBool (by decide +kernel)
  have hspec := (hall sampleNames sampleNames_reachable (sampleDocument "SQ")).2 hrunner
  have hfails : (validateDocument sampleBuiltins sampleNames (sampleDocument "SQ")).toBool
      = false := by
    decide +kernel
  rw [hspec] at hfails
  cases hfails

end ValidateBenchmarkSpec

end SchedSim
