import SchedSim.Plugins

/-!
# The suite runner

`benchmark/runner/run_suite.py`: the check of a suite document, the key under which runs are
shared, the plan of cases to execute and the command line of a case.
-/

namespace SchedSim

namespace RunSuite

open Py

def validTopologies : List String := ["sq", "mq"]

def validBalancers : List String := ["rr", "leastloaded"]

/-- Replaces every run of characters satisfying `p` by one hyphen. -/
def hyphenate (p : Char → Bool) : List Char → List Char
  | [] => []
  | c :: rest =>
    if p c then
      match rest with
      | d :: _ => if p d then hyphenate p rest else '-' :: hyphenate p rest
      | [] => ['-']
    else c :: hyphenate p rest

/-- The characters outside `[A-Za-z0-9_-]` -/
def isForeign (c : Char) : Bool :=
  !(c.isAlphanum || c == '_' || c == '-')

def sanitizeId (value : String) : String :=
  let sanitized := hyphenate isForeign (strip value).toList
  let sanitized := hyphenate (· == '-') sanitized
  let sanitized := String.ofList (stripChars (· == '-') sanitized)
  if sanitized = "" then "id" else sanitized

section

variable (py : Builtins) (registry : BenchmarkPluginRegistry)

/-! ## Checking a suite document -/

def knownSchedulers : String :=
  py.str (.list (registry.schedulerHelpTokens.map .str))

def knownWorkloads : String :=
  py.str (.list (registry.workloadHelpTokens.map .str))

def requiredKeys : List String :=
  ["schema_version", "benchmark_version", "suite_id", "title", "description", "defaults",
    "experiments"]

def requiredDefaults : List String :=
  ["scheduler", "replications", "topology", "seed_base"]

/-- `v in names`, which hashes `v` -/
def inNames (v : Json) (names : List String) : Py Bool :=
  match v.key? with
  | some (.str s) => .ok (names.contains s)
  | some _ => .ok false
  | none => .error .typeError

/-- The checks of `defaults` -/
def validateDefaults (defaults : Json) : Py Unit := do
  forM requiredDefaults fun key => do
    let present ← defaults.contains key
    failIf (present = false) s!"defaults.{key} is required"
  let replications ← py.int (← defaults.item "replications")
  failIf (replications < 1) "defaults.replications must be >= 1"
  let seedBase ← py.int (← defaults.item "seed_base")
  failIf (seedBase < 1) "defaults.seed_base must be >= 1"
  let topology ← defaults.item "topology"
  let valid ← inNames topology validTopologies
  failIf (valid = false) s!"defaults.topology invalid: {py.str topology}"
  let scheduler ← defaults.item "scheduler"
  failIf (registry.resolveScheduler py scheduler = none)
    (s!"defaults.scheduler invalid: {py.str scheduler}. " ++
      s!"Known scheduler keys: {knownSchedulers py registry}")

/-- The check of the balancer, made of multi-queue runs only -/
def validateBalancer (place : String) (run : Json) : Py Unit := do
  let balancer ← run.get "balancer" (.str "")
  failIf (py.lower (py.str balancer) ∉ validBalancers)
    s!"{place}.balancer invalid: {py.lower (py.str balancer)}"

/-- The check of a scheduler of the run's own -/
def validateScheduler (place : String) (run : Json) : Py Unit := do
  let scheduler ← run.item "scheduler"
  failIf (registry.resolveScheduler py scheduler = none)
    (s!"{place}.scheduler invalid: {py.str scheduler}. " ++
      s!"Known scheduler keys: {knownSchedulers py registry}")

/-- The checks of one explicit run; `place` is its path in the document. -/
def validateRun (place : String) (run : Json) : Py Unit := do
  let workload ← run.get "workload" (.str "")
  let named ← run.get "workload" .null
  failIf (registry.resolveWorkload py workload = none)
    s!"{place}.workload invalid: {py.str named}. Known workload keys: {knownWorkloads py registry}"
  let cores ← py.int (← run.get "cores" (.int 0))
  failIf (cores < 1) s!"{place}.cores must be >= 1"
  let numTasks ← py.int (← run.get "num_tasks" (.int 0))
  failIf (numTasks < 1) s!"{place}.num_tasks must be >= 1"
  let stopTime ← py.float (← run.get "stop_time" (.float (Double.ofRat 0)))
  failIf (stopTime.nonpos = true) s!"{place}.stop_time must be > 0"
  let topology := py.lower (py.str (← run.get "topology" (.str "")))
  failIf (topology ∉ validTopologies) s!"{place}.topology invalid: {topology}"
  (if topology = "mq" then validateBalancer py place run else pure ())
  let own ← run.contains "scheduler"
  (if own = true then validateScheduler py registry place run else pure ())

/-- `str(exp.get("id", "")).strip()` -/
def experimentId (exp : Json) : Py String := do
  let id ← exp.get "id" (.str "")
  return strip (py.str id)

/-- The checks of one experiment and of its explicit runs -/
def validateExperiment (exp : Json) : Py Unit := do
  let expId ← experimentId py exp
  failIf (expId = "") "experiment id must be non-empty"
  let runs ← exp.get "runs" (.list [])
  failIf (runs.isList = false) s!"{expId}.runs must be a list"
  forM (← runs.iterate).zipIdx fun (run, idx) =>
    validateRun py registry s!"{expId}.runs[{idx}]" run

/-- The check that the experiment whose runs are reused exists -/
def validateReuse (expIds : List String) (exp : Json) : Py Unit := do
  let parent ← exp.get "reuse_from_experiment" .null
  let known ← (if parent.truthy then inNames parent expIds else pure true)
  let id ← exp.get "id" .null
  failIf (known = false)
    s!"{py.str id}.reuse_from_experiment references unknown experiment: {py.str parent}"

def validateSuite (doc : Json) : Py Unit := do
  forM requiredKeys fun key => do
    let present ← doc.contains key
    failIf (present = false) s!"missing suite key: {key}"
  let version ← doc.item "schema_version"
  failIf (version.isStr "suite.v1" = false) s!"unsupported schema_version: {py.str version}"
  let experiments ← doc.item "experiments"
  failIf (experiments.isList = false) "experiments must be a list"
  validateDefaults py registry (← doc.item "defaults")
  let experiments ← experiments.iterate
  let expIds ← experiments.mapM (experimentId py)
  forM experiments (validateExperiment py registry)
  forM experiments (validateReuse py expIds)

/-! ## The plan -/

/-- What two explicit runs must agree on to be executed once. -/
structure RunKey where
  workloadCli : String
  schedulerCli : String
  cores : ℤ
  numTasks : ℤ
  stopTime : Double
  topology : Json
  balancer : Json
  workStealing : Json

/-- A `RunKey` as a key of a dictionary -/
structure HashedKey where
  workloadCli : String
  schedulerCli : String
  cores : ℤ
  numTasks : ℤ
  stopTime : Double
  topology : Json.Key
  balancer : Json.Key
  workStealing : Json.Key
  deriving DecidableEq

def hashed (v : Json) : Py Json.Key :=
  match v.key? with
  | some key => .ok key
  | none => .error .typeError

def RunKey.hash (key : RunKey) : Py HashedKey := do
  let topology ← hashed key.topology
  let balancer ← hashed key.balancer
  let workStealing ← hashed key.workStealing
  return { workloadCli := key.workloadCli, schedulerCli := key.schedulerCli, cores := key.cores,
           numTasks := key.numTasks, stopTime := key.stopTime, topology, balancer, workStealing }

def runKey (run : Json) (workloadCli schedulerCli : String) : Py RunKey := do
  let topology ← run.item "topology"
  let balancer ← (if topology.isStr "mq" then run.get "balancer" (.str "leastloaded")
    else pure (.str "na"))
  let workStealing ← (if topology.isStr "mq" then run.get "work_stealing" (.bool true)
    else pure .null)
  let cores ← py.int (← run.item "cores")
  let numTasks ← py.int (← run.item "num_tasks")
  let stopTime ← py.float (← run.item "stop_time")
  return { workloadCli, schedulerCli, cores, numTasks, stopTime, topology, balancer, workStealing }

/-- A case of the plan. -/
structure Entry where
  caseIndex : ℕ
  experiments : List Json
  expRunIndex : ℕ
  workloadKey : String
  workloadCli : String
  cores : ℤ
  numTasks : ℤ
  stopTime : Double
  topology : Json
  balancer : Json
  workStealing : Json
  runId : String
  seed : ℤ
  schedulerKey : String
  schedulerCli : String
  replications : ℤ
  artifactDir : String

/-- The parameters a case was planned with -/
def Entry.key (e : Entry) : RunKey where
  workloadCli := e.workloadCli
  schedulerCli := e.schedulerCli
  cores := e.cores
  numTasks := e.numTasks
  stopTime := e.stopTime
  topology := e.topology
  balancer := e.balancer
  workStealing := e.workStealing

/-- The arguments of `build_run_plan` but the selection of experiments -/
structure PlanArgs where
  suite : Json
  dedupe : Bool
  schedulerKey : String
  replications : ℤ
  seedBase : ℤ
  runsDir : String

/-- The variables of the planning loop; `dedupMap` leads from a key to the index of its case. -/
structure PlanState where
  plan : List Entry := []
  dedupMap : List (HashedKey × ℕ) := []
  caseIndex : ℕ := 0

/-- An explicit run: its experiment's id, its position there, from one, and the run itself. -/
structure PlannedRun where
  expId : Json
  expRunIndex : ℕ
  run : Json

/-- `f"{n:03d}"` -/
def padded (n : ℕ) : String :=
  String.ofList (List.replicate (3 - (toString n).length) '0') ++ toString n

/-- `runs_dir / name`, as a string -/
def joinPath (dir name : String) : String :=
  if dir.endsWith "/" then dir ++ name else dir ++ "/" ++ name

/-- The part of a run id that depends on the topology -/
def topologySuffix (key : RunKey) : String :=
  if key.topology.isStr "mq" then
    "-" ++ py.str key.balancer ++ "-ws-" ++ if key.workStealing.truthy then "on" else "off"
  else "-sq"

variable (args : PlanArgs)

/-- `suite["suite_id"]`, which must be a string to be sanitized -/
def suiteId (suite : Json) : Py String := do
  match ← suite.item "suite_id" with
  | .str s => return s
  | _ => .error .attributeError

/-- The entry of a new case -/
def newEntry (caseIndex : ℕ) (planned : PlannedRun) (key : RunKey) (workload scheduler : Plugin) :
    Py Entry := do
  let stop ← Builtins.intOfFloat key.stopTime
  let suiteId ← suiteId args.suite
  let runId := sanitizeId
    (s!"{suiteId}-{padded caseIndex}-{workload.key}-{key.cores}c-n{key.numTasks}-t{stop}" ++
      topologySuffix py key)
  return {
    caseIndex
    experiments := [planned.expId]
    expRunIndex := planned.expRunIndex
    workloadKey := workload.key
    workloadCli := key.workloadCli
    cores := key.cores
    numTasks := key.numTasks
    stopTime := key.stopTime
    topology := key.topology
    balancer := key.balancer
    workStealing := key.workStealing
    runId
    seed := args.seedBase + caseIndex * 1000
    schedulerKey := scheduler.key
    schedulerCli := key.schedulerCli
    replications := args.replications
    artifactDir := joinPath (joinPath args.runsDir (sanitizeId suiteId)) runId }

/-- The plugins of a run: its own scheduler if it names one, else the selected one -/
def plugins (planned : PlannedRun) : Py (Plugin × Plugin) := do
  let schedulerForRunKey ← planned.run.get "scheduler" (.str args.schedulerKey)
  let scheduler ← (match registry.resolveScheduler py schedulerForRunKey with
    | some plugin => .ok plugin
    | none => .error (.systemExit
        (s!"Unknown scheduler '{py.str schedulerForRunKey}' in " ++
          s!"experiment '{py.str planned.expId}'. Known keys: {knownSchedulers py registry}")))
  let workloadName ← planned.run.item "workload"
  let workload ← (match registry.resolveWorkload py workloadName with
    | some plugin => .ok plugin
    | none => .error (.systemExit
        (s!"Unknown workload '{py.str workloadName}' in " ++
          s!"experiment '{py.str planned.expId}'. Known keys: {knownWorkloads py registry}")))
  return (scheduler, workload)

/-- The key of an explicit run -/
def keyOf (planned : PlannedRun) : Py RunKey := do
  let (scheduler, workload) ← plugins py registry args planned
  runKey py planned.run workload.cliToken scheduler.cliToken

/-- `dedup_map[key]["experiments"].append(exp_id)` -/
def addExperiment (caseIndex : ℕ) (expId : Json) (e : Entry) : Entry :=
  if e.caseIndex = caseIndex then { e with experiments := e.experiments ++ [expId] } else e

/-- One iteration of the planning loop -/
def planRun (s : PlanState) (planned : PlannedRun) : Py PlanState := do
  let (scheduler, workload) ← plugins py registry args planned
  let key ← runKey py planned.run workload.cliToken scheduler.cliToken
  let hash ← key.hash
  match (if args.dedupe then s.dedupMap.lookup hash else none) with
  | some caseIndex => return { s with plan := s.plan.map (addExperiment caseIndex planned.expId) }
  | none =>
    let caseIndex := s.caseIndex + 1
    let entry ← newEntry py args caseIndex planned key workload scheduler
    return { plan := s.plan ++ [entry], dedupMap := (hash, caseIndex) :: s.dedupMap, caseIndex }

/-- The runs of one experiment, as the planning loop enumerates them -/
def experimentRuns (exp : Json) : Py (List PlannedRun) := do
  let expId ← exp.item "id"
  let runs ← exp.get "runs" (.list [])
  let runs ← runs.iterate
  return (runs.zipIdx 1).map fun (run, expRunIndex) => { expId, expRunIndex, run }

/-- `build_run_plan` -/
def buildRunPlan (selected : List Json) : Py (List Entry) := do
  let s ← selected.foldlM (fun s exp => do
    let runs ← experimentRuns exp
    runs.foldlM (planRun py registry args) s) {}
  return s.plan

/-! ## The command line of a case -/

/-- `build_command`; an argument list holds strings only. -/
def buildCommand (binPath : String) (suite : Json) (case : Entry) : Option (List String) := do
  let .ok (.str benchmarkVersion) := suite.item "benchmark_version" | none
  let .ok (.str suiteId) := suite.item "suite_id" | none
  let .str topology := case.topology | none
  let .ok stop := Builtins.intOfFloat case.stopTime | none
  let cmd := [
    binPath,
    "-s", case.schedulerCli,
    "-w", case.workloadCli,
    "-c", toString case.cores,
    "-m", topology,
    "-n", toString case.numTasks,
    "-t", toString stop,
    "-r", toString case.replications,
    "--benchmark-version", benchmarkVersion,
    "--suite-id", suiteId,
    "--run-id", case.runId,
    "--seed", toString case.seed,
    "--artifact-dir", case.artifactDir]
  if topology = "mq" then
    let .str balancer := case.balancer | none
    let cmd := cmd ++ ["-b", balancer]
    if case.workStealing.isFalse then some (cmd ++ ["--no-steal"]) else some cmd
  else some cmd

end

end RunSuite

end SchedSim
