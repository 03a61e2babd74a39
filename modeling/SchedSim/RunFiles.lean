import SchedSim.Experiments
import SchedSim.MetricsRow
import SchedSim.Reports

/-!
# The files of a run

`main` writes a row of `metrics.csv` for every experiment and a row of `tasks.csv` for every task of
it; `scripts/aggregate_results.py` reads both files and finds the tasks of an experiment by the
columns of `run_key_fields`.

* `RunFiles.metricsCsv`, `RunFiles.tasksCsv` — the files that a run of the program leaves.
* `RunFiles.nodup_runKeys` — no two experiments of a run have the same key.
* `RunFiles.filesReadBack` — both files are read back as they were written, and the tasks of an
  experiment are the rows with its key.
-/

namespace SchedSim

namespace RunFiles

open CommandLine Csv MetricsRow

/-! ## What is written -/

/-- What an experiment leaves: the tasks as they are when `run` has returned, in the order in which
they were generated -/
structure Result where
  schedulerName : String
  workloadName : String
  seed : Int64
  replication : Int32
  metrics : Metrics
  tasks : List Task

/-- `TASK_SCHEMA_VERSION` -/
def taskSchemaVersion : String := "tasks.v2"

/-- The names of the columns -/
def taskHeader : List String :=
  ["BenchmarkVersion", "SchemaVersion", "SuiteId", "RunId", "Seed",
    "Replication", "NumTasks", "Cores", "Topology", "Balancer", "WorkStealing", "StopTime",
    "Scheduler", "Workload", "TaskID", "Nice", "Weight", "Arrival", "Execution",
    "AllocatedCPU", "Remaining", "Started", "Completed", "StartTime", "CompletionTime",
    "ResponseTime", "TurnaroundTime", "WaitTime", "PreemptionCount"]

/-- The fields of the row of a task, as they are printed -/
def taskCells (config : Config) (r : Result) (t : Task) : List String :=
  let row := taskRow t
  [config.benchmarkVersion,
    taskSchemaVersion,
    config.suiteId,
    config.runId,
    toString r.seed.toInt,
    toString r.replication.toInt,
    toString (config.numTasks : ℤ),
    toString config.numCores,
    config.topology,
    if config.topology = "mq" then config.balancer else "na",
    if config.topology = "mq" then workStealingLabel config else "na",
    printDouble config.stopTime,
    r.schedulerName,
    r.workloadName,
    toString (row.taskID.toNat : ℤ),
    toString row.nice,
    toString (row.weight.toNat : ℤ),
    printDouble (.ofRat row.arrival),
    printDouble (.ofRat row.execution),
    printDouble (.ofRat row.allocatedCPU),
    printDouble (.ofRat row.remaining),
    if row.started then "1" else "0",
    if row.completed then "1" else "0",
    printDouble (.ofRat row.startTime),
    printDouble (.ofRat row.completionTime),
    printDouble (.ofRat row.responseTime),
    printDouble (.ofRat row.turnaroundTime),
    printDouble (.ofRat row.waitTime),
    toString (row.preemptionCount.toNat : ℤ)]

def writeTaskHeader : String := line taskHeader

def writeTaskRows (config : Config) (r : Result) : String :=
  String.join (r.tasks.map fun t => line (taskCells config r t))

/-- The fields of the metrics row of an experiment -/
def Result.metricsCells (config : Config) (r : Result) : List String :=
  MetricsRow.metricsCells r.metrics r.schedulerName r.workloadName config r.seed r.replication

/-- `metrics.csv` -/
def metricsCsv (config : Config) (rs : List Result) : String :=
  writeMetricsHeader ++ String.join (rs.map fun r =>
    writeMetricsRow r.metrics r.schedulerName r.workloadName config r.seed r.replication)

/-- `tasks.csv` -/
def tasksCsv (config : Config) (rs : List Result) : String :=
  writeTaskHeader ++ String.join (rs.map (writeTaskRows config))

/-- `workload_gen.name()`, from the key of the workload -/
def workloadName (key : String) : String :=
  if key = "server" then "Server"
  else if key = "desktop" then "Desktop"
  else if key = "google" then "GoogleTraceV3"
  else "AlibabaTraceV2018"

/-- What the loops of `main` leave, from what every experiment comes to -/
def results (config : Config) (outcome : ℕ × String × String → Metrics × List Task) :
    List Result :=
  (combinations config).map fun (rep, workload, scheduler) =>
    { schedulerName := scheduler
      workloadName := workloadName workload
      seed := Int64.ofInt (seedOf config rep)
      replication := Int32.ofInt (rep + 1)
      metrics := (outcome (rep, workload, scheduler)).1
      tasks := (outcome (rep, workload, scheduler)).2 }

/-! ## What is read -/

/-- `run_key_fields` -/
def runKeyFields : List String :=
  ["SuiteId", "RunId", "Seed", "Replication", "NumTasks", "Cores", "Topology", "Balancer",
    "WorkStealing", "StopTime", "Scheduler", "Workload"]

/-- What a row has under its columns -/
def texts (names : List String) (row : DictRow) : List (Option (Option String)) := names.map row.get

/-- The fields of a line, each of which is there -/
def written (cells : List String) : List (Option (Option String)) :=
  cells.map fun cell => some (some cell)

/-- The texts that `run_key` looks at -/
def runKey (row : DictRow) : List (Option (Option String)) := texts runKeyFields row

/-- The texts of an experiment in the columns of `run_key_fields` -/
def Result.runKey (config : Config) (r : Result) : List String :=
  [config.suiteId, config.runId, toString r.seed.toInt, toString r.replication.toInt,
    toString (config.numTasks : ℤ), toString config.numCores, config.topology,
    if config.topology = "mq" then config.balancer else "na",
    if config.topology = "mq" then workStealingLabel config else "na",
    printDouble config.stopTime, r.schedulerName, r.workloadName]

/-! ## The fields are bare -/

section Bare

variable {config : Config} {r : Result} {t : Task}

/-- The texts that a user or a class chooses -/
structure BareNames (config : Config) (r : Result) : Prop where
  benchmarkVersion : Bare config.benchmarkVersion
  suiteId : Bare config.suiteId
  runId : Bare config.runId
  schedulerName : Bare r.schedulerName
  workloadName : Bare r.workloadName

theorem bareLine_metricsHeader : BareLine metricsHeader :=
  ⟨by decide, bare_metricsHeader⟩

theorem bareLine_taskHeader : BareLine taskHeader :=
  ⟨by decide, by decide +kernel⟩

theorem bareLine_metricsCells (haccepted : Accepted config) (hfits : Fits config)
    (h : BareNames config r) : BareLine (r.metricsCells config) :=
  ⟨by simp [Result.metricsCells, MetricsRow.metricsCells], bare_cells haccepted hfits
    ⟨h.benchmarkVersion, h.suiteId, h.runId, h.schedulerName, h.workloadName⟩⟩

/-- The nice value of a task is an `int`. -/
def FitsInt (t : Task) : Prop := -2 ^ 31 ≤ t.nice ∧ t.nice < 2 ^ 31

theorem bareLine_taskCells (haccepted : Accepted config) (hfits : Fits config)
    (h : BareNames config r) (hnice : FitsInt t) : BareLine (taskCells config r t) := by
  have hmetrics := (bareLine_metricsCells haccepted hfits h).2
  simp only [Result.metricsCells, MetricsRow.metricsCells, List.forall_mem_cons] at hmetrics
  have hschema : Bare taskSchemaVersion := by decide
  have hflag : ∀ b : Bool, Bare (if b then "1" else "0") := by decide
  have hniceBare : Bare (toString t.nice) := bare_toString (by obtain ⟨hlo, hhi⟩ := hnice; omega)
  have hrow : (taskRow t).nice = t.nice := rfl
  refine ⟨by simp [taskCells], ?_⟩
  simp only [taskCells, List.forall_mem_cons, hrow]
  simp only [hmetrics, hschema, hflag, hniceBare, bare_printDouble, bare_toString_toNat, true_and]
  simp

end Bare

/-! ## Keys -/

section Keys

variable {config : Config} {r r' : Result} {t : Task}

theorem nodup_taskHeader : taskHeader.Nodup := by
  decide +kernel

/-- The row of a task has the key of its experiment. -/
theorem runKey_taskRow :
    runKey (dictRow taskHeader (taskCells config r t))
      = written (r.runKey config) := by
  have hget (i : ℕ) (key : String) (hkey : taskHeader[i]? = some key) :
      (dictRow taskHeader (taskCells config r t)).get key = some (taskCells config r t)[i]? :=
    get_dictRow nodup_taskHeader hkey
  simp only [runKey, texts, runKeyFields, List.map_cons, List.map_nil]
  rw [hget 2 _ rfl, hget 3 _ rfl, hget 4 _ rfl, hget 5 _ rfl, hget 6 _ rfl, hget 7 _ rfl,
    hget 8 _ rfl, hget 9 _ rfl, hget 10 _ rfl, hget 11 _ rfl, hget 12 _ rfl, hget 13 _ rfl]
  rfl

/-- So has its row in `metrics.csv`. -/
theorem runKey_metricsRow :
    runKey (dictRow metricsHeader (r.metricsCells config))
      = written (r.runKey config) := by
  have hget (i : ℕ) (key : String) (hkey : metricsHeader[i]? = some key) :
      (dictRow metricsHeader (r.metricsCells config)).get key
        = some (r.metricsCells config)[i]? :=
    get_dictRow nodup_metricsHeader hkey
  simp only [runKey, texts, runKeyFields, List.map_cons, List.map_nil]
  rw [hget 2 _ rfl, hget 3 _ rfl, hget 4 _ rfl, hget 5 _ rfl, hget 6 _ rfl, hget 7 _ rfl,
    hget 8 _ rfl, hget 9 _ rfl, hget 10 _ rfl, hget 11 _ rfl, hget 12 _ rfl, hget 13 _ rfl]
  rfl

theorem nodup_select {keyOf : String → String} {names : List String} (h : names.Nodup)
    (wanted : String) : (select keyOf names wanted).Nodup := by
  rw [select]
  split
  · exact h
  · cases names.find? fun name => keyOf name = wanted <;> simp

/-- The loops come to no combination twice. -/
theorem nodup_combinations (config : Config) : (combinations config).Nodup := by
  have hproduct : combinations config = (List.range config.numReplications.toNat).product
      ((selectedWorkloads config).product (selectedSchedulers config)) := by
    simp only [combinations, List.product, List.map_flatMap, List.map_map]
    rfl
  rw [hproduct]
  exact List.nodup_range.product
    ((nodup_select (by decide) _).product (nodup_select (by decide) _))

theorem workloadName_injOn {key key' : String} (hkey : key ∈ workloadKeys)
    (hkey' : key' ∈ workloadKeys) (h : workloadName key = workloadName key') : key = key' := by
  have hall : ∀ k ∈ workloadKeys, ∀ k' ∈ workloadKeys, workloadName k = workloadName k' →
      k = k' := by
    decide +kernel
  exact hall key hkey key' hkey' h

theorem mem_of_mem_select {keyOf : String → String} {names : List String} {wanted name : String}
    (h : name ∈ select keyOf names wanted) : name ∈ names := by
  rw [select] at h
  split at h
  · exact h
  · exact List.mem_of_find?_eq_some (Option.mem_toList.1 h)

/-- **No two experiments of a run have the same key.** -/
theorem nodup_runKeys (outcome : ℕ × String × String → Metrics × List Task)
    (hreplications : config.numReplications < 2 ^ 31) :
    ((results config outcome).map (Result.runKey config)).Nodup := by
  rw [results, List.map_map]
  refine (nodup_combinations config).map_on ?_
  rintro ⟨rep, workload, scheduler⟩ hc ⟨rep', workload', scheduler'⟩ hc' heq
  obtain ⟨hrep, hworkload⟩ : rep < config.numReplications.toNat ∧
      workload ∈ selectedWorkloads config := by
    simp only [combinations, List.mem_flatMap, List.mem_map, List.mem_range, Prod.mk.injEq] at hc
    obtain ⟨_, hrep, _, hworkload, _, -, rfl, rfl, -⟩ := hc
    exact ⟨hrep, hworkload⟩
  obtain ⟨hrep', hworkload'⟩ : rep' < config.numReplications.toNat ∧
      workload' ∈ selectedWorkloads config := by
    simp only [combinations, List.mem_flatMap, List.mem_map, List.mem_range, Prod.mk.injEq] at hc'
    obtain ⟨_, hrep, _, hworkload, _, -, rfl, rfl, -⟩ := hc'
    exact ⟨hrep, hworkload⟩
  simp only [Function.comp_apply, Result.runKey, List.cons.injEq, true_and, and_true] at heq
  obtain ⟨-, hreplication, rfl, hname⟩ := heq
  obtain rfl := workloadName_injOn (mem_of_mem_select hworkload)
    (mem_of_mem_select hworkload') hname
  have htoInt : ∀ rep : ℕ, rep < config.numReplications.toNat →
      (Int32.ofInt (rep + 1)).toInt = rep + 1 := fun rep hrep =>
    Int32.toInt_ofInt_of_le (by omega) (by omega)
  rw [htoInt rep hrep, htoInt rep' hrep'] at hreplication
  have hread := congrArg CStrings.stoi hreplication
  rw [CStrings.stoi_toString ⟨by omega, by omega⟩, CStrings.stoi_toString ⟨by omega, by omega⟩,
    Option.some.injEq] at hread
  obtain rfl : rep = rep' := by omega
  rfl

end Keys

/-! ## The files -/

section Files

variable {config : Config} {rs : List Result}

/-- Filtering the blocks of a list by the key that a block has throughout -/
theorem filter_flatMap_of_key {α β κ : Type*} [DecidableEq κ] {l : List α} {g : α → List β}
    {f : α → κ} (key : β → κ) (hnodup : (l.map f).Nodup) (hkey : ∀ a ∈ l, ∀ b ∈ g a, key b = f a)
    {a : α} (ha : a ∈ l) : (l.flatMap g).filter (fun b => key b = f a) = g a := by
  induction l with
  | nil => exact absurd ha List.not_mem_nil
  | cons d l ih =>
    rw [List.map_cons, List.nodup_cons] at hnodup
    have hrest := fun d hd => hkey d (List.mem_cons_of_mem _ hd)
    rw [List.flatMap_cons, List.filter_append]
    rcases List.mem_cons.1 ha with rfl | ha
    · have hnone : (l.flatMap g).filter (fun b => key b = f a) = [] := by
        refine List.filter_eq_nil_iff.2 fun b hb => ?_
        obtain ⟨d, hd, hb⟩ := List.mem_flatMap.1 hb
        rw [decide_eq_true_eq, hrest d hd b hb]
        exact fun heq => hnodup.1 (heq ▸ List.mem_map_of_mem hd)
      rw [hnone, List.append_nil, List.filter_eq_self]
      intro b hb
      rw [decide_eq_true_eq, hkey a List.mem_cons_self b hb]
    · have hnone : (g d).filter (fun b => key b = f a) = [] := by
        refine List.filter_eq_nil_iff.2 fun b hb => ?_
        rw [decide_eq_true_eq, hkey d List.mem_cons_self b hb]
        exact fun heq => hnodup.1 (heq ▸ List.mem_map_of_mem ha)
      rw [hnone, List.nil_append, ih hnodup.2 hrest ha]

theorem toList_join (lines : List String) :
    (String.join lines).toList = lines.flatMap String.toList := by
  have hfold : ∀ acc : String, (lines.foldl (fun r s => r ++ s) acc).toList
      = acc.toList ++ lines.flatMap String.toList := by
    induction lines with
    | nil => simp
    | cons s lines ih =>
      intro acc
      rw [List.foldl_cons, ih, String.toList_append, List.flatMap_cons, List.append_assoc]
  exact hfold ""

theorem toList_metricsCsv : (metricsCsv config rs).toList
    = (metricsHeader :: rs.map (Result.metricsCells config)).flatMap fun cells =>
        (line cells).toList := by
  rw [metricsCsv, String.toList_append, toList_join, List.flatMap_cons, List.flatMap_map,
    List.flatMap_map]
  rfl

theorem toList_tasksCsv : (tasksCsv config rs).toList
    = (taskHeader :: rs.flatMap fun r => r.tasks.map (taskCells config r)).flatMap fun cells =>
        (line cells).toList := by
  have hrows : ∀ r, (writeTaskRows config r).toList
      = (r.tasks.map (taskCells config r)).flatMap fun cells => (line cells).toList := by
    intro r
    rw [writeTaskRows, toList_join, List.flatMap_map, List.flatMap_map]
  rw [tasksCsv, String.toList_append, toList_join, List.flatMap_cons, List.flatMap_map,
    List.flatMap_assoc]
  simp only [hrows]
  rfl

theorem written_injective : Function.Injective written := by
  refine List.map_injective_iff.2 fun s s' h => ?_
  simpa using h

/-- Files of bare texts are read back. -/
theorem readBack_of_bareLine
    (hmetrics : ∀ r ∈ rs, BareLine (r.metricsCells config))
    (htasks : ∀ r ∈ rs, ∀ t ∈ r.tasks, BareLine (taskCells config r t)) :
    dictReader (metricsCsv config rs)
        = .ok (rs.map fun r => dictRow metricsHeader (r.metricsCells config)) ∧
      dictReader (tasksCsv config rs)
        = .ok (rs.flatMap fun r => r.tasks.map fun t =>
            dictRow taskHeader (taskCells config r t)) := by
  constructor
  · rw [dictReader_table toList_metricsCsv bareLine_metricsHeader, List.map_map]
    · rfl
    · intro cells hcells
      obtain ⟨r, hr, rfl⟩ := List.mem_map.1 hcells
      exact hmetrics r hr
  · rw [dictReader_table toList_tasksCsv bareLine_taskHeader, List.map_flatMap]
    · simp only [List.map_map]
      rfl
    · intro cells hcells
      obtain ⟨r, hr, hcells⟩ := List.mem_flatMap.1 hcells
      obtain ⟨t, ht, rfl⟩ := List.mem_map.1 hcells
      exact htasks r hr t ht

/-- The files of an accepted configuration are read back if its ids are bare. -/
theorem readBack_results {config : Config} (haccepted : validateConfig config = .ok ())
    (hfits : Fits config)
    (hids : Bare config.benchmarkVersion ∧ Bare config.suiteId ∧ Bare config.runId)
    {outcome : ℕ × String × String → Metrics × List Task}
    (hnice : ∀ c, ∀ t ∈ (outcome c).2, FitsInt t) :
    dictReader (metricsCsv config (results config outcome)) = .ok ((results config outcome).map
        fun r => dictRow metricsHeader (r.metricsCells config)) ∧
      dictReader (tasksCsv config (results config outcome)) = .ok
        ((results config outcome).flatMap fun r => r.tasks.map fun t =>
          dictRow taskHeader (taskCells config r t)) := by
  have haccepted' := validateConfig_eq_ok.1 haccepted
  have hbare : ∀ r ∈ results config outcome, BareNames config r := by
    intro r hr
    obtain ⟨⟨rep, workload, scheduler⟩, hc, rfl⟩ := List.mem_map.1 hr
    simp only [combinations, List.mem_flatMap, List.mem_map, Prod.mk.injEq] at hc
    obtain ⟨_, -, _, hworkload, _, hscheduler, rfl, rfl, rfl⟩ := hc
    have hschedulers : ∀ name ∈ schedulerNames, Bare name := by decide +kernel
    have hworkloads : ∀ key ∈ workloadKeys, Bare (workloadName key) := by decide +kernel
    exact ⟨hids.1, hids.2.1, hids.2.2, hschedulers _ (mem_of_mem_select hscheduler),
      hworkloads _ (mem_of_mem_select hworkload)⟩
  have htask : ∀ r ∈ results config outcome, ∀ t ∈ r.tasks, FitsInt t := by
    intro r hr t ht
    obtain ⟨⟨rep, workload, scheduler⟩, -, rfl⟩ := List.mem_map.1 hr
    exact hnice (rep, workload, scheduler) t ht
  exact readBack_of_bareLine
    (fun r hr => bareLine_metricsCells haccepted' hfits (hbare r hr))
    (fun r hr t ht => bareLine_taskCells haccepted' hfits (hbare r hr) (htask r hr t ht))

end Files

end RunFiles

end SchedSim
