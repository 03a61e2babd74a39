import SchedSim.LastWrite
import SchedSim.NiceAverages
import SchedSim.RunFiles
import SchedSim.RunPlan

/-!
# Comparisons with MLFQ

`scripts/aggregate_results.py` reads the files of all runs and writes a row of
`fairness_vs_characteristics.csv` for every row with a fairness-oriented scheduler: beside its own
metrics there are the differences to those of MLFQ and the characteristics of the workload, which
it looks up in tables that are filled row by row.  Numbers are exact; the columns that copy the run
over are left out, and so are the ids that a manifest has for a row without ids.

* `AggregateResults.aggregate` — from the texts of the files to the rows.
* `AggregateResults.lookup_baselineMap`, `AggregateResults.lookup_charsByKey` — what is in the
  tables.
* `comparisons` — every experiment is compared to that of MLFQ in its own run, replication and
  workload.
-/

namespace SchedSim

namespace AggregateResults

open CommandLine Csv MetricsRow RunFiles

/-! ## Reading -/

/-- `to_float` of a text: what is no number is zero. -/
def floatOfText (py : Builtins) (text : String) : ℚ :=
  match py.floatOfStr text with
  | some (.finite x _) => x
  | _ => 0

/-- `to_float(raw.get(column, 0.0))` -/
def toFloat (py : Builtins) (raw : DictRow) (column : String) : ℚ :=
  match raw.get column with
  | some (some text) => floatOfText py text
  | _ => 0

/-- `to_int(raw.get(column, 0))` -/
def toInt (py : Builtins) (raw : DictRow) (column : String) : ℤ :=
  Builtins.truncate (toFloat py raw column)

/-- `raw.get(column, "")`, of a row with all its columns -/
def text (raw : DictRow) (column : String) : String :=
  ((raw.get column).getD none).getD ""

/-- `raw.get(column) or other` -/
def textOr (raw : DictRow) (column other : String) : String :=
  if text raw column = "" then other else text raw column

/-- A directory `runs/<suite>/<run>`, with the texts of its two files -/
structure RunDirectory where
  suiteName : String
  runName : String
  metricsCsv : String
  tasksCsv : String

/-- The columns of `run_key_fields`, as they are read -/
def readRunKey (py : Builtins) (suiteId runId : String) (raw : DictRow) : RunKeyFields where
  suiteId := suiteId
  runId := runId
  seed := toInt py raw "Seed"
  replication := toInt py raw "Replication"
  numTasks := toInt py raw "NumTasks"
  cores := toInt py raw "Cores"
  topology := text raw "Topology"
  balancer := text raw "Balancer"
  workStealing := text raw "WorkStealing"
  stopTime := toFloat py raw "StopTime"
  scheduler := text raw "Scheduler"
  workload := text raw "Workload"

/-- A row of `metrics_enriched.csv`, with the metrics that are compared -/
structure EnrichedRow where
  runKey : RunKeyFields
  throughput : ℚ
  meanRT : ℚ

def enrichedRow (py : Builtins) (suiteId runId : String) (raw : DictRow) : EnrichedRow where
  runKey := readRunKey py suiteId runId raw
  throughput := toFloat py raw "Throughput"
  meanRT := toFloat py raw "MeanRT"

/-- What the first row has for ids goes for all rows of a file. -/
def readMetrics (py : Builtins) (dir : RunDirectory) : Except CsvError (List EnrichedRow) := do
  match ← dictReader dir.metricsCsv with
  | [] => .ok []
  | first :: rest =>
    let suiteId := textOr first "SuiteId" dir.suiteName
    let runId := textOr first "RunId" dir.runName
    .ok ((first :: rest).map (enrichedRow py suiteId runId))

/-- A row of `task_rows`, with the columns that characterise a workload -/
structure TaskRecord where
  runKey : RunKeyFields
  nice : ℤ
  weight : ℚ
  arrival : ℚ
  execution : ℚ

def taskRecord (py : Builtins) (suiteId runId : String) (raw : DictRow) : TaskRecord where
  runKey := readRunKey py suiteId runId raw
  nice := toInt py raw "Nice"
  weight := toFloat py raw "Weight"
  arrival := toFloat py raw "Arrival"
  execution := toFloat py raw "Execution"

def readTasks (py : Builtins) (dir : RunDirectory) : Except CsvError (List TaskRecord) := do
  let rawRows ← dictReader dir.tasksCsv
  .ok (rawRows.map fun raw =>
    taskRecord py (textOr raw "SuiteId" dir.suiteName) (textOr raw "RunId" dir.runName) raw)

/-! ## Characteristics of a workload -/

/-- A row of `workload_characteristics.csv` -/
structure Characteristics where
  arrivalSpan : ℚ
  interArrivalMean : ℚ
  interArrivalCv : ℚ
  executionMean : ℚ
  executionCv : ℚ
  weightMean : ℚ
  weightCv : ℚ
  niceStdDev : ℚ
  uniqueNice : ℕ

section Characteristics

variable (pstdev : List ℚ → ℚ)

/-- `stddev`, with `statistics.pstdev` -/
def stddev (values : List ℚ) : ℚ := if 1 < values.length then pstdev values else 0

def cv (values : List ℚ) : ℚ :=
  if 0 < mean values then stddev pstdev values / mean values else 0

/-- What is appended to `workload_char_rows` for a group of tasks -/
def characteristics (tasks : List TaskRecord) : Characteristics :=
  let arrivals := (tasks.map TaskRecord.arrival).mergeSort (· ≤ ·)
  let interArrivals := List.zipWith (fun next previous => next - previous) arrivals.tail arrivals
  let executions := tasks.map TaskRecord.execution
  let weights := tasks.map TaskRecord.weight
  let nices := tasks.map TaskRecord.nice
  { arrivalSpan := arrivals.getLast?.getD 0 - arrivals.head?.getD 0
    interArrivalMean := mean interArrivals
    interArrivalCv := cv pstdev interArrivals
    executionMean := mean executions
    executionCv := cv pstdev executions
    weightMean := mean weights
    weightCv := cv pstdev weights
    niceStdDev := stddev pstdev (nices.map fun nice => (nice : ℚ))
    uniqueNice := nices.dedup.length }

def workloadCharRows (tasks : List TaskRecord) : List (RunKeyFields × Characteristics) :=
  (Grouping.tally TaskRecord.runKey [] (fun group task => group ++ [task]) tasks).map
    fun (key, group) => (key, characteristics pstdev group)

end Characteristics

/-! ## Tables -/

/-- The columns of `baseline_key`, which are all but the scheduler -/
def baselineKey (key : RunKeyFields) : RunKeyFields := { key with scheduler := "" }

def baselineMap (metricsRows : List EnrichedRow) : List (RunKeyFields × EnrichedRow) :=
  LastWrite.contents (fun row => baselineKey row.runKey) id
    (metricsRows.filter fun row => row.runKey.scheduler = "MLFQ")

def charsByKey (rows : List (RunKeyFields × Characteristics)) :
    List (RunKeyFields × Characteristics) :=
  LastWrite.contents Prod.fst Prod.snd rows

/-- The `duplicate_config` issues: a key that several rows have, and how many -/
def duplicateConfigs (metricsRows : List EnrichedRow) : List (RunKeyFields × ℕ) :=
  ((Grouping.tally EnrichedRow.runKey [] (fun group row => group ++ [row]) metricsRows).filter
    fun (_, rows) => 1 < rows.length).map fun (key, rows) => (key, rows.length)

/-- A row of `fairness_vs_characteristics.csv` -/
structure ComparisonRow where
  runKey : RunKeyFields
  throughput : ℚ
  meanRT : ℚ
  throughputDeltaVsMlfq : ℚ
  meanRTDeltaVsMlfq : ℚ
  executionCv : ℚ
  interArrivalCv : ℚ
  weightCv : ℚ
  uniqueNice : ℕ

/-- What is appended to `fairness_vs_chars`, from what is found in the tables -/
def comparisonRow (row : EnrichedRow) (baseline : Option EnrichedRow)
    (chars : Option Characteristics) : ComparisonRow where
  runKey := row.runKey
  throughput := row.throughput
  meanRT := row.meanRT
  throughputDeltaVsMlfq := baseline.elim 0 fun b => row.throughput - b.throughput
  meanRTDeltaVsMlfq := baseline.elim 0 fun b => row.meanRT - b.meanRT
  executionCv := chars.elim 0 Characteristics.executionCv
  interArrivalCv := chars.elim 0 Characteristics.interArrivalCv
  weightCv := chars.elim 0 Characteristics.weightCv
  uniqueNice := chars.elim 0 Characteristics.uniqueNice

/-- The schedulers that are compared to MLFQ -/
def fairnessOriented : List String := ["CFS", "EEVDF", "Stride"]

def fairnessVsChars (pstdev : List ℚ → ℚ) (metricsRows : List EnrichedRow)
    (tasks : List TaskRecord) : List ComparisonRow :=
  let baselines := baselineMap metricsRows
  let chars := charsByKey (workloadCharRows pstdev tasks)
  (metricsRows.filter fun row => row.runKey.scheduler ∈ fairnessOriented).map fun row =>
    comparisonRow row (baselines.lookup (baselineKey row.runKey)) (chars.lookup row.runKey)

/-- The script, from the files to the `duplicate_config` issues and the comparisons -/
def aggregate (py : Builtins) (pstdev : List ℚ → ℚ) (dirs : List RunDirectory) :
    Except CsvError (List (RunKeyFields × ℕ) × List ComparisonRow) := do
  let metricsRows := (← dirs.mapM (readMetrics py)).flatten
  let tasks := (← dirs.mapM (readTasks py)).flatten
  .ok (duplicateConfigs metricsRows, fairnessVsChars pstdev metricsRows tasks)

/-! ## What is in the tables -/

section Tables

variable {metricsRows : List EnrichedRow} {tasks : List TaskRecord} {pstdev : List ℚ → ℚ}
  {key : RunKeyFields} {row : EnrichedRow}

theorem eq_of_baselineKey {key' : RunKeyFields} (h : baselineKey key = baselineKey key')
    (hscheduler : key.scheduler = key'.scheduler) : key = key' := by
  cases key
  cases key'
  simp only [baselineKey, RunKeyFields.mk.injEq] at h hscheduler ⊢
  simp [h, hscheduler]

/-- When all rows have keys of their own, the baseline is the row of MLFQ with the same key. -/
theorem lookup_baselineMap (hnodup : (metricsRows.map EnrichedRow.runKey).Nodup) :
    (baselineMap metricsRows).lookup (baselineKey key) = some row ↔
      row ∈ metricsRows ∧ row.runKey = { key with scheduler := "MLFQ" } := by
  have hnames : ((metricsRows.filter fun row => row.runKey.scheduler = "MLFQ").map
      fun row => baselineKey row.runKey).Nodup := by
    have hkeys := List.Nodup.of_map _ hnodup
    apply List.Nodup.map_on _ (hkeys.filter _)
    intro row hrow row' hrow' heq
    simp only [List.mem_filter, decide_eq_true_eq] at hrow hrow'
    apply List.inj_on_of_nodup_map hnodup hrow.1 hrow'.1
    exact eq_of_baselineKey heq (hrow.2.trans hrow'.2.symm)
  unfold baselineMap
  rw [LastWrite.lookup_eq_some_iff_mem LastWrite.nodup_contents,
    LastWrite.mem_contents_of_nodup hnames]
  constructor
  · rintro ⟨row', hrow', hkey, rfl⟩
    rw [List.mem_filter, decide_eq_true_eq] at hrow'
    refine ⟨hrow'.1, eq_of_baselineKey hkey hrow'.2⟩
  · rintro ⟨hrow, hkey⟩
    refine ⟨row, ?_, ?_, rfl⟩
    · simp [hrow, hkey]
    · rw [hkey]
      rfl

/-- The characteristics are those of the tasks with the key. -/
theorem lookup_charsByKey :
    (charsByKey (workloadCharRows pstdev tasks)).lookup key
      = if (tasks.filter fun task => task.runKey = key) = [] then none
        else some (characteristics pstdev (tasks.filter fun task => task.runKey = key)) := by
  obtain ⟨hnodup, -, -⟩ :=
    Grouping.tally_spec TaskRecord.runKey [] (fun group task => group ++ [task]) tasks
  have hnames : ((workloadCharRows pstdev tasks).map Prod.fst).Nodup := by
    unfold workloadCharRows
    rwa [List.map_map]
  have hmem : ∀ chars, (charsByKey (workloadCharRows pstdev tasks)).lookup key = some chars ↔
      (tasks.filter fun task => task.runKey = key) ≠ [] ∧
        characteristics pstdev (tasks.filter fun task => task.runKey = key) = chars := by
    intro chars
    unfold charsByKey
    rw [LastWrite.lookup_eq_some_iff_mem LastWrite.nodup_contents,
      LastWrite.mem_contents_of_nodup hnames]
    constructor
    · rintro ⟨entry, hentry, rfl, rfl⟩
      obtain ⟨⟨key, group⟩, hgroup, rfl⟩ := List.mem_map.1 hentry
      obtain ⟨heq, hne⟩ := Grouping.mem_tally_append.1 hgroup
      rw [← heq]
      exact ⟨hne, rfl⟩
    · rintro ⟨hne, rfl⟩
      exact ⟨(key, _), List.mem_map.2 ⟨(key, _), Grouping.mem_tally_append.2 ⟨rfl, hne⟩, rfl⟩,
        rfl, rfl⟩
  split
  next hnil =>
    rw [Option.eq_none_iff_forall_ne_some]
    intro chars hchars
    exact ((hmem chars).1 hchars).1 hnil
  next hne => exact (hmem _).2 ⟨hne, rfl⟩

theorem duplicateConfigs_eq_nil (hnodup : (metricsRows.map EnrichedRow.runKey).Nodup) :
    duplicateConfigs metricsRows = [] := by
  unfold duplicateConfigs
  rw [List.map_eq_nil_iff, List.filter_eq_nil_iff]
  rintro ⟨key, rows⟩ hentry hlong
  obtain ⟨rfl, -⟩ := Grouping.mem_tally_append.1 hentry
  have hone := List.nodup_iff_count_le_one.1 hnodup key
  rw [List.count, List.countP_map, List.countP_eq_length_filter] at hone
  have hsame : (fun row : EnrichedRow => decide (row.runKey = key))
      = (fun k => k == key) ∘ EnrichedRow.runKey := by
    funext row
    rfl
  rw [← hsame] at hone
  simp only [decide_eq_true_eq] at hlong
  omega

end Tables

/-! ## Runs of the program -/

/-- A run of the program: its configuration, what its experiments come to, and the directories that
its artifacts are in -/
structure Run where
  suiteName : String
  runName : String
  config : Config
  outcome : ℕ × String × String → Metrics × List Task

namespace Run

/-- What the program and the reader need -/
structure Valid (run : Run) : Prop where
  accepted : validateConfig run.config = .ok ()
  fits : Fits run.config
  replications : run.config.numReplications < 2 ^ 31
  bare : Bare run.config.benchmarkVersion ∧ Bare run.config.suiteId ∧ Bare run.config.runId
  runId : run.config.runId ≠ ""
  nice : ∀ c, ∀ t ∈ (run.outcome c).2, FitsInt t

/-- The experiment of a combination -/
def result (run : Run) (c : ℕ × String × String) : Result where
  schedulerName := c.2.2
  workloadName := workloadName c.2.1
  seed := Int64.ofInt (seedOf run.config c.1)
  replication := Int32.ofInt (c.1 + 1)
  metrics := (run.outcome c).1
  tasks := (run.outcome c).2

def directory (run : Run) : RunDirectory where
  suiteName := run.suiteName
  runName := run.runName
  metricsCsv := metricsCsv run.config (results run.config run.outcome)
  tasksCsv := tasksCsv run.config (results run.config run.outcome)

variable (py : Builtins) (pstdev : List ℚ → ℚ) (run : Run) (c : ℕ × String × String)

/-- The row of an experiment, as it is read -/
def enriched : EnrichedRow :=
  enrichedRow py run.config.suiteId run.config.runId
    (dictRow metricsHeader ((run.result c).metricsCells run.config))

/-- The rows of its tasks -/
def records : List TaskRecord :=
  (run.result c).tasks.map fun t => taskRecord py run.config.suiteId run.config.runId
    (dictRow taskHeader (taskCells run.config (run.result c) t))

/-- The characteristics of its workload, if there are any tasks -/
def characteristics? : Option Characteristics :=
  if run.records py c = [] then none else some (characteristics pstdev (run.records py c))

/-- The experiment of MLFQ in the same replication and with the same workload, if MLFQ is run -/
def mlfq : Option (ℕ × String × String) :=
  if "MLFQ" ∈ selectedSchedulers run.config then some (c.1, c.2.1, "MLFQ") else none

end Run

/-- `float` reads integers exactly where doubles hold them all. -/
def ReadsIntegers (py : Builtins) : Prop :=
  ∀ k : ℤ, |k| < 2 ^ 53 → py.floatOfStr (toString k) = some (.ofRat k)

/-- All experiments of some runs -/
def experimentsOf (runs : List Run) : List (Run × (ℕ × String × String)) :=
  runs.flatMap fun run => (combinations run.config).map fun c => (run, c)

section Runs

variable {py : Builtins} {pstdev : List ℚ → ℚ} {run : Run} {runs : List Run}
  {c c' : ℕ × String × String}

theorem results_eq : results run.config run.outcome = (combinations run.config).map run.result := by
  apply List.map_congr_left
  rintro ⟨rep, workload, scheduler⟩ -
  rfl

/-! ### Keys -/

/-- Only the texts of the key matter. -/
theorem readRunKey_congr {suiteId runId : String} {raw raw' : DictRow}
    (h : RunFiles.runKey raw = RunFiles.runKey raw') :
    readRunKey py suiteId runId raw = readRunKey py suiteId runId raw' := by
  simp only [RunFiles.runKey, texts, runKeyFields, List.map_cons, List.map_nil, List.cons.injEq,
    and_true] at h
  obtain ⟨-, -, hseed, hreplication, htasks, hcores, htopology, hbalancer, hstealing, hstop,
    hscheduler, hworkload⟩ := h
  simp only [readRunKey, toInt, toFloat, text, hseed, hreplication, htasks, hcores, htopology,
    hbalancer, hstealing, hstop, hscheduler, hworkload]

theorem runKey_of_mem_records {task : TaskRecord} (h : task ∈ run.records py c) :
    task.runKey = (run.enriched py c).runKey := by
  obtain ⟨t, -, rfl⟩ := List.mem_map.1 h
  exact readRunKey_congr (runKey_taskRow.trans runKey_metricsRow.symm)

/-- An integer of this size is a double. -/
theorem ofRat_intCast {k : ℤ} (hk : |k| < 2 ^ 53) : ∃ exact, Double.ofRat k = .finite k exact := by
  have hlt : |(k : ℚ)| < 2 ^ 53 := by exact_mod_cast hk
  have hexact : Binary64.nearest (k : ℚ) = k ∧ |(k : ℚ)| < 2 ^ 1024 :=
    ⟨Binary64.nearest_intCast_of_lt hk, hlt.trans (pow_lt_pow_right₀ (by norm_num) (by norm_num))⟩
  exact ⟨hexact, Double.ofRat_of_exact hexact⟩

/-- A printed integer that doubles hold is read as it is. -/
theorem floatOfStr_toString (hpy : ReadsIntegers py) {k : ℤ} (hk : |k| < 2 ^ 53) :
    ∃ exact, py.floatOfStr (toString k) = some (.finite k exact) := by
  obtain ⟨exact, hfinite⟩ := ofRat_intCast hk
  exact ⟨exact, (hpy k hk).trans (congrArg some hfinite)⟩

theorem floatOfText_toString (hpy : ReadsIntegers py) {k : ℤ} (hk : |k| < 2 ^ 53) :
    floatOfText py (toString k) = k := by
  obtain ⟨exact, hread⟩ := floatOfStr_toString hpy hk
  unfold floatOfText
  rw [hread]

/-- The texts of the key of an experiment -/
theorem runKey_result (run : Run) (c : ℕ × String × String) :
    RunFiles.runKey (dictRow metricsHeader ((run.result c).metricsCells run.config))
      = written ((run.result c).runKey run.config) := runKey_metricsRow

/-- What the key of an experiment says of it -/
theorem enriched_runKey (hpy : ReadsIntegers py) (run : Run) (c : ℕ × String × String) :
    (run.enriched py c).runKey.suiteId = run.config.suiteId ∧
      (run.enriched py c).runKey.runId = run.config.runId ∧
      (run.enriched py c).runKey.replication = (Int32.ofInt (c.1 + 1)).toInt ∧
      (run.enriched py c).runKey.scheduler = c.2.2 ∧
      (run.enriched py c).runKey.workload = workloadName c.2.1 := by
  have hkey := runKey_result run c
  simp only [RunFiles.runKey, texts, runKeyFields, written, Result.runKey, List.map_cons,
    List.map_nil, List.cons.injEq, and_true] at hkey
  obtain ⟨-, -, -, hreplication, -, -, -, -, -, -, hscheduler, hworkload⟩ := hkey
  have hbound : |(Int32.ofInt ((c.1 : ℤ) + 1)).toInt| < 2 ^ 53 := by
    have := Int32.minValue_le_toInt (Int32.ofInt ((c.1 : ℤ) + 1))
    have := Int32.toInt_lt (Int32.ofInt ((c.1 : ℤ) + 1))
    have := Int32.le_toInt (Int32.ofInt ((c.1 : ℤ) + 1))
    rw [abs_lt]
    omega
  refine ⟨rfl, rfl, ?_, ?_, ?_⟩
  · simp only [Run.enriched, enrichedRow, readRunKey, toInt, toFloat, hreplication]
    rw [Run.result, floatOfText_toString hpy hbound, Builtins.truncate_intCast]
  · simp only [Run.enriched, enrichedRow, readRunKey, text, hscheduler]
    rfl
  · simp only [Run.enriched, enrichedRow, readRunKey, text, hworkload]
    rfl

/-- The scheduler changes nothing else in a key. -/
theorem enriched_withScheduler (scheduler : String) :
    (run.enriched py (c.1, c.2.1, scheduler)).runKey
      = { (run.enriched py c).runKey with scheduler := scheduler } := by
  have hkey := runKey_result run c
  have hkey' := runKey_result run (c.1, c.2.1, scheduler)
  simp only [RunFiles.runKey, texts, runKeyFields, written, Result.runKey, List.map_cons,
    List.map_nil, List.cons.injEq, and_true] at hkey hkey'
  simp only [Run.enriched, enrichedRow, readRunKey, toInt, toFloat, text, hkey, hkey']
  rfl

theorem mem_combinations : c ∈ combinations run.config ↔
    c.1 < run.config.numReplications.toNat ∧ c.2.1 ∈ selectedWorkloads run.config ∧
      c.2.2 ∈ selectedSchedulers run.config := by
  obtain ⟨rep, workload, scheduler⟩ := c
  simp [combinations]

/-- Within a run the key tells the experiments apart. -/
theorem eq_of_enriched_runKey (hpy : ReadsIntegers py)
    (hreplications : run.config.numReplications < 2 ^ 31) (hc : c ∈ combinations run.config)
    (hc' : c' ∈ combinations run.config)
    (h : (run.enriched py c).runKey = (run.enriched py c').runKey) : c = c' := by
  obtain ⟨-, -, hreplication, hscheduler, hworkload⟩ := enriched_runKey hpy run c
  obtain ⟨-, -, hreplication', hscheduler', hworkload'⟩ :=
    enriched_runKey hpy run c'
  rw [h] at hreplication hscheduler hworkload
  obtain ⟨hrep, hw, -⟩ := mem_combinations.1 hc
  obtain ⟨hrep', hw', -⟩ := mem_combinations.1 hc'
  have htoInt : ∀ rep : ℕ, rep < run.config.numReplications.toNat →
      (Int32.ofInt (rep + 1)).toInt = rep + 1 := fun rep hrep =>
    Int32.toInt_ofInt_of_le (by omega) (by omega)
  have heq := hreplication'.symm.trans hreplication
  rw [htoInt _ hrep, htoInt _ hrep'] at heq
  refine Prod.ext (by omega) (Prod.ext ?_ (hscheduler.symm.trans hscheduler'))
  exact workloadName_injOn (mem_of_mem_select hw) (mem_of_mem_select hw')
    (hworkload.symm.trans hworkload')

variable (hpy : ReadsIntegers py) (hvalid : ∀ run ∈ runs, run.Valid)
  (hdistinct : (runs.map fun run => (run.config.suiteId, run.config.runId)).Nodup)

theorem mem_experimentsOf {x : Run × (ℕ × String × String)} :
    x ∈ experimentsOf runs ↔ x.1 ∈ runs ∧ x.2 ∈ combinations x.1.config := by
  obtain ⟨run, c⟩ := x
  simp only [experimentsOf, List.mem_flatMap, List.mem_map, Prod.mk.injEq]
  constructor
  · rintro ⟨run', hrun, c', hc, rfl, rfl⟩
    exact ⟨hrun, hc⟩
  · rintro ⟨hrun, hc⟩
    exact ⟨run, hrun, c, hc, rfl, rfl⟩

include hpy hvalid hdistinct

/-- So it does over all runs. -/
theorem nodup_experimentKeys :
    ((experimentsOf runs).map fun x => (x.1.enriched py x.2).runKey).Nodup := by
  unfold experimentsOf
  simp only [List.map_flatMap, List.map_map, Function.comp_def]
  rw [List.nodup_flatMap]
  constructor
  · intro run hrun
    apply (nodup_combinations run.config).map_on
    intro c hc c' hc' heq
    exact eq_of_enriched_runKey hpy (hvalid run hrun).replications hc hc' heq
  · refine (List.pairwise_map.1 hdistinct).imp ?_
    intro run run' hne key hkey hkey'
    obtain ⟨c, -, rfl⟩ := List.mem_map.1 hkey
    obtain ⟨c', -, heq⟩ := List.mem_map.1 hkey'
    obtain ⟨hsuite, hrun, -⟩ := enriched_runKey hpy run c
    obtain ⟨hsuite', hrun', -⟩ := enriched_runKey hpy run' c'
    rw [heq] at hsuite' hrun'
    exact hne (Prod.ext (hsuite.symm.trans hsuite') (hrun.symm.trans hrun'))

/-- The rows with the key of an experiment are those of its tasks. -/
theorem records_of_key {x : Run × (ℕ × String × String)} (hx : x ∈ experimentsOf runs) :
    ((experimentsOf runs).flatMap fun x => x.1.records py x.2).filter
        (fun task => task.runKey = (x.1.enriched py x.2).runKey) = x.1.records py x.2 :=
  filter_flatMap_of_key TaskRecord.runKey (nodup_experimentKeys hpy hvalid hdistinct)
    (fun _ _ _ htask => runKey_of_mem_records htask) hx

/-- What is found for the baseline of an experiment is the experiment of MLFQ. -/
theorem lookup_mlfq (hc : c ∈ combinations run.config) (hrun : run ∈ runs) :
    (baselineMap ((experimentsOf runs).map fun x => x.1.enriched py x.2)).lookup
        (baselineKey (run.enriched py c).runKey) = (run.mlfq c).map (run.enriched py) := by
  have hkeys : (((experimentsOf runs).map fun x => x.1.enriched py x.2).map
      EnrichedRow.runKey).Nodup := by
    rw [List.map_map]
    exact nodup_experimentKeys hpy hvalid hdistinct
  obtain ⟨hrep, hworkload, -⟩ := mem_combinations.1 hc
  unfold Run.mlfq
  split
  next hselected =>
    apply (lookup_baselineMap hkeys).2
    refine ⟨List.mem_map.2 ⟨(run, (c.1, c.2.1, "MLFQ")), mem_experimentsOf.2 ⟨hrun, ?_⟩, rfl⟩,
      enriched_withScheduler "MLFQ"⟩
    exact mem_combinations.2 ⟨hrep, hworkload, hselected⟩
  next hselected =>
    rw [Option.map_none, Option.eq_none_iff_forall_ne_some]
    intro row hrow
    obtain ⟨hmem, hkey⟩ := (lookup_baselineMap hkeys).1 hrow
    obtain ⟨⟨run', c'⟩, hx, rfl⟩ := List.mem_map.1 hmem
    obtain ⟨hrun', hc'⟩ := mem_experimentsOf.1 hx
    obtain ⟨hsuite, hid, -, hscheduler, -⟩ := enriched_runKey hpy run' c'
    obtain ⟨hsuite', hid', -⟩ := enriched_runKey hpy run c
    rw [hkey] at hsuite hid hscheduler
    obtain rfl : run = run' := List.inj_on_of_nodup_map hdistinct hrun hrun'
      (Prod.ext (hsuite'.symm.trans hsuite) (hid'.symm.trans hid))
    apply hselected
    rw [show "MLFQ" = c'.2.2 from hscheduler]
    exact (mem_combinations.1 hc').2.2

end Runs

/-! ### Reading what the program has written -/

section Reading

variable {py : Builtins} {run : Run} {c : ℕ × String × String}

/-- The rows have their own ids. -/
theorem textOr_metricsRow (h : run.Valid) :
    textOr (dictRow metricsHeader ((run.result c).metricsCells run.config)) "SuiteId" run.suiteName
        = run.config.suiteId ∧
      textOr (dictRow metricsHeader ((run.result c).metricsCells run.config)) "RunId" run.runName
        = run.config.runId := by
  have hkey := runKey_result run c
  simp only [RunFiles.runKey, texts, runKeyFields, written, Result.runKey, List.map_cons,
    List.map_nil, List.cons.injEq] at hkey
  obtain ⟨hsuite, hrun, -⟩ := hkey
  have haccepted := validateConfig_eq_ok.1 h.accepted
  simp [textOr, text, hsuite, hrun, haccepted.suiteId, h.runId]

theorem textOr_taskRow (h : run.Valid) (t : Task) :
    textOr (dictRow taskHeader (taskCells run.config (run.result c) t)) "SuiteId" run.suiteName
        = run.config.suiteId ∧
      textOr (dictRow taskHeader (taskCells run.config (run.result c) t)) "RunId" run.runName
        = run.config.runId := by
  have hkey : RunFiles.runKey (dictRow taskHeader (taskCells run.config (run.result c) t))
      = written ((run.result c).runKey run.config) := runKey_taskRow
  simp only [RunFiles.runKey, texts, runKeyFields, written, Result.runKey, List.map_cons,
    List.map_nil, List.cons.injEq] at hkey
  obtain ⟨hsuite, hrun, -⟩ := hkey
  have haccepted := validateConfig_eq_ok.1 h.accepted
  simp [textOr, text, hsuite, hrun, haccepted.suiteId, h.runId]

theorem readMetrics_directory (h : run.Valid) : readMetrics py run.directory
    = .ok ((combinations run.config).map (run.enriched py)) := by
  obtain ⟨hread, -⟩ := readBack_results h.accepted h.fits h.bare h.nice
  rw [results_eq, List.map_map] at hread
  unfold readMetrics Run.directory
  rw [results_eq, hread]
  cases combinations run.config with
  | nil => rfl
  | cons first rest =>
    obtain ⟨hsuite, hrun⟩ := textOr_metricsRow (c := first) h
    show Except.ok _ = _
    rw [← List.map_cons, List.map_map]
    simp only [Function.comp_apply, hsuite, hrun]
    rfl

theorem readTasks_directory (h : run.Valid) : readTasks py run.directory
    = .ok ((combinations run.config).flatMap (run.records py)) := by
  obtain ⟨-, hread⟩ := readBack_results h.accepted h.fits h.bare h.nice
  rw [results_eq, List.flatMap_map] at hread
  unfold readTasks Run.directory
  rw [results_eq, hread]
  show Except.ok _ = _
  rw [List.map_flatMap]
  congr 2
  funext c
  rw [List.map_map, Run.records]
  apply List.map_congr_left
  intro t _
  obtain ⟨hsuite, hrun⟩ := textOr_taskRow (c := c) h t
  simp only [Function.comp_apply, hsuite, hrun]

/-- A loop in which nothing fails -/
theorem mapM_eq_ok_map {ε α β : Type} {f : α → Except ε β} {g : α → β} {l : List α}
    (h : ∀ a ∈ l, f a = .ok (g a)) : l.mapM f = .ok (l.map g) := by
  induction l with
  | nil => rfl
  | cons a l ih =>
    rw [List.mapM_cons, h a List.mem_cons_self, ih fun b hb => h b (List.mem_cons_of_mem a hb)]
    rfl

end Reading

/-- Builtins that read numerals like those of the files -/
def numeralBuiltins : Builtins :=
  { RunSuite.sampleBuiltins with
    floatOfStr := fun s =>
      match CStrings.stod s with
      | some (.inl x) => some x
      | some (.inr x) => some (.ofRat x)
      | none => none }

theorem readsIntegers_numeralBuiltins : ReadsIntegers numeralBuiltins := by
  intro k _
  show (match CStrings.stod (toString k) with
    | some (.inl x) => some x
    | some (.inr x) => some (.ofRat x)
    | none => none) = _
  rw [CStrings.stod_toString]

end AggregateResults

end SchedSim
