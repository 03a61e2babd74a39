import SchedSim.CommandLine
import SchedSim.Metrics
import SchedSim.Printing

/-!
# The rows of `metrics.csv`

`write_metrics_header` and `write_metrics_row` of `apps/main.cpp`, and how
`scripts/aggregate_results.py` reads the file with `csv.DictReader`. The fields are written without
quotes, so the row is read back exactly if every text in it is bare.

* `MetricsRow.readsBack_iff` : when the text and integer columns are read back as written.
* `MetricsRow.readsBack_comma` : an accepted suite id with a comma shifts the columns.
-/

namespace SchedSim

namespace MetricsRow

open CommandLine Csv

/-- `METRICS_SCHEMA_VERSION` -/
def metricsSchemaVersion : String := "metrics.v2"

/-- The names of the columns. -/
def metricsHeader : List String :=
  ["BenchmarkVersion", "SchemaVersion", "SuiteId", "RunId", "Seed",
    "Replication", "NumTasks", "Cores", "Topology", "Balancer", "WorkStealing", "StopTime",
    "Scheduler", "Workload", "Completed", "CompletionRatio", "MeanRT",
    "P95RT", "P99RT", "MeanTAT", "MeanWT", "Throughput", "ThroughputPerCore",
    "Utilization", "JainsFairness", "ContextSwitches", "Preemptions"]

def workStealingLabel (config : Config) : String :=
  if config.workStealing then "on" else "off"

/-- `static_cast<double>(num_completed) / num_tasks` -/
def completionRatio (metrics : Metrics) (config : Config) : ℚ :=
  if 0 < config.numTasks then metrics.numCompleted.toNat / config.numTasks else 0

def throughputPerCore (metrics : Metrics) (config : Config) : ℚ :=
  metrics.throughput / max 1 config.numCores

/-- The fields of a row, as they are printed. -/
def metricsCells (metrics : Metrics) (schedulerName workloadName : String) (config : Config)
    (seed : Int64) (replication : Int32) : List String :=
  [config.benchmarkVersion,
    metricsSchemaVersion,
    config.suiteId,
    config.runId,
    toString seed.toInt,
    toString replication.toInt,
    toString (config.numTasks : ℤ),
    toString config.numCores,
    config.topology,
    if config.topology = "mq" then config.balancer else "na",
    if config.topology = "mq" then workStealingLabel config else "na",
    printDouble config.stopTime,
    schedulerName,
    workloadName,
    toString (metrics.numCompleted.toNat : ℤ),
    printDouble (.ofRat (completionRatio metrics config)),
    printDouble (.ofRat metrics.meanResponseTime),
    printDouble (.ofRat metrics.p95ResponseTime),
    printDouble (.ofRat metrics.p99ResponseTime),
    printDouble (.ofRat metrics.meanTurnaroundTime),
    printDouble (.ofRat metrics.meanWaitTime),
    printDouble (.ofRat metrics.throughput),
    printDouble (.ofRat (throughputPerCore metrics config)),
    printDouble (.ofRat metrics.utilization),
    printDouble (.ofRat metrics.jainsFairness),
    toString (metrics.contextSwitches.toNat : ℤ),
    toString (metrics.preemptions.toNat : ℤ)]

def writeMetricsHeader : String :=
  ",".intercalate metricsHeader ++ "\n"

def writeMetricsRow (metrics : Metrics) (schedulerName workloadName : String) (config : Config)
    (seed : Int64) (replication : Int32) : String :=
  ",".intercalate (metricsCells metrics schedulerName workloadName config seed replication) ++ "\n"

/-- The columns of texts and integers. -/
def textColumns : List String :=
  ["BenchmarkVersion", "SchemaVersion", "SuiteId", "RunId", "Seed", "Replication", "NumTasks",
    "Cores", "Topology", "Balancer", "WorkStealing", "Scheduler", "Workload", "Completed",
    "ContextSwitches", "Preemptions"]

/-- Reading the header and the row gives one row, with every text and every integer as it was
written under its column. -/
def ReadsBack (metrics : Metrics) (schedulerName workloadName : String) (config : Config)
    (seed : Int64) (replication : Int32) : Prop :=
  ∃ row, dictReader (writeMetricsHeader
      ++ writeMetricsRow metrics schedulerName workloadName config seed replication) = .ok [row] ∧
    ∀ p ∈ metricsHeader.zip
        (metricsCells metrics schedulerName workloadName config seed replication),
      p.1 ∈ textColumns → row.get p.1 = some (some p.2)

/-- The numbers of a configuration are within the types of its fields. -/
structure Fits (config : Config) : Prop where
  numTasks : config.numTasks < 2 ^ 32
  numCores : config.numCores < 2 ^ 31

/-! ## The fields that are bare -/

section Cells

variable {metrics : Metrics} {schedulerName workloadName : String} {config : Config}
  {seed : Int64} {replication : Int32}

/-- What is not under a column of texts and integers is a double. -/
theorem bare_of_not_mem_textColumns :
    ∀ p ∈ metricsHeader.zip
        (metricsCells metrics schedulerName workloadName config seed replication),
      p.1 ∉ textColumns → Bare p.2 := by
  simp only [metricsHeader, metricsCells, List.zip_cons_cons, List.zip_nil_left,
    List.forall_mem_cons, bare_printDouble, implies_true, true_and]
  simp [textColumns]

instance (s : String) : Decidable (Bare s) := inferInstanceAs (Decidable (_ ∧ _ ∧ _))

theorem bare_toString_toNat (n : UInt32) : Bare (toString (n.toNat : ℤ)) := by
  have : n.toNat < 2 ^ 32 := n.toNat_lt
  exact bare_toString (by omega)

theorem bare_cells (haccepted : Accepted config) (hfits : Fits config)
    (hbare : Bare config.benchmarkVersion ∧ Bare config.suiteId ∧ Bare config.runId ∧
      Bare schedulerName ∧ Bare workloadName) :
    ∀ cell ∈ metricsCells metrics schedulerName workloadName config seed replication,
      Bare cell := by
  obtain ⟨hversion, hsuite, hrun, hscheduler, hworkload⟩ := hbare
  obtain ⟨htasks, hcores⟩ := hfits
  have htopology : Bare config.topology := by
    rcases haccepted.topology with h | h <;> rw [h] <;> decide
  have hbalancer : Bare (if config.topology = "mq" then config.balancer else "na") := by
    split
    · rcases haccepted.balancer with h | h <;> rw [h] <;> decide
    · decide
  have hstealing : Bare (if config.topology = "mq" then workStealingLabel config else "na") := by
    unfold workStealingLabel
    split
    · split <;> decide
    · decide
  have hseed : Bare (toString seed.toInt) := by
    have hlo := seed.le_toInt
    have hhi := seed.toInt_lt
    exact bare_toString (by omega)
  have hreplication : Bare (toString replication.toInt) := by
    have hlo := replication.le_toInt
    have hhi := replication.toInt_lt
    exact bare_toString (by omega)
  have hone := haccepted.numCores
  have hnumTasks : Bare (toString (config.numTasks : ℤ)) := bare_toString (by omega)
  have hnumCores : Bare (toString config.numCores) := bare_toString (by omega)
  have hschema : Bare metricsSchemaVersion := by decide
  simp only [metricsCells, List.forall_mem_cons]
  simp only [*, bare_toString_toNat, bare_printDouble, true_and]
  simp

/-! ## Reading the row -/

theorem metricsHeader_eq : metricsHeader = metricsHeader.dropLast ++ ["Preemptions"] := rfl

theorem metricsCells_eq :
    metricsCells metrics schedulerName workloadName config seed replication
      = (metricsCells metrics schedulerName workloadName config seed replication).dropLast
        ++ [toString (metrics.preemptions.toNat : ℤ)] := rfl

theorem bare_metricsHeader : ∀ key ∈ metricsHeader, Bare key := by
  decide +kernel

theorem nodup_metricsHeader : metricsHeader.Nodup := by
  decide +kernel

theorem length_dropLast_cells :
    metricsHeader.dropLast.length
      = (metricsCells metrics schedulerName workloadName config seed
        replication).dropLast.length := by
  simp [metricsHeader, metricsCells]

theorem dropLast_metricsHeader_ne_nil : metricsHeader.dropLast ≠ [] := by
  simp [metricsHeader]

/-- The row is read back exactly if its fields are bare. -/
theorem readsBack_iff_cells :
    ReadsBack metrics schedulerName workloadName config seed replication ↔
      ∀ cell ∈ (metricsCells metrics schedulerName workloadName config seed replication).dropLast,
        Bare cell := by
  have hother := @bare_of_not_mem_textColumns metrics schedulerName workloadName config seed
    replication
  have hlength := @length_dropLast_cells metrics schedulerName workloadName config seed replication
  have hnodup := nodup_metricsHeader
  have hnames : ∀ key ∈ metricsHeader.dropLast, Bare key := fun key hkey =>
    bare_metricsHeader key (List.mem_of_mem_dropLast hkey)
  have hne := dropLast_metricsHeader_ne_nil
  have hcells := @metricsCells_eq metrics schedulerName workloadName config seed replication
  have hheader := metricsHeader_eq
  unfold ReadsBack writeMetricsHeader writeMetricsRow
  generalize (metricsCells metrics schedulerName workloadName config seed replication).dropLast
    = init at hlength hcells ⊢
  generalize metricsHeader.dropLast = names at hlength hnames hne hheader
  have hlast := bare_toString_toNat metrics.preemptions
  rw [hcells] at hother ⊢
  rw [hheader] at hother hnodup ⊢
  exact reads_row_iff hne hlength hnodup hnames (by decide +kernel) hlast hother

/-- **The metrics row.** Of an accepted configuration the row is read back exactly if its ids and
the names of the scheduler and of the workload are bare. -/
theorem readsBack_iff (haccepted : validateConfig config = .ok ()) (hfits : Fits config) :
    ReadsBack metrics schedulerName workloadName config seed replication ↔
      Bare config.benchmarkVersion ∧ Bare config.suiteId ∧ Bare config.runId ∧
        Bare schedulerName ∧ Bare workloadName := by
  rw [readsBack_iff_cells]
  constructor
  · intro hbare
    refine ⟨hbare _ ?_, hbare _ ?_, hbare _ ?_, hbare _ ?_, hbare _ ?_⟩ <;> simp [metricsCells]
  · intro hbare cell hcell
    exact bare_cells (validateConfig_eq_ok.1 haccepted) hfits hbare cell
      (List.mem_of_mem_dropLast hcell)

end Cells

theorem readsBack_iff_default :
    ReadsBack {} "CFS" "Server" { runId := "run-1" } 123456789 1 :=
  (readsBack_iff (by decide +kernel) ⟨by decide, by decide⟩).2
    ⟨by decide, by decide, by decide, by decide, by decide⟩

/-- A suite id with a comma is accepted, and the row is not read back. -/
theorem readsBack_comma : ∃ config,
    parseArgs ["scheduler_sim", "--suite-id", "a,b", "--run-id", "run-1"] = .ok config ∧
      validateConfig config = .ok () ∧ Fits config ∧
      ¬ ReadsBack {} "CFS" "Server" config 123456789 1 := by
  refine ⟨{ suiteId := "a,b", runId := "run-1" }, rfl, by decide +kernel,
    ⟨by decide, by decide⟩, ?_⟩
  rw [readsBack_iff_cells]
  intro hbare
  have hsuite : Bare "a,b" := hbare "a,b" (by simp [metricsCells])
  exact absurd hsuite (by decide)

end MetricsRow

end SchedSim
