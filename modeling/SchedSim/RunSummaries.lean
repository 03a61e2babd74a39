import SchedSim.Comparisons

/-!
# Summaries of a run

What a run was about is read off its `metrics.csv` in two places: `build_manifest` of
`scripts/generate_run_manifests.py` writes it to the manifest, and where there is no manifest
`summarize_run_rows` of `scripts/aggregate_results.py` takes its place.  Numbers are exact; the
other parts of a manifest, which are ids, hashes and times, are left out.

* `sortedSet_eq` — a list of values, sorted and without repetitions.
* `AggregateResults.summarizeRunRows`, `GenerateRunManifests.runSummary` — the two summaries.
* `runSummaries` — both give back the configuration of the run.
-/

namespace SchedSim

/-! ## Sorted sets -/

section SortedSet

variable {α β : Type} [LinearOrder α] {values sorted : List α}

/-- `sorted(set(values))` -/
def sortedSet (values : List α) : List α := values.dedup.mergeSort (· ≤ ·)

/-- There is only one way to sort a set. -/
theorem sortedSet_eq (hsorted : sorted.Pairwise (· < ·)) (hmem : ∀ a, a ∈ values ↔ a ∈ sorted) :
    sortedSet values = sorted := by
  have hperm : (sortedSet values).Perm sorted := by
    refine (List.mergeSort_perm _ _).trans ?_
    apply (List.perm_ext_iff_of_nodup values.nodup_dedup (hsorted.imp ne_of_lt)).2
    intro a
    rw [List.mem_dedup, hmem]
  apply hperm.eq_of_pairwise' (r := fun a b => a ≤ b)
  · exact Statistics.pairwise_mergeSort_le id _
  · exact hsorted.imp le_of_lt

theorem mem_sortedSet {a : α} : a ∈ sortedSet values ↔ a ∈ values := by
  rw [sortedSet, List.mem_mergeSort, List.mem_dedup]

theorem sortedSet_congr {values' : List α} (h : ∀ a, a ∈ values ↔ a ∈ values') :
    sortedSet values = sortedSet values' := by
  have hnodup : (sortedSet values').Nodup :=
    (List.mergeSort_perm _ _).nodup_iff.2 values'.nodup_dedup
  have hsorted : (sortedSet values').Pairwise (· ≤ ·) := Statistics.pairwise_mergeSort_le id _
  apply sortedSet_eq
  · exact (hsorted.and hnodup).imp fun hab => lt_of_le_of_ne hab.1 hab.2
  · intro a
    rw [h, mem_sortedSet]

/-- A value that is always the same -/
theorem sortedSet_const {l : List β} (hl : l ≠ []) (a : α) :
    sortedSet (l.map fun _ => a) = [a] := by
  apply sortedSet_eq (List.pairwise_singleton _ _)
  intro b
  obtain ⟨x, hx⟩ := List.exists_mem_of_ne_nil l hl
  rw [List.mem_singleton, List.mem_map]
  constructor
  · rintro ⟨-, -, rfl⟩
    rfl
  · rintro rfl
    exact ⟨x, hx, rfl⟩

end SortedSet

open CommandLine Csv MetricsRow RunFiles

namespace AggregateResults

/-! ## The two summaries -/

/-- `run_summary`, with the whole numbers as integers or as floating-point numbers -/
structure RunSummary (α : Type) where
  rows : ℕ
  replications : List α
  numTasks : List α
  cores : List α
  stopTime : List ℚ
  topologies : List String
  balancers : List String
  workStealingValues : List String
  schedulers : List String
  workloads : List String

/-- The texts that a column has in some row -/
def textSet (rows : List DictRow) (column : String) : List String :=
  sortedSet ((rows.map fun raw => text raw column).filter (· ≠ ""))

def summarizeRunRows (py : Builtins) (rows : List DictRow) : RunSummary ℤ where
  rows := rows.length
  replications := sortedSet (rows.map fun raw => toInt py raw "Replication")
  numTasks := sortedSet (rows.map fun raw => toInt py raw "NumTasks")
  cores := sortedSet (rows.map fun raw => toInt py raw "Cores")
  stopTime := sortedSet (rows.map fun raw => toFloat py raw "StopTime")
  topologies := textSet rows "Topology"
  balancers := textSet rows "Balancer"
  workStealingValues := textSet rows "WorkStealing"
  schedulers := textSet rows "Scheduler"
  workloads := textSet rows "Workload"

end AggregateResults

namespace GenerateRunManifests

open AggregateResults

/-- What `float(raw)` gives, unless the column is missing or empty, or no number -/
def numericValue (py : Builtins) (row : DictRow) (key : String) : Option ℚ :=
  match row.get key with
  | some (some raw) =>
    if raw = "" then none
    else
      match py.floatOfStr raw with
      | some (.finite x _) => some x
      | _ => none
  | _ => none

def numericSet (py : Builtins) (rows : List DictRow) (key : String) : List ℚ :=
  sortedSet (rows.filterMap fun row => numericValue py row key)

/-- `run_summary` of `build_manifest` -/
def runSummary (py : Builtins) (rows : List DictRow) : RunSummary ℚ where
  rows := rows.length
  replications := numericSet py rows "Replication"
  numTasks := numericSet py rows "NumTasks"
  cores := numericSet py rows "Cores"
  stopTime := numericSet py rows "StopTime"
  topologies := textSet rows "Topology"
  balancers := textSet rows "Balancer"
  workStealingValues := textSet rows "WorkStealing"
  schedulers := textSet rows "Scheduler"
  workloads := textSet rows "Workload"

end GenerateRunManifests

namespace AggregateResults

/-! ## What they say of a run -/

/-- The summary that the configuration has in it -/
def Run.summary {α : Type} (num : ℤ → α) (stopTime : ℚ) (run : Run) : RunSummary α where
  rows := (combinations run.config).length
  replications := (List.range run.config.numReplications.toNat).map fun rep : ℕ => num (rep + 1)
  numTasks := [num run.config.numTasks]
  cores := [num run.config.numCores]
  stopTime := [stopTime]
  topologies := [run.config.topology]
  balancers := [if run.config.topology = "mq" then run.config.balancer else "na"]
  workStealingValues :=
    [if run.config.topology = "mq" then workStealingLabel run.config else "na"]
  schedulers := sortedSet (selectedSchedulers run.config)
  workloads := sortedSet ((selectedWorkloads run.config).map workloadName)

section Summaries

variable {py : Builtins} {run : Run} {c : ℕ × String × String}

/-- The row of an experiment -/
def Run.row (run : Run) (c : ℕ × String × String) : DictRow :=
  dictRow metricsHeader ((run.result c).metricsCells run.config)

/-- What the row has under the columns that are summarised -/
theorem get_row (run : Run) (c : ℕ × String × String) :
    (run.row c).get "Replication" = some (some (toString (Int32.ofInt (c.1 + 1)).toInt)) ∧
      (run.row c).get "NumTasks" = some (some (toString (run.config.numTasks : ℤ))) ∧
      (run.row c).get "Cores" = some (some (toString run.config.numCores)) ∧
      (run.row c).get "Topology" = some (some run.config.topology) ∧
      (run.row c).get "Balancer"
        = some (some (if run.config.topology = "mq" then run.config.balancer else "na")) ∧
      (run.row c).get "WorkStealing"
        = some (some (if run.config.topology = "mq" then workStealingLabel run.config else "na")) ∧
      (run.row c).get "StopTime" = some (some (printDouble run.config.stopTime)) ∧
      (run.row c).get "Scheduler" = some (some c.2.2) ∧
      (run.row c).get "Workload" = some (some (workloadName c.2.1)) := by
  have hkey := runKey_result run c
  simp only [RunFiles.runKey, texts, runKeyFields, written, Result.runKey, List.map_cons,
    List.map_nil, List.cons.injEq, and_true] at hkey
  obtain ⟨-, -, -, hreplication, htasks, hcores, htopology, hbalancer, hstealing, hstop,
    hscheduler, hworkload⟩ := hkey
  exact ⟨hreplication, htasks, hcores, htopology, hbalancer, hstealing, hstop, hscheduler,
    hworkload⟩

theorem readMetrics_rows (h : run.Valid) : dictReader run.directory.metricsCsv
    = .ok ((combinations run.config).map run.row) := by
  obtain ⟨hread, -⟩ := readBack_results h.accepted h.fits h.bare h.nice
  rw [results_eq, List.map_map] at hread
  unfold Run.directory
  rw [results_eq]
  exact hread

/-! ### Columns of numbers -/

section Columns

variable {l : List (ℕ × String × String)} {column : String}

theorem toString_ne_empty (k : ℤ) : toString k ≠ "" := by
  intro h
  have hchars := congrArg String.toList h
  rw [CStrings.toList_toString_int] at hchars
  split at hchars <;> simp [Nat.toDigits_ne_nil] at hchars

/-- A printed integer is read alike in both summaries. -/
theorem read_integer (hpy : ReadsIntegers py) {raw : DictRow} {k : ℤ} (hk : |k| < 2 ^ 53)
    (hget : raw.get column = some (some (toString k))) :
    toInt py raw column = k ∧ GenerateRunManifests.numericValue py raw column = some (k : ℚ) := by
  obtain ⟨exact, hread⟩ := floatOfStr_toString hpy hk
  constructor
  · unfold toInt toFloat
    simp only [hget, floatOfText_toString hpy hk, Builtins.truncate_intCast]
  · unfold GenerateRunManifests.numericValue
    simp only [hget, if_neg (toString_ne_empty k), hread]

/-- A column of integers, in both summaries -/
theorem sets_of_integers (hpy : ReadsIntegers py) {f : ℕ × String × String → ℤ}
    (hf : ∀ c ∈ l, |f c| < 2 ^ 53)
    (hget : ∀ c ∈ l, (run.row c).get column = some (some (toString (f c)))) :
    (l.map run.row).map (fun raw => toInt py raw column) = l.map f ∧
      GenerateRunManifests.numericSet py (l.map run.row) column
        = sortedSet (l.map fun c => (f c : ℚ)) := by
  constructor
  · rw [List.map_map]
    exact List.map_congr_left fun c hc => (read_integer hpy (hf c hc) (hget c hc)).1
  · unfold GenerateRunManifests.numericSet
    rw [List.filterMap_map]
    congr 1
    rw [← List.filterMap_eq_map]
    apply List.filterMap_congr
    intro c hc
    exact (read_integer hpy (hf c hc) (hget c hc)).2

/-- A column of texts -/
theorem textSet_rows {f : ℕ × String × String → String} (hf : ∀ c ∈ l, f c ≠ "")
    (hget : ∀ c ∈ l, (run.row c).get column = some (some (f c))) :
    textSet (l.map run.row) column = sortedSet (l.map f) := by
  have hmap : (l.map run.row).map (fun raw => text raw column) = l.map f := by
    rw [List.map_map]
    apply List.map_congr_left
    intro c hc
    simp [text, hget c hc]
  unfold textSet
  rw [hmap, List.filter_eq_self.2]
  intro s hs
  obtain ⟨c, hc, rfl⟩ := List.mem_map.1 hs
  simpa using hf c hc

/-- The stop time, which is the same in all rows -/
theorem sets_of_stopTime {stopTime : ℚ} {exact : Binary64.nearest stopTime = stopTime ∧
      |stopTime| < 2 ^ 1024}
    (hstop : py.floatOfStr (printDouble run.config.stopTime) = some (.finite stopTime exact))
    (hl : l ≠ []) :
    sortedSet ((l.map run.row).map fun raw => toFloat py raw "StopTime") = [stopTime] ∧
      GenerateRunManifests.numericSet py (l.map run.row) "StopTime" = [stopTime] := by
  have hget : ∀ c, (run.row c).get "StopTime" = some (some (printDouble run.config.stopTime)) :=
    fun c => (get_row run c).2.2.2.2.2.2.1
  constructor
  · have hvalue : ∀ c, toFloat py (run.row c) "StopTime" = stopTime := by
      intro c
      unfold toFloat floatOfText
      simp only [hget c, hstop]
    rw [List.map_map, ← sortedSet_const hl stopTime]
    exact congrArg sortedSet (List.map_congr_left fun c _ => hvalue c)
  · have hvalue : ∀ c, GenerateRunManifests.numericValue py (run.row c) "StopTime"
        = some stopTime := by
      intro c
      unfold GenerateRunManifests.numericValue
      simp only [hget c, if_neg (printDouble_ne_empty run.config.stopTime), hstop]
    unfold GenerateRunManifests.numericSet
    rw [List.filterMap_map, ← sortedSet_const hl stopTime, ← List.filterMap_eq_map]
    congr 1
    apply List.filterMap_congr
    intro c _
    exact hvalue c

end Columns

/-! ### The combinations -/

section Combinations

variable (hne : combinations run.config ≠ [])

include hne

theorem replications_combinations {α : Type} [LinearOrder α] {num : ℤ → α} (hnum : StrictMono num) :
    sortedSet ((combinations run.config).map fun c => num (c.1 + 1))
      = (List.range run.config.numReplications.toNat).map fun rep : ℕ => num (rep + 1) := by
  obtain ⟨c₀, hc₀⟩ := List.exists_mem_of_ne_nil _ hne
  obtain ⟨-, hworkload, hscheduler⟩ := mem_combinations.1 hc₀
  apply sortedSet_eq
  · apply List.pairwise_map.2
    refine List.pairwise_lt_range.imp ?_
    intro rep rep' hlt
    apply hnum
    omega
  · intro a
    rw [List.mem_map, List.mem_map]
    constructor
    · rintro ⟨c, hc, rfl⟩
      exact ⟨c.1, List.mem_range.2 (mem_combinations.1 hc).1, rfl⟩
    · rintro ⟨rep, hrep, rfl⟩
      exact ⟨(rep, c₀.2.1, c₀.2.2), mem_combinations.2 ⟨List.mem_range.1 hrep, hworkload,
        hscheduler⟩, rfl⟩

theorem schedulers_combinations : sortedSet ((combinations run.config).map fun c => c.2.2)
    = sortedSet (selectedSchedulers run.config) := by
  obtain ⟨c₀, hc₀⟩ := List.exists_mem_of_ne_nil _ hne
  obtain ⟨hrep, hworkload, -⟩ := mem_combinations.1 hc₀
  apply sortedSet_congr
  intro scheduler
  rw [List.mem_map]
  constructor
  · rintro ⟨c, hc, rfl⟩
    exact (mem_combinations.1 hc).2.2
  · intro h
    exact ⟨(c₀.1, c₀.2.1, scheduler), mem_combinations.2 ⟨hrep, hworkload, h⟩, rfl⟩

theorem workloads_combinations :
    sortedSet ((combinations run.config).map fun c => workloadName c.2.1)
      = sortedSet ((selectedWorkloads run.config).map workloadName) := by
  obtain ⟨c₀, hc₀⟩ := List.exists_mem_of_ne_nil _ hne
  obtain ⟨hrep, -, hscheduler⟩ := mem_combinations.1 hc₀
  apply sortedSet_congr
  intro name
  rw [List.mem_map, List.mem_map]
  constructor
  · rintro ⟨c, hc, rfl⟩
    exact ⟨c.2.1, (mem_combinations.1 hc).2.1, rfl⟩
  · rintro ⟨workload, h, rfl⟩
    exact ⟨(c₀.1, workload, c₀.2.2), mem_combinations.2 ⟨hrep, h, hscheduler⟩, rfl⟩

end Combinations

/-! ### All columns -/

section All

variable (h : run.Valid)

include h

theorem numTasks_lt : |(run.config.numTasks : ℤ)| < 2 ^ 53 := by
  have := h.fits.numTasks
  rw [abs_lt]
  omega

theorem numCores_lt : |run.config.numCores| < 2 ^ 53 := by
  have := h.fits.numCores
  have := (validateConfig_eq_ok.1 h.accepted).numCores
  rw [abs_lt]
  omega

/-- Replications are numbered from one on. -/
theorem replication_row (hc : c ∈ combinations run.config) : |(c.1 : ℤ) + 1| < 2 ^ 53 ∧
    (run.row c).get "Replication" = some (some (toString ((c.1 : ℤ) + 1))) := by
  have hrep := (mem_combinations.1 hc).1
  have hlt := h.replications
  have htoInt : (Int32.ofInt ((c.1 : ℤ) + 1)).toInt = c.1 + 1 :=
    Int32.toInt_ofInt_of_le (by omega) (by omega)
  constructor
  · rw [abs_lt]
    omega
  · rw [← htoInt]
    exact (get_row run c).1

theorem textSets (hne : combinations run.config ≠ []) :
    textSet ((combinations run.config).map run.row) "Topology" = [run.config.topology] ∧
      textSet ((combinations run.config).map run.row) "Balancer"
        = [if run.config.topology = "mq" then run.config.balancer else "na"] ∧
      textSet ((combinations run.config).map run.row) "WorkStealing"
        = [if run.config.topology = "mq" then workStealingLabel run.config else "na"] ∧
      textSet ((combinations run.config).map run.row) "Scheduler"
        = sortedSet (selectedSchedulers run.config) ∧
      textSet ((combinations run.config).map run.row) "Workload"
        = sortedSet ((selectedWorkloads run.config).map workloadName) := by
  have haccepted := validateConfig_eq_ok.1 h.accepted
  have hrow := get_row run
  refine ⟨?_, ?_, ?_, ?_, ?_⟩
  · rw [textSet_rows (fun c _ => ?_) fun c _ => (hrow c).2.2.2.1, sortedSet_const hne]
    rcases haccepted.topology with ht | ht <;> simp [ht]
  · rw [textSet_rows (fun c _ => ?_) fun c _ => (hrow c).2.2.2.2.1, sortedSet_const hne]
    split
    · rcases haccepted.balancer with hb | hb <;> simp [hb]
    · decide
  · rw [textSet_rows (fun c _ => ?_) fun c _ => (hrow c).2.2.2.2.2.1, sortedSet_const hne]
    unfold workStealingLabel
    split_ifs <;> decide
  · rw [textSet_rows (fun c hc => ?_) fun c _ => (hrow c).2.2.2.2.2.2.2.1,
      schedulers_combinations hne]
    have hnames : ∀ name ∈ schedulerNames, name ≠ "" := by decide
    exact hnames _ (mem_of_mem_select (mem_combinations.1 hc).2.2)
  · rw [textSet_rows (fun c hc => ?_) fun c _ => (hrow c).2.2.2.2.2.2.2.2,
      workloads_combinations hne]
    have hnames : ∀ key ∈ workloadKeys, workloadName key ≠ "" := by decide
    exact hnames _ (mem_of_mem_select (mem_combinations.1 hc).2.1)

end All

/-- The summary of the aggregation -/
theorem summarizeRunRows_eq (hpy : ReadsIntegers py) (h : run.Valid)
    (hne : combinations run.config ≠ []) {stopTime : ℚ}
    {exact : Binary64.nearest stopTime = stopTime ∧ |stopTime| < 2 ^ 1024}
    (hstop : py.floatOfStr (printDouble run.config.stopTime) = some (.finite stopTime exact))
    {rows : List DictRow} (hread : dictReader run.directory.metricsCsv = .ok rows) :
    summarizeRunRows py rows = run.summary id stopTime := by
  rw [readMetrics_rows h, Except.ok.injEq] at hread
  subst hread
  obtain ⟨htopology, hbalancer, hstealing, hschedulers, hworkloads⟩ := textSets h hne
  have hreplications := (sets_of_integers hpy (fun c hc => (replication_row h hc).1)
    fun c hc => (replication_row h hc).2).1
  have htasks := (sets_of_integers (l := combinations run.config) hpy (fun c _ => numTasks_lt h)
    fun c _ => (get_row run c).2.1).1
  have hcores := (sets_of_integers (l := combinations run.config) hpy (fun c _ => numCores_lt h)
    fun c _ => (get_row run c).2.2.1).1
  have hids := replications_combinations hne strictMono_id
  simp only [id_eq] at hids
  simp only [summarizeRunRows, Run.summary, hreplications, htasks, hcores,
    (sets_of_stopTime hstop hne).1, htopology, hbalancer, hstealing, hschedulers, hworkloads,
    List.length_map, id_eq, sortedSet_const hne, hids]

/-- The summary in the manifest -/
theorem runSummary_eq (hpy : ReadsIntegers py) (h : run.Valid)
    (hne : combinations run.config ≠ []) {stopTime : ℚ}
    {exact : Binary64.nearest stopTime = stopTime ∧ |stopTime| < 2 ^ 1024}
    (hstop : py.floatOfStr (printDouble run.config.stopTime) = some (.finite stopTime exact))
    {rows : List DictRow} (hread : dictReader run.directory.metricsCsv = .ok rows) :
    GenerateRunManifests.runSummary py rows = run.summary (fun k => (k : ℚ)) stopTime := by
  rw [readMetrics_rows h, Except.ok.injEq] at hread
  subst hread
  have hnum : StrictMono fun k : ℤ => (k : ℚ) := Int.cast_strictMono
  obtain ⟨htopology, hbalancer, hstealing, hschedulers, hworkloads⟩ := textSets h hne
  have hreplications := (sets_of_integers hpy (fun c hc => (replication_row h hc).1)
    fun c hc => (replication_row h hc).2).2
  have htasks := (sets_of_integers (l := combinations run.config) hpy (fun c _ => numTasks_lt h)
    fun c _ => (get_row run c).2.1).2
  have hcores := (sets_of_integers (l := combinations run.config) hpy (fun c _ => numCores_lt h)
    fun c _ => (get_row run c).2.2.1).2
  simp only [GenerateRunManifests.runSummary, Run.summary, hreplications, htasks, hcores,
    (sets_of_stopTime hstop hne).2, htopology, hbalancer, hstealing, hschedulers, hworkloads,
    List.length_map, sortedSet_const hne, replications_combinations hne hnum]

end Summaries

end AggregateResults

end SchedSim
