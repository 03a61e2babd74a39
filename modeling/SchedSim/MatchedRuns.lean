import SchedSim.ListedRuns
import SchedSim.RunSummaries

/-!
# Runs that match a summary

`run_def_matches_summary` and `infer_experiments_from_spec` of `scripts/aggregate_results.py`, which
tell from what a suite lists and from the summary of an executed run to which experiments the run
belongs; and `sorted(set(..))` of ids, which fails where two of them cannot be compared.  What the
numbers of a summary become by `int` is a parameter, for the summary of the rows of `metrics.csv`
has integers and that of a manifest floating-point numbers.

* `exists_sortedValues_iff` — when ids can be put into a set and sorted.
* `MatchesSummary`, `runDefMatchesSummary_spec` — the runs for which the comparison passes.
* `LooksLike`, `matchesSummary_iff_looksLike` — for the summary of an executed run, these are the
  runs that share its settings.
-/

namespace SchedSim

namespace AggregateResults

open Py RunSuite Fueled Relation CommandLine Csv RunFiles MetricsRow
open ValidateBenchmarkSpec

/-! ## The script -/

/-- `WORKLOAD_KEY_TO_NAME` -/
def workloadKeyToName : List (String × String) :=
  [("desktop", "Desktop"), ("server", "Server"), ("google", "GoogleTraceV3"),
    ("alibaba", "AlibabaTraceV2018")]

/-- `approx_eq(a, b)`, with the tolerance of 1e-6; the other number is finite. -/
def approxEq (a : Double) (b : ℚ) : Bool :=
  match a with
  | .finite x _ => |Binary64.nearest (x - b)| ≤ Binary64.nearest (1 / 10 ^ 6)
  | _ => false

section

variable (py : Builtins)

def canonicalWorkloadName (workloadKey : String) : String :=
  (workloadKeyToName.lookup (py.lower workloadKey)).getD workloadKey

variable {α : Type} (int : α → ℤ)

/-- The check of the workload, where `all` stands for any two of them -/
def workloadMatches (runDef : RunDef) (runSummary : RunSummary α) : Bool :=
  if runDef.workload = "all" then 2 ≤ runSummary.workloads.dedup.length
  else canonicalWorkloadName py runDef.workload ∈ runSummary.workloads

/-- The comparison of a run with a summary, `int` being what `int(v)` makes of its numbers -/
def runDefMatchesSummary (runDef : RunDef) (runSummary : RunSummary α) : Py Bool := do
  if workloadMatches py runDef runSummary = false then return false
  else if runDef.cores ∉ runSummary.cores.map int then return false
  else if runDef.numTasks ∉ runSummary.numTasks.map int then return false
  else if runSummary.stopTime.any (approxEq runDef.stopTime) = false then return false
  else do
    let sameTopology ← inNames runDef.topology (runSummary.topologies.map py.lower)
    if sameTopology = false then return false
    else if runDef.topology.isStr "mq" then do
      let sameBalancer ← inNames runDef.balancer (runSummary.balancers.map py.lower)
      let wsVals := runSummary.workStealingValues.map py.lower
      return sameBalancer && wsVals.contains runDef.workStealing
    else return true

/-- Whether some run of an experiment matches; the loop ends at the first one. -/
def anyMatches (runSummary : RunSummary α) : List RunDef → Py Bool
  | [] => return false
  | runDef :: rest => do
    if ← runDefMatchesSummary py int runDef runSummary then return true
    else anyMatches runSummary rest

/-- One iteration of the loop over the experiments -/
def matchExperiment (runSummary : RunSummary α) (matched : List Json) (exp : ExperimentSpec) :
    Py (List Json) := do
  if ← anyMatches py int runSummary exp.runs then return matched ++ [exp.id] else return matched

end

/-- `x < y`, of two strings or two numbers -/
def keyLt : Json.Key → Json.Key → Bool
  | .str s, .str t => s < t
  | .number x, .number y => x < y
  | .number _, .special (.infinite negative) => !negative
  | .special (.infinite negative), .number _ => negative
  | .special (.infinite negative), .special (.infinite negative') => negative && !negative'
  | _, _ => false

/-- What a key can be compared with: strings with strings, and numbers with numbers -/
inductive KeyKind where
  | none
  | number
  | str
  deriving DecidableEq

def keyKind : Json.Key → KeyKind
  | .none => .none
  | .number _ => .number
  | .special _ => .number
  | .str _ => .str

/-- The first entry of every key -/
def firstOfEach : List (Json.Key × Json) → List (Json.Key × Json)
  | [] => []
  | entry :: rest => entry :: (firstOfEach rest).filter fun later => later.1 ≠ entry.1

/-- A value beside what it is as a key -/
def keyed (v : Json) : Py (Json.Key × Json) := do
  return (← hashed v, v)

/-- `sorted(set(values))`; two values that cannot be compared are found by any way of sorting. -/
def sortedValues (values : List Json) : Py (List Json) := do
  let entries := firstOfEach (← values.mapM keyed)
  if entries.length < 2 ∨ (∀ entry ∈ entries, keyKind entry.1 = .number) ∨
      (∀ entry ∈ entries, keyKind entry.1 = .str) then
    return (entries.mergeSort fun a b => !keyLt b.1 a.1).map Prod.snd
  else .error .typeError

def inferExperimentsFromSpec (py : Builtins) {α : Type} (int : α → ℤ) (suiteId : Json.Key)
    (runSummary : RunSummary α) (suiteSpecs : List (Json.Key × SuiteSpec)) : Py (List Json) := do
  match suiteSpecs.lookup suiteId with
  | none => return []
  | some suite => do
    let matched ← suite.experiments.foldlM (matchExperiment py int runSummary) []
    sortedValues matched

/-! ## Sets of ids -/

/-- Some value of the list is this key. -/
def HasKey (values : List Json) (key : Json.Key) : Prop :=
  ∃ v ∈ values, v.key? = some key

/-- Keys that can be sorted: one at most, only numbers, or only strings. -/
def Comparable (p : Json.Key → Prop) : Prop :=
  (∀ key key', p key → p key' → key = key') ∨ (∀ key, p key → keyKind key = .number) ∨
    ∀ key, p key → keyKind key = .str

theorem mem_keys_firstOfEach {entries : List (Json.Key × Json)} {key : Json.Key} :
    key ∈ (firstOfEach entries).map Prod.fst ↔ key ∈ entries.map Prod.fst := by
  induction entries with
  | nil => rfl
  | cons entry rest ih =>
    rw [firstOfEach, List.map_cons, List.map_cons, List.mem_cons, List.mem_cons]
    by_cases hkey : key = entry.1
    · simp [hkey]
    · rw [← ih]
      simp only [hkey, false_or, List.mem_map, List.mem_filter, decide_eq_true_eq]
      constructor
      · rintro ⟨later, ⟨hlater, -⟩, rfl⟩
        exact ⟨later, hlater, rfl⟩
      · rintro ⟨later, hlater, rfl⟩
        exact ⟨later, ⟨hlater, hkey⟩, rfl⟩

theorem firstOfEach_sublist (entries : List (Json.Key × Json)) :
    (firstOfEach entries).Sublist entries := by
  induction entries with
  | nil => exact .slnil
  | cons entry rest ih => exact (List.filter_sublist.trans ih).cons_cons entry

theorem nodup_keys_firstOfEach (entries : List (Json.Key × Json)) :
    ((firstOfEach entries).map Prod.fst).Nodup := by
  induction entries with
  | nil => exact List.nodup_nil
  | cons entry rest ih =>
    rw [firstOfEach, List.map_cons, List.nodup_cons]
    refine ⟨?_, ih.sublist (List.filter_sublist.map Prod.fst)⟩
    rw [List.mem_map]
    rintro ⟨later, hlater, heq⟩
    simp [heq] at hlater

theorem keyed_eq_ok {v : Json} {entry : Json.Key × Json} :
    keyed v = .ok entry ↔ v.key? = some entry.1 ∧ entry.2 = v := by
  simp only [keyed, bind_eq_ok, pure_eq_ok, hashed_eq_ok]
  constructor
  · rintro ⟨key, hkey, rfl⟩
    exact ⟨hkey, rfl⟩
  · rintro ⟨hkey, rfl⟩
    exact ⟨entry.1, hkey, rfl⟩

theorem mem_keys_of_mapM {values : List Json} {entries : List (Json.Key × Json)}
    (h : values.mapM keyed = .ok entries) (key : Json.Key) :
    key ∈ entries.map Prod.fst ↔ HasKey values key := by
  rw [mapM_eq_ok] at h
  induction h with
  | nil => simp [HasKey]
  | cons hentry _ ih =>
    obtain ⟨hkey, -⟩ := keyed_eq_ok.1 hentry
    rw [List.map_cons, List.mem_cons, ih]
    simp only [HasKey, List.mem_cons, exists_eq_or_imp, hkey, Option.some.injEq]
    exact or_congr_left eq_comm

theorem key_of_mem_mapM {values : List Json} {entries : List (Json.Key × Json)}
    (h : values.mapM keyed = .ok entries) : ∀ entry ∈ entries, entry.2.key? = some entry.1 := by
  intro entry hentry
  obtain ⟨v, -, hv⟩ := exists_of_mapM h hentry
  obtain ⟨hkey, rfl⟩ := keyed_eq_ok.1 hv
  exact hkey

/-- A comprehension has a result for every value. -/
theorem exists_of_mem_mapM {α β : Type} {f : α → Py β} {l : List α} {results : List β} {a : α}
    (h : l.mapM f = .ok results) (ha : a ∈ l) : ∃ b ∈ results, f a = .ok b := by
  rw [mapM_eq_ok] at h
  induction h with
  | nil => cases ha
  | cons hfirst _ ih =>
    rcases List.mem_cons.1 ha with rfl | ha
    · exact ⟨_, List.mem_cons_self, hfirst⟩
    · obtain ⟨b, hb, hfa⟩ := ih ha
      exact ⟨b, List.mem_cons_of_mem _ hb, hfa⟩

/-- The check before the sorting asks for comparable keys. -/
theorem comparable_iff {entries : List (Json.Key × Json)} :
    ((firstOfEach entries).length < 2 ∨ (∀ entry ∈ firstOfEach entries, keyKind entry.1 = .number) ∨
      ∀ entry ∈ firstOfEach entries, keyKind entry.1 = .str) ↔
    Comparable (· ∈ entries.map Prod.fst) := by
  have hall : ∀ kind, (∀ entry ∈ firstOfEach entries, keyKind entry.1 = kind) ↔
      ∀ key, key ∈ (firstOfEach entries).map Prod.fst → keyKind key = kind := by
    intro kind
    simp only [List.mem_map, forall_exists_index, and_imp, forall_apply_eq_imp_iff₂]
  have hmem : ∀ key, key ∈ entries.map Prod.fst ↔ key ∈ (firstOfEach entries).map Prod.fst :=
    fun key => mem_keys_firstOfEach.symm
  unfold Comparable
  simp only [hall, hmem]
  refine or_congr_left ?_
  have hlength : (firstOfEach entries).length = ((firstOfEach entries).map Prod.fst).length :=
    (List.length_map _).symm
  rw [hlength]
  have hnodup := nodup_keys_firstOfEach entries
  generalize (firstOfEach entries).map Prod.fst = keys at hnodup
  cases keys with
  | nil => simp
  | cons first rest =>
    cases rest with
    | nil => simp
    | cons second rest =>
      have hne : first ≠ second := by
        rintro rfl
        simp at hnodup
      refine iff_of_false (by simp) fun h => hne (h first second ?_ ?_)
      · simp
      · simp

/-- When ids can be put into a set and sorted -/
theorem exists_sortedValues_iff {values : List Json} :
    (∃ sorted, sortedValues values = .ok sorted) ↔
      (∀ v ∈ values, ∃ key, v.key? = some key) ∧ Comparable (HasKey values) := by
  have hkeys : ∀ entries, values.mapM keyed = .ok entries →
      (Comparable (· ∈ entries.map Prod.fst) ↔ Comparable (HasKey values)) := by
    intro entries hentries
    simp only [mem_keys_of_mapM hentries]
  simp only [sortedValues, bind_eq_ok]
  constructor
  · rintro ⟨sorted, entries, hentries, h⟩
    refine ⟨fun v hv => ?_, ?_⟩
    · obtain ⟨entry, -, hentry⟩ := exists_of_mem_mapM hentries hv
      exact ⟨_, (keyed_eq_ok.1 hentry).1⟩
    · rw [← hkeys entries hentries, ← comparable_iff]
      split at h
      next hsort => exact hsort
      next => cases h
  · rintro ⟨hhash, hcompare⟩
    obtain ⟨entries, hentries⟩ := exists_mapM fun v hv =>
      have ⟨key, hkey⟩ := hhash v hv
      ⟨(key, v), keyed_eq_ok.2 ⟨hkey, rfl⟩⟩
    rw [← hkeys entries hentries, ← comparable_iff] at hcompare
    exact ⟨_, entries, hentries, by rw [if_pos hcompare]; rfl⟩

/-- The sorted set has the keys of the values. -/
theorem hasKey_sortedValues {values sorted : List Json} (h : sortedValues values = .ok sorted)
    (key : Json.Key) : HasKey sorted key ↔ HasKey values key := by
  simp only [sortedValues, bind_eq_ok] at h
  obtain ⟨entries, hentries, h⟩ := h
  split at h
  next =>
    obtain rfl := pure_eq_ok.1 h
    rw [← mem_keys_of_mapM hentries key, ← mem_keys_firstOfEach]
    simp only [HasKey, List.mem_map, List.mem_mergeSort]
    constructor
    · rintro ⟨v, ⟨entry, hentry, rfl⟩, hkey⟩
      have hsame := key_of_mem_mapM hentries entry ((firstOfEach_sublist entries).subset hentry)
      exact ⟨entry, hentry, Option.some.inj (hsame.symm.trans hkey)⟩
    · rintro ⟨entry, hentry, rfl⟩
      exact ⟨entry.2, ⟨entry, hentry, rfl⟩,
        key_of_mem_mapM hentries entry ((firstOfEach_sublist entries).subset hentry)⟩
  next => cases h

/-! ## Which experiments match -/

variable {py : Builtins} {α : Type} {int : α → ℤ} {num : ℤ → α}

theorem anyMatches_spec {runSummary : RunSummary α} {runDefs : List RunDef} {P : RunDef → Prop}
    (h : ∀ runDef ∈ runDefs, ∃ b, runDefMatchesSummary py int runDef runSummary = .ok b ∧
      (b = true ↔ P runDef)) :
    ∃ b, anyMatches py int runSummary runDefs = .ok b ∧
      (b = true ↔ ∃ runDef ∈ runDefs, P runDef) := by
  induction runDefs with
  | nil => exact ⟨false, rfl, by simp⟩
  | cons runDef rest ih =>
    obtain ⟨⟨b, hb, hiff⟩, hrest⟩ := List.forall_mem_cons.1 h
    obtain ⟨b', hb', hiff'⟩ := ih hrest
    simp only [List.mem_cons, exists_eq_or_imp, ← hiff, ← hiff']
    cases b with
    | true => exact ⟨true, bind_eq_ok.2 ⟨true, hb, rfl⟩, by simp⟩
    | false => exact ⟨b', bind_eq_ok.2 ⟨false, hb, hb'⟩, by simp⟩

theorem foldlM_matchExperiment {runSummary : RunSummary α} {specs : List ExperimentSpec}
    {P : ExperimentSpec → Prop}
    (h : ∀ stored ∈ specs, ∃ b, anyMatches py int runSummary stored.runs = .ok b ∧
      (b = true ↔ P stored)) (matched : List Json) :
    ∃ matched', specs.foldlM (matchExperiment py int runSummary) matched = .ok matched' ∧
      ∀ v, v ∈ matched' ↔ v ∈ matched ∨ ∃ stored ∈ specs, P stored ∧ stored.id = v := by
  induction specs generalizing matched with
  | nil => exact ⟨matched, rfl, by simp⟩
  | cons stored specs ih =>
    obtain ⟨⟨b, hb, hiff⟩, hrest⟩ := List.forall_mem_cons.1 h
    obtain ⟨matched', hfold, hmem⟩ := ih hrest (if b then matched ++ [stored.id] else matched)
    refine ⟨matched', ?_, fun v => ?_⟩
    · rw [List.foldlM_cons, bind_eq_ok]
      refine ⟨_, ?_, hfold⟩
      rw [matchExperiment, bind_eq_ok]
      exact ⟨b, hb, by cases b <;> rfl⟩
    · rw [hmem]
      simp only [List.mem_cons, exists_eq_or_imp, ← hiff]
      cases b with
      | true => simp [or_assoc, eq_comm]
      | false => simp

/-! ## Which runs match -/

/-- The run of a suite document matches a summary: the summary has the name of its workload, or two
workloads for `all`; its number of cores and of tasks; its stop time, up to the tolerance; its
topology and, for several queues, its balancer and the label of its stealing mode. -/
structure MatchesSummary (py : Builtins) {α : Type} (int : α → ℤ) (runSummary : RunSummary α)
    (run : Json) : Prop where
  workload : ∃ v, run.get "workload" (.str "") = .ok v ∧
    if py.lower (py.str v) = "all" then 2 ≤ runSummary.workloads.dedup.length
    else canonicalWorkloadName py (py.lower (py.str v)) ∈ runSummary.workloads
  cores : ∃ v n, run.item "cores" = .ok v ∧ py.int v = .ok n ∧ n ∈ runSummary.cores.map int
  numTasks : ∃ v n, run.item "num_tasks" = .ok v ∧ py.int v = .ok n ∧
    n ∈ runSummary.numTasks.map int
  stopTime : ∃ v x, run.item "stop_time" = .ok v ∧ py.float v = .ok x ∧
    ∃ t ∈ runSummary.stopTime, approxEq x t = true
  topology : ∃ name, run.item "topology" = .ok (.str name) ∧
    name ∈ runSummary.topologies.map py.lower
  options : run.item "topology" = .ok (.str "mq") →
    (∃ name, run.item "balancer" = .ok (.str name) ∧ name ∈ runSummary.balancers.map py.lower) ∧
    ∃ ws, run.get "work_stealing" (.bool true) = .ok ws ∧
      (if isTrue ws then "on" else if ws.isFalse then "off" else "na")
        ∈ runSummary.workStealingValues.map py.lower

theorem workloadMatches_iff {runSummary : RunSummary α} {runDef : RunDef} :
    workloadMatches py runDef runSummary = true ↔
      if runDef.workload = "all" then 2 ≤ runSummary.workloads.dedup.length
      else canonicalWorkloadName py runDef.workload ∈ runSummary.workloads := by
  unfold workloadMatches
  split <;> rw [decide_eq_true_eq]

/-- A run as it is stored has the settings of the run. -/
theorem normalizedRun_spec {doc run : Json} {runDef : RunDef} (hvalid : ValidRun py run)
    (h : normalizedRun py doc run = .ok runDef) :
    (∃ v, run.get "workload" (.str "") = .ok v ∧ runDef.workload = py.lower (py.str v)) ∧
      (∃ v, run.item "cores" = .ok v ∧ py.int v = .ok runDef.cores) ∧
      (∃ v, run.item "num_tasks" = .ok v ∧ py.int v = .ok runDef.numTasks) ∧
      (∃ v, run.item "stop_time" = .ok v ∧ py.float v = .ok runDef.stopTime) ∧
      run.item "topology" = .ok runDef.topology ∧
      (runDef.topology = .str "mq" → run.item "balancer" = .ok runDef.balancer ∧
        ∃ ws, run.get "work_stealing" (.bool true) = .ok ws ∧ runDef.workStealing
          = if isTrue ws then "on" else if ws.isFalse then "off" else "na") := by
  obtain ⟨topology, htopology, -⟩ := hvalid.topology
  obtain ⟨vcores, -, hvcores, -⟩ := hvalid.cores
  obtain ⟨vtasks, -, hvtasks, -⟩ := hvalid.numTasks
  obtain ⟨vstop, -, hvstop, -⟩ := hvalid.stopTime
  simp only [normalizedRun, bind_eq_ok, pure_eq_ok, get_of_item htopology, get_of_item hvcores,
    get_of_item hvtasks, get_of_item hvstop, Except.ok.injEq, exists_eq_left'] at h
  obtain ⟨-, -, -, -, balancer, hbalancer, ws, hws, workload, hworkload, cores, hcores, numTasks,
    hnumTasks, stopTime, hstopTime, rfl⟩ := h
  refine ⟨⟨workload, hworkload, rfl⟩, ⟨vcores, hvcores, hcores⟩, ⟨vtasks, hvtasks, hnumTasks⟩,
    ⟨vstop, hvstop, hstopTime⟩, htopology, fun hmq => ?_⟩
  obtain rfl : topology = "mq" := Json.str.inj hmq
  obtain ⟨b, hb, -⟩ := hvalid.balancer "mq" htopology (by decide +kernel)
  rw [if_pos (Json.isStr_iff.2 rfl)] at hbalancer hws
  rw [get_of_item hb, Except.ok.injEq] at hbalancer
  subst hbalancer
  exact ⟨hb, ws, hws, rfl⟩

/-- One check of several, of which the first that fails decides -/
theorem check_spec {c P Q : Prop} [Decidable c] {x : Py Bool} (hc : c ↔ ¬ P)
    (hx : P → ∃ b, x = .ok b ∧ (b = true ↔ Q)) :
    ∃ b, (if c then return false else x) = .ok b ∧ (b = true ↔ P ∧ Q) := by
  by_cases h : c
  · exact ⟨false, if_pos h, by simp [hc.1 h]⟩
  · have hP : P := not_not.1 (mt hc.2 h)
    obtain ⟨b, hb, hiff⟩ := hx hP
    exact ⟨b, by rw [if_neg h, hb], by simp [hiff, hP]⟩

theorem inNames_str {s : String} {names : List String} :
    inNames (.str s) names = .ok (decide (s ∈ names)) := by
  simp [inNames, Json.key?]

/-- What the comparison of a run with a topology and, for several queues, a balancer comes to -/
theorem runDefMatchesSummary_eq_ok {runSummary : RunSummary α} {runDef : RunDef} {topology : String}
    (htopology : runDef.topology = .str topology)
    (hbalancer : topology = "mq" → ∃ name, runDef.balancer = .str name) :
    ∃ b, runDefMatchesSummary py int runDef runSummary = .ok b ∧
      (b = true ↔ workloadMatches py runDef runSummary = true ∧
        runDef.cores ∈ runSummary.cores.map int ∧ runDef.numTasks ∈ runSummary.numTasks.map int ∧
        runSummary.stopTime.any (approxEq runDef.stopTime) = true ∧
        topology ∈ runSummary.topologies.map py.lower ∧
        (topology = "mq" →
          (∃ name ∈ runSummary.balancers.map py.lower, runDef.balancer = .str name) ∧
          runDef.workStealing ∈ runSummary.workStealingValues.map py.lower)) := by
  unfold runDefMatchesSummary
  refine check_spec (by simp) fun _ => check_spec (by simp) fun _ => check_spec (by simp) fun _ =>
    check_spec (by simp) fun _ => ?_
  rw [htopology, inNames_str]
  refine check_spec (by simp) fun _ => ?_
  by_cases hmq : topology = "mq"
  · obtain ⟨name, hname⟩ := hbalancer hmq
    refine ⟨decide (name ∈ runSummary.balancers.map py.lower) &&
      (runSummary.workStealingValues.map py.lower).contains runDef.workStealing, ?_, ?_⟩
    · rw [if_pos (by rw [hmq]; decide), hname, inNames_str]
      rfl
    · rw [hname]
      simp [hmq]
  · exact ⟨true, by simp [hmq, Json.isStr], by simp [hmq]⟩

/-- The comparison passes for the runs that match. -/
theorem runDefMatchesSummary_spec {runSummary : RunSummary α} {doc listed : Json} {runDef : RunDef}
    (hvalid : ValidRun py listed) (h : normalizedRun py doc listed = .ok runDef) :
    ∃ b, runDefMatchesSummary py int runDef runSummary = .ok b ∧
      (b = true ↔ MatchesSummary py int runSummary listed) := by
  obtain ⟨⟨workload, hworkload, hname⟩, ⟨vcores, hvcores, hcores⟩, ⟨vtasks, hvtasks, htasks⟩,
    ⟨vstop, hvstop, hstop⟩, htopology, hoptions⟩ := normalizedRun_spec hvalid h
  obtain ⟨topology, htopology', -⟩ := hvalid.topology
  obtain hstr : runDef.topology = .str topology := by simpa using htopology.symm.trans htopology'
  have hbalancer : topology = "mq" → ∃ name, runDef.balancer = .str name := by
    rintro rfl
    obtain ⟨name, hitem, -⟩ := hvalid.balancer _ htopology' (by decide +kernel)
    exact ⟨name, by simpa using (hoptions hstr).1.symm.trans hitem⟩
  obtain ⟨b, hb, hiff⟩ := runDefMatchesSummary_eq_ok hstr hbalancer
  refine ⟨b, hb, hiff.trans ⟨?_, fun hmatches => ?_⟩⟩
  · rintro ⟨hw, hc, hn, hs, ht, ho⟩
    rw [workloadMatches_iff, hname] at hw
    refine ⟨⟨workload, hworkload, hw⟩, ⟨vcores, _, hvcores, hcores, hc⟩,
      ⟨vtasks, _, hvtasks, htasks, hn⟩, ⟨vstop, _, hvstop, hstop, List.any_eq_true.1 hs⟩,
      ⟨topology, htopology', ht⟩, fun hmq => ?_⟩
    obtain rfl : topology = "mq" := by simpa using htopology'.symm.trans hmq
    obtain ⟨⟨name, hmem, hnameStr⟩, hws⟩ := ho rfl
    obtain ⟨hitem, ws, hget, hlabel⟩ := hoptions hstr
    exact ⟨⟨name, hnameStr ▸ hitem, hmem⟩, ws, hget, hlabel ▸ hws⟩
  · obtain ⟨v, hv, hw⟩ := hmatches.workload
    obtain rfl := Except.ok.inj (hworkload.symm.trans hv)
    rw [workloadMatches_iff, hname]
    obtain ⟨v, n, hv, hn, hc⟩ := hmatches.cores
    obtain rfl := Except.ok.inj (hvcores.symm.trans hv)
    obtain rfl := Except.ok.inj (hcores.symm.trans hn)
    obtain ⟨v, n, hv, hn, ht⟩ := hmatches.numTasks
    obtain rfl := Except.ok.inj (hvtasks.symm.trans hv)
    obtain rfl := Except.ok.inj (htasks.symm.trans hn)
    obtain ⟨v, x, hv, hx, hs⟩ := hmatches.stopTime
    obtain rfl := Except.ok.inj (hvstop.symm.trans hv)
    obtain rfl := Except.ok.inj (hstop.symm.trans hx)
    obtain ⟨name, hitem, hmem⟩ := hmatches.topology
    obtain rfl : topology = name := by simpa using htopology'.symm.trans hitem
    refine ⟨hw, hc, ht, List.any_eq_true.2 hs, hmem, ?_⟩
    rintro rfl
    obtain ⟨⟨name, hbal, hnameMem⟩, ws, hws, hwsMem⟩ := hmatches.options htopology'
    obtain ⟨hitem, ws', hget, hlabel⟩ := hoptions hstr
    obtain rfl := Except.ok.inj (hget.symm.trans hws)
    exact ⟨⟨name, hnameMem, Except.ok.inj (hitem.symm.trans hbal)⟩, hlabel ▸ hwsMem⟩

/-! ## What looks like an executed run -/

/-- The run of a suite document looks like the executed one: the number of cores and of tasks it
gives and, up to the tolerance, the stop time; the topology, and for several queues the balancer
and the stealing, in the very letters and values; and the name of a workload that was executed, or
`all` where all were. -/
structure LooksLike (py : Builtins) (config : Config) (stopTime : ℚ) (run : Json) : Prop where
  workload : ∃ v, run.get "workload" (.str "") = .ok v ∧
    if py.lower (py.str v) = "all" then config.workloadFilter = "all"
    else ∃ key ∈ selectedWorkloads config,
      canonicalWorkloadName py (py.lower (py.str v)) = workloadName key
  cores : ∃ v, run.item "cores" = .ok v ∧ py.int v = .ok config.numCores
  numTasks : ∃ v, run.item "num_tasks" = .ok v ∧ py.int v = .ok config.numTasks
  stopTime : ∃ v x, run.item "stop_time" = .ok v ∧ py.float v = .ok x ∧ approxEq x stopTime = true
  topology : run.item "topology" = .ok (.str config.topology)
  options : config.topology = "mq" → run.item "balancer" = .ok (.str config.balancer) ∧
    run.get "work_stealing" (.bool true) = .ok (.bool config.workStealing)

theorem lower_of_plain {name : String} (hplain : isPlainName name = true)
    (hlower : CStrings.toLower name = name) : py.lower name = name := by
  have h := (py.lower_str_eq (.str name) name hplain).2 ⟨name, rfl, hlower⟩
  rwa [py.str_str] at h

/-- More than one workload is executed where all of them are selected. -/
theorem two_le_workloads_iff {config : Config} :
    2 ≤ (sortedSet ((selectedWorkloads config).map workloadName)).dedup.length ↔
      config.workloadFilter = "all" := by
  have hperm : (sortedSet ((selectedWorkloads config).map workloadName)).dedup.Perm
      ((selectedWorkloads config).map workloadName).dedup := by
    refine (List.perm_ext_iff_of_nodup (List.nodup_dedup _) (List.nodup_dedup _)).2 fun name => ?_
    rw [List.mem_dedup, List.mem_dedup, mem_sortedSet]
  rw [hperm.length_eq]
  unfold selectedWorkloads select
  split
  next hall => exact iff_of_true (by decide) hall
  next hone =>
    refine iff_of_false ?_ hone
    cases workloadKeys.find? fun name => id name = config.workloadFilter with
    | none => decide
    | some key => simp

/-- The labels of the two stealing modes are those of the two values. -/
theorem stealingLabel_iff {ws : Json} {config : Config} :
    (if isTrue ws then "on" else if ws.isFalse then "off" else "na") = workStealingLabel config ↔
      ws = .bool config.workStealing := by
  unfold workStealingLabel
  cases ws with
  | bool b => cases b <;> cases config.workStealing <;> simp [isTrue, Json.isFalse]
  | _ => cases config.workStealing <;> simp [isTrue, Json.isFalse]

/-- What matches the summary of an executed run looks like the run. -/
theorem matchesSummary_iff_looksLike {run : Run} {stopTime : ℚ} {listed : Json}
    (hint : ∀ k, int (num k) = k) (haccepted : Accepted run.config) :
    MatchesSummary py int (run.summary num stopTime) listed ↔
      LooksLike py run.config stopTime listed := by
  have hlower : ∀ name ∈ ["sq", "mq", "rr", "leastloaded", "on", "off"], py.lower name = name := by
    have hplain : ∀ name ∈ ["sq", "mq", "rr", "leastloaded", "on", "off"],
        isPlainName name = true ∧ CStrings.toLower name = name := by decide +kernel
    exact fun name hmem => lower_of_plain (hplain name hmem).1 (hplain name hmem).2
  have htopologies : (run.summary num stopTime).topologies.map py.lower
      = [run.config.topology] := by
    have hsame : py.lower run.config.topology = run.config.topology :=
      hlower _ (by rcases haccepted.topology with h | h <;> simp [h])
    simp [Run.summary, hsame]
  have hoptions : run.config.topology = "mq" →
      (run.summary num stopTime).balancers.map py.lower = [run.config.balancer] ∧
        (run.summary num stopTime).workStealingValues.map py.lower
          = [workStealingLabel run.config] := by
    intro hmq
    have hbalancer : py.lower run.config.balancer = run.config.balancer :=
      hlower _ (by rcases haccepted.balancer with h | h <;> simp [h])
    have hlabel : py.lower (workStealingLabel run.config) = workStealingLabel run.config := by
      unfold workStealingLabel
      split <;> exact hlower _ (by simp)
    simp [Run.summary, hmq, hbalancer, hlabel]
  have hworkloads : ∀ name : String, (if name = "all" then
        2 ≤ (run.summary num stopTime).workloads.dedup.length
      else canonicalWorkloadName py name ∈ (run.summary num stopTime).workloads) ↔
      if name = "all" then run.config.workloadFilter = "all"
      else ∃ key ∈ selectedWorkloads run.config,
        canonicalWorkloadName py name = workloadName key := by
    intro name
    split
    · exact two_le_workloads_iff
    · simp only [Run.summary, mem_sortedSet, List.mem_map, eq_comm]
  constructor
  · rintro ⟨⟨vw, hvw, hw⟩, ⟨vc, n, hvc, hc, hcmem⟩, ⟨vn, m, hvn, hn, hnmem⟩,
      ⟨vs, x, hvs, hx, t, ht, hs⟩, ⟨name, hname, hnameMem⟩, ho⟩
    rw [htopologies, List.mem_singleton] at hnameMem
    simp only [Run.summary, List.map_singleton, hint, List.mem_singleton] at hcmem hnmem ht
    subst hcmem hnmem ht hnameMem
    refine ⟨⟨vw, hvw, (hworkloads _).1 hw⟩, ⟨vc, hvc, hc⟩, ⟨vn, hvn, hn⟩, ⟨vs, x, hvs, hx, hs⟩,
      hname, fun hmq => ?_⟩
    obtain ⟨⟨name, hbal, hbalMem⟩, ws, hws, hwsMem⟩ := ho (hmq ▸ hname)
    obtain ⟨hbalancers, hstealing⟩ := hoptions hmq
    rw [hbalancers, List.mem_singleton] at hbalMem
    rw [hstealing, List.mem_singleton, stealingLabel_iff] at hwsMem
    exact ⟨hbalMem ▸ hbal, hwsMem ▸ hws⟩
  · rintro ⟨⟨vw, hvw, hw⟩, ⟨vc, hvc, hc⟩, ⟨vn, hvn, hn⟩, ⟨vs, x, hvs, hx, hs⟩, htopology, ho⟩
    refine ⟨⟨vw, hvw, (hworkloads _).2 hw⟩, ⟨vc, _, hvc, hc, ?_⟩, ⟨vn, _, hvn, hn, ?_⟩,
      ⟨vs, x, hvs, hx, stopTime, List.mem_singleton.2 rfl, hs⟩, ⟨_, htopology, ?_⟩, fun hmq => ?_⟩
    · simp [Run.summary, hint]
    · simp [Run.summary, hint]
    · rw [htopologies, List.mem_singleton]
    · have hmulti : run.config.topology = "mq" := by simpa using htopology.symm.trans hmq
      obtain ⟨hbal, hws⟩ := ho hmulti
      obtain ⟨hbalancers, hstealing⟩ := hoptions hmulti
      refine ⟨⟨_, hbal, ?_⟩, _, hws, ?_⟩
      · rw [hbalancers, List.mem_singleton]
      · rw [hstealing, List.mem_singleton, stealingLabel_iff]

end AggregateResults

end SchedSim
