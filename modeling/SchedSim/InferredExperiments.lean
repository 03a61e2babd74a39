import SchedSim.MatchedRuns
import SchedSim.PlanCover
import SchedSim.RunIds

/-!
# The experiments of a run

The aggregation takes the experiments of a run from the summary of the execution, where
`build_run_plan` has put them, and where there is none infers them from the suite and the summary of
the run.  The planner goes through the explicit runs and puts those of the same key together; the
inference follows the links of reuse and compares settings.

* `Owns`, `Covers.hasKey_experiments` — a case lists the experiments with a run of it.
* `matched_spec` — the inference finds the experiments that list a run that matches the summary.
* `sameRuns_iff_of_conventional` — what this comes to in a suite of plain runs.
* `sameExperiments_iff` — when both ways agree.
-/

namespace SchedSim

/-! ## Which experiments were planned -/

namespace RunSuite

open Py AggregateResults

section

variable {py : Builtins} {registry : BenchmarkPluginRegistry} {args : PlanArgs}

/-- The run at this position among the explicit ones is executed as the case: with de-duplication
it has the same key, and without it the case is its own. -/
def ExecutedAs (py : Builtins) (registry : BenchmarkPluginRegistry) (args : PlanArgs) (e : Entry)
    (i : ℕ) (planned : PlannedRun) : Prop :=
  if args.dedupe = true then
    ∃ hash, hashOf py registry args planned = some hash ∧ e.key.hash = .ok hash
  else e.caseIndex = i + 1

/-- An experiment with this id has an explicit run that is executed as the case. -/
def Owns (py : Builtins) (registry : BenchmarkPluginRegistry) (args : PlanArgs)
    (runs : List PlannedRun) (e : Entry) (key : Json.Key) : Prop :=
  ∃ i planned, runs[i]? = some planned ∧ planned.expId.key? = some key ∧
    ExecutedAs py registry args e i planned

theorem mem_zip_iff {α β : Type} {l : List α} {l' : List β} {a : α} {b : β} :
    (a, b) ∈ l.zip l' ↔ ∃ i : ℕ, l[i]? = some a ∧ l'[i]? = some b := by
  rw [List.mem_iff_getElem?]
  exact exists_congr fun i => List.getElem?_zip_eq_some

/-- The index of a run's case says as which case it is executed. -/
theorem Covers.executedAs_iff {runs : List PlannedRun} {s : PlanState} {cases : List ℕ} {e : Entry}
    {i c : ℕ} {planned : PlannedRun} (hs : Covers py registry args runs s cases) (he : e ∈ s.plan)
    (hplanned : runs[i]? = some planned) (hc : cases[i]? = some c) :
    c = e.caseIndex ↔ ExecutedAs py registry args e i planned := by
  have hmem : (planned, c) ∈ runs.zip cases := mem_zip_iff.2 ⟨i, hplanned, hc⟩
  unfold ExecutedAs
  split
  next hdedupe =>
    refine ⟨fun heq => hs.params e he _ hmem heq, ?_⟩
    rintro ⟨hash, hhash, hkey⟩
    -- both the run and the case are found under the key
    obtain ⟨k, hk⟩ := List.mem_iff_getElem?.1 (hs.onto e he)
    obtain ⟨first, hfirst⟩ : ∃ first, runs[k]? = some first := by
      have hlt := (List.getElem?_eq_some_iff.1 hk).1
      exact ⟨_, List.getElem?_eq_getElem (hs.length ▸ hlt)⟩
    have hmem' : (first, e.caseIndex) ∈ runs.zip cases := mem_zip_iff.2 ⟨k, hfirst, hk⟩
    obtain ⟨hash', hhash', hkey'⟩ := hs.params e he _ hmem' rfl
    obtain rfl := Except.ok.inj (hkey.symm.trans hkey')
    obtain ⟨hash₁, hof, hlookup⟩ := hs.lookup hdedupe _ hmem
    obtain ⟨hash₂, hof', hlookup'⟩ := hs.lookup hdedupe _ hmem'
    obtain rfl := Option.some.inj (hhash.symm.trans hof)
    obtain rfl := Option.some.inj (hhash'.symm.trans hof')
    exact Option.some.inj (hlookup.symm.trans hlookup')
  next hdedupe =>
    rw [hs.separate (by simpa using hdedupe)] at hc
    have hlt := (List.getElem?_eq_some_iff.1 hc).1
    rw [List.length_range'] at hlt
    rw [List.getElem?_range' hlt, Option.some.injEq] at hc
    omega

/-- A case lists the experiments with a run that is executed as it. -/
theorem Covers.hasKey_experiments {runs : List PlannedRun} {s : PlanState} {cases : List ℕ}
    {e : Entry} (hs : Covers py registry args runs s cases) (he : e ∈ s.plan) (key : Json.Key) :
    HasKey e.experiments key ↔ Owns py registry args runs e key := by
  rw [hs.experiments e he]
  simp only [HasKey, List.mem_map, List.mem_filter, decide_eq_true_eq, Prod.exists]
  constructor
  · rintro ⟨v, ⟨planned, c, ⟨hmem, hc⟩, rfl⟩, hkey⟩
    obtain ⟨i, hi, hi'⟩ := mem_zip_iff.1 hmem
    exact ⟨i, planned, hi, hkey, (hs.executedAs_iff he hi hi').1 hc⟩
  · rintro ⟨i, planned, hi, hkey, hexecuted⟩
    obtain ⟨c, hc⟩ : ∃ c, cases[i]? = some c := by
      have hlt := (List.getElem?_eq_some_iff.1 hi).1
      exact ⟨_, List.getElem?_eq_getElem (hs.length.symm ▸ hlt)⟩
    refine ⟨_, ⟨planned, c, ⟨mem_zip_iff.2 ⟨i, hi, hc⟩, ?_⟩, rfl⟩, hkey⟩
    exact (hs.executedAs_iff he hi hc).2 hexecuted

/-- An explicit run has the id of an experiment, and is one of its runs. -/
theorem exists_of_mem_plannedRuns {experiments : List Json} {runs : List PlannedRun}
    {planned : PlannedRun} (h : plannedRuns experiments = .ok runs) (hmem : planned ∈ runs) :
    ∃ exp ∈ experiments, exp.item "id" = .ok planned.expId ∧ ∃ v items,
      exp.get "runs" (.list []) = .ok v ∧ v.iterate = .ok items ∧ planned.run ∈ items := by
  simp only [plannedRuns, bind_eq_ok, pure_eq_ok] at h
  obtain ⟨lists, hlists, rfl⟩ := h
  obtain ⟨list, hlist, hplanned⟩ := List.mem_flatten.1 hmem
  obtain ⟨exp, hexp, hruns⟩ := exists_of_mapM hlists hlist
  simp only [experimentRuns, bind_eq_ok, pure_eq_ok] at hruns
  obtain ⟨id, hid, v, hv, items, hitems, rfl⟩ := hruns
  obtain ⟨⟨run, n⟩, hrun, rfl⟩ := List.mem_map.1 hplanned
  exact ⟨exp, hexp, hid, v, items, hv, hitems, List.fst_mem_of_mem_zipIdx hrun⟩

end

end RunSuite

namespace AggregateResults

open Py RunSuite Fueled Relation CommandLine Csv RunFiles MetricsRow
open ValidateBenchmarkSpec

/-! ## Both ways -/

/-- The experiments of a case, as the summary of the execution has them and as they are inferred
from the summary of its run, are found and are the same. -/
def SameExperiments (py : Builtins) {α : Type} (int : α → ℤ) (suite : Json) (e : Entry)
    (runSummary : RunSummary α) : Prop :=
  ∃ fuel suiteId key spec taken inferred,
    Returns (suiteSpec py suite fuel) (some (suiteId, spec)) ∧ suiteId.key? = some key ∧
    sortedValues e.experiments = .ok taken ∧
    inferExperimentsFromSpec py int key runSummary [(key, spec)] = .ok inferred ∧
    ∀ id, HasKey taken id ↔ HasKey inferred id

section

variable {py : Builtins} {registry : BenchmarkPluginRegistry} {args : PlanArgs}
  {experiments : List Json} {α : Type} {int : α → ℤ} {runSummary : RunSummary α}

theorem Lists.named {key : Json.Key} {run : Json} (h : Lists experiments key run) :
    ∃ exp, Named experiments key exp := by
  cases h with
  | own hnamed _ _ _ => exact ⟨_, hnamed⟩
  | reused hlink _ =>
    obtain ⟨exp, -, hnamed, -⟩ := hlink
    exact ⟨exp, hnamed⟩

/-- The inference finds the experiments with an id that is looked at, and with a run among those
they list that matches the summary. -/
theorem matched_spec {doc suiteId : Json} {fuel : ℕ} {spec : SuiteSpec}
    (hlinks : ListChecks py doc experiments)
    (hlisted : doc.item "experiments" = .ok (.list experiments))
    (h : Returns (suiteSpec py doc fuel) (some (suiteId, spec))) :
    ∃ matched, spec.experiments.foldlM (matchExperiment py int runSummary) [] = .ok matched ∧
      (∀ v ∈ matched, ∃ key, v.key? = some key) ∧
      ∀ key, HasKey matched key ↔ keyTruthy key = true ∧
        ∃ listed, Lists experiments key listed ∧ MatchesSummary py int runSummary listed := by
  obtain ⟨hstored, honto⟩ := listing_of_suiteSpec hlinks hlisted h
  have hmatch : ∀ stored ∈ spec.experiments, ∃ b,
      anyMatches py int runSummary stored.runs = .ok b ∧
      (b = true ↔ ∃ key listed, stored.id.key? = some key ∧ Lists experiments key listed ∧
        MatchesSummary py int runSummary listed) := by
    intro stored hmem
    obtain ⟨-, -, key, runs, hkey, hruns, hdefs⟩ := hstored stored hmem
    have hspec : ∀ listed ∈ runs, ∀ runDef, normalizedRun py doc listed = .ok runDef →
        ∃ b, runDefMatchesSummary py int runDef runSummary = .ok b ∧
          (b = true ↔ MatchesSummary py int runSummary listed) := fun listed hin runDef hnorm =>
      runDefMatchesSummary_spec (((hruns listed).1 hin).validRun hlinks) hnorm
    have hany : ∃ b, anyMatches py int runSummary stored.runs = .ok b ∧
        (b = true ↔ ∃ runDef ∈ stored.runs,
          runDefMatchesSummary py int runDef runSummary = .ok true) := by
      refine anyMatches_spec fun runDef hin => ?_
      obtain ⟨listed, hlisted, hnorm⟩ := exists_of_mapM hdefs hin
      obtain ⟨b, hb, -⟩ := hspec listed hlisted runDef hnorm
      exact ⟨b, hb, by rw [hb, Except.ok.injEq]⟩
    obtain ⟨b, hb, hiff⟩ := hany
    refine ⟨b, hb, hiff.trans ⟨?_, ?_⟩⟩
    · rintro ⟨runDef, hin, htrue⟩
      obtain ⟨listed, hlisted, hnorm⟩ := exists_of_mapM hdefs hin
      obtain ⟨b, hb, hlooks⟩ := hspec listed hlisted runDef hnorm
      obtain rfl := Except.ok.inj (hb.symm.trans htrue)
      exact ⟨key, listed, hkey, (hruns listed).1 hlisted, hlooks.1 rfl⟩
    · rintro ⟨key', listed, hkey', hlists, hlooks⟩
      obtain rfl := Option.some.inj (hkey.symm.trans hkey')
      have hlisted := (hruns listed).2 hlists
      obtain ⟨runDef, hin, hnorm⟩ := exists_of_mem_mapM hdefs hlisted
      obtain ⟨b, hb, hiff⟩ := hspec listed hlisted runDef hnorm
      exact ⟨runDef, hin, by rw [hb, hiff.2 hlooks]⟩
  obtain ⟨matched, hfold, hmem⟩ := foldlM_matchExperiment hmatch []
  refine ⟨matched, hfold, fun v hv => ?_, fun key => ?_⟩
  · obtain ⟨stored, -, ⟨key, -, hkey, -⟩, rfl⟩ := ((hmem v).1 hv).resolve_left (by simp)
    exact ⟨key, hkey⟩
  · constructor
    · rintro ⟨v, hv, hkey⟩
      obtain ⟨stored, hin, ⟨key', listed, hkey', hlists, hlooks⟩, rfl⟩ :=
        ((hmem v).1 hv).resolve_left (by simp)
      obtain rfl := Option.some.inj (hkey.symm.trans hkey')
      exact ⟨truthy_of_key? hkey ▸ (hstored stored hin).truthy, listed, hlists, hlooks⟩
    · rintro ⟨htruthy, listed, hlists, hlooks⟩
      obtain ⟨exp, hnamed⟩ := hlists.named
      have hexp := hnamed.mem
      obtain ⟨-, -, -, hkey, -⟩ := hnamed
      obtain ⟨id, hid, hhash⟩ := bind_eq_ok.1 hkey
      have hidKey := hashed_eq_ok.1 hhash
      obtain ⟨stored, hin, rfl⟩ := honto exp hexp id (get_of_item hid)
        (truthy_of_key? hidKey ▸ htruthy)
      exact ⟨stored.id, (hmem _).2 (.inr ⟨stored, hin, ⟨key, listed, hidKey, hlists, hlooks⟩, rfl⟩),
        hidKey⟩

/-- The experiments with a run of the case are those that list a run that looks like what was
executed: the suite has an id; ids can be keys of a dictionary and be sorted; an experiment with a
run of the case has an id that is looked at, and lists such a run, itself or from the experiment it
reuses; and an experiment that lists such a run has a run of the case. -/
structure SameRuns (py : Builtins) (registry : BenchmarkPluginRegistry) (args : PlanArgs)
    (experiments : List Json) (runs : List PlannedRun) (e : Entry) (looks : Json → Prop) :
    Prop where
  suiteId : ∃ suiteId key, args.suite.item "suite_id" = .ok suiteId ∧ suiteId.truthy = true ∧
    suiteId.key? = some key
  keys : ∀ exp ∈ experiments, ∃ key, experimentKey exp = .ok key
  comparable : Comparable (Owns py registry args runs e)
  listed : ∀ key, Owns py registry args runs e key → keyTruthy key = true ∧
    ∃ run, Lists experiments key run ∧ looks run
  owned : ∀ key run, keyTruthy key = true → Lists experiments key run → looks run →
    Owns py registry args runs e key

theorem sameRuns_congr {runs : List PlannedRun} {e : Entry} {looks looks' : Json → Prop}
    (h : ∀ run, looks run ↔ looks' run) : SameRuns py registry args experiments runs e looks ↔
      SameRuns py registry args experiments runs e looks' := by
  rw [funext fun run => propext (h run)]

theorem inferExperimentsFromSpec_single {key : Json.Key} {spec : SuiteSpec} {matched : List Json}
    (h : spec.experiments.foldlM (matchExperiment py int runSummary) [] = .ok matched) :
    inferExperimentsFromSpec py int key runSummary [(key, spec)] = sortedValues matched := by
  simp only [inferExperimentsFromSpec, List.lookup_cons, beq_self_eq_true, h]
  rfl

/-- The experiments of a case have ids that are keys if all experiments do. -/
theorem key_of_mem_experiments {runs : List PlannedRun} {s : PlanState} {cases : List ℕ} {e : Entry}
    (hs : Covers py registry args runs s cases) (he : e ∈ s.plan)
    (hruns : plannedRuns experiments = .ok runs)
    (hkeys : ∀ exp ∈ experiments, ∃ key, experimentKey exp = .ok key) :
    ∀ v ∈ e.experiments, ∃ key, v.key? = some key := by
  intro v hv
  rw [hs.experiments e he, List.mem_map] at hv
  obtain ⟨⟨planned, c⟩, hmem, rfl⟩ := hv
  obtain ⟨exp, hexp, hid, -⟩ :=
    exists_of_mem_plannedRuns hruns (List.of_mem_zip (List.mem_filter.1 hmem).1).1
  obtain ⟨key, hkey⟩ := hkeys exp hexp
  obtain ⟨id, hid', hhash⟩ := bind_eq_ok.1 hkey
  obtain rfl := Except.ok.inj (hid.symm.trans hid')
  exact ⟨key, hashed_eq_ok.1 hhash⟩

/-- What is found under the id of a suite says what its id is. -/
theorem suiteId_of_returns {doc suiteId : Json} {fuel : ℕ} {spec : SuiteSpec}
    (h : Returns (suiteSpec py doc fuel) (some (suiteId, spec))) :
    doc.item "suite_id" = .ok suiteId ∧ suiteId.truthy = true := by
  unfold suiteSpec at h
  split at h
  next =>
    simp only [returns_bind, returns_ofPy] at h
    obtain ⟨id, hid, h⟩ := h
    split at h
    next htruthy =>
      simp only [returns_bind, returns_ofPy, returns_pure, Option.some.injEq, Prod.mk.injEq] at h
      obtain ⟨-, -, -, -, -, -, -, -, -, -, rfl, -⟩ := h
      refine ⟨item_of_get hid ?_, htruthy⟩
      rintro rfl
      cases htruthy
    next => cases returns_pure.1 h
  next => cases returns_pure.1 h

/-- **Both ways agree on a summary** exactly when the experiments with a run of the case are those
that list a run that matches it. -/
theorem sameExperiments_iff_sameRuns {runs : List PlannedRun} {s : PlanState} {e : Entry}
    (hlinks : ListChecks py args.suite experiments)
    (hlisted : args.suite.item "experiments" = .ok (.list experiments))
    (hacyclic : ∀ key, ¬ TransGen (Reuses experiments) key key)
    (hruns : plannedRuns experiments = .ok runs)
    (hfold : runs.foldlM (planRun py registry args) {} = .ok s) (he : e ∈ s.plan) :
    SameExperiments py int args.suite e runSummary ↔
      SameRuns py registry args experiments runs e (MatchesSummary py int runSummary) := by
  obtain ⟨cases, hs⟩ := covers_of_foldlM hfold
  have howns : HasKey e.experiments = Owns py registry args runs e :=
    funext fun key => propext (hs.hasKey_experiments he key)
  constructor
  · rintro ⟨fuel, suiteId, key, spec, taken, inferred, hspec, hkey, htaken, hinferred, hsame⟩
    obtain ⟨hsuiteId, htruthy⟩ := suiteId_of_returns hspec
    obtain ⟨matched, hfold, -, hmatched⟩ := matched_spec hlinks hlisted hspec
    rw [inferExperimentsFromSpec_single hfold] at hinferred
    have hiff : ∀ id, Owns py registry args runs e id ↔ HasKey matched id := by
      intro id
      rw [← howns, ← hasKey_sortedValues htaken, hsame, hasKey_sortedValues hinferred]
    refine ⟨⟨suiteId, key, hsuiteId, htruthy, hkey⟩,
      (acyclic_of_returns hlinks hlisted hsuiteId htruthy hspec).1, ?_, fun id h => ?_,
      fun id run hid hrun hlooks => ?_⟩
    · exact howns ▸ (exists_sortedValues_iff.1 ⟨taken, htaken⟩).2
    · exact (hmatched id).1 ((hiff id).1 h)
    · exact (hiff id).2 ((hmatched id).2 ⟨hid, run, hrun, hlooks⟩)
  · intro h
    obtain ⟨suiteId, key, hsuiteId, htruthy, hkey⟩ := h.suiteId
    obtain ⟨fuel, spec, hspec⟩ := exists_suiteSpec hlinks hlisted (get_of_item hsuiteId) htruthy
      h.keys hacyclic
    obtain ⟨matched, hfold, hhash, hmatched⟩ := matched_spec hlinks hlisted hspec
    have hiff : HasKey matched = Owns py registry args runs e := by
      funext id
      rw [hmatched, eq_iff_iff]
      exact ⟨fun ⟨hid, run, hrun, hlooks⟩ => h.owned id run hid hrun hlooks, h.listed id⟩
    obtain ⟨taken, htaken⟩ := exists_sortedValues_iff.2
      ⟨key_of_mem_experiments hs he hruns h.keys, howns.symm ▸ h.comparable⟩
    obtain ⟨inferred, hinferred⟩ := exists_sortedValues_iff.2 ⟨hhash, hiff.symm ▸ h.comparable⟩
    refine ⟨fuel, suiteId, key, spec, taken, inferred, hspec, hkey, htaken, ?_, fun id => ?_⟩
    · rw [inferExperimentsFromSpec_single hfold, hinferred]
    · rw [hasKey_sortedValues htaken, hasKey_sortedValues hinferred, howns, hiff]

end

end AggregateResults

/-! ## Suites as the documentation writes them -/

namespace RunSuite

open Py CommandLine AggregateResults
open ValidateBenchmarkSpec

section

variable {py : Builtins} {registry : BenchmarkPluginRegistry} {args : PlanArgs}

/-- Keys of equal hash have the same workload, and stealing modes that Python compares as equal. -/
theorem workload_of_hash {key key' : RunKey} {hash : HashedKey} (h : key.hash = .ok hash)
    (h' : key'.hash = .ok hash) :
    key.workloadCli = key'.workloadCli ∧ key.workStealing.key? = key'.workStealing.key? := by
  simp only [RunKey.hash, bind_eq_ok, pure_eq_ok] at h h'
  obtain ⟨t, -, b, -, w, hw, rfl⟩ := h
  obtain ⟨t', -, b', -, w', hw', heq⟩ := h'
  simp only [HashedKey.mk.injEq] at heq
  obtain ⟨hcli, -, -, -, -, -, -, rfl⟩ := heq
  exact ⟨hcli.symm, (hashed_eq_ok.1 hw).trans (hashed_eq_ok.1 hw').symm⟩

/-- The workload of a key is the selector of the plugin. -/
theorem workloadCli_of_keyOf {planned : PlannedRun} {key : RunKey}
    (h : keyOf py registry args planned = .ok key) :
    ∃ v plugin, planned.run.item "workload" = .ok v ∧
      registry.resolveWorkload py v = some plugin ∧ key.workloadCli = plugin.cliToken := by
  simp only [keyOf, plugins, bind_eq_ok, pure_eq_ok] at h
  obtain ⟨_, ⟨_, -, scheduler, -, v, hv, workload, hworkload, rfl⟩, hkey⟩ := h
  simp only [runKey, bind_eq_ok, pure_eq_ok] at hkey
  obtain ⟨_, -, _, -, _, -, _, -, _, -, _, -, _, -, _, -, _, -, rfl⟩ := hkey
  refine ⟨v, workload, hv, ?_, rfl⟩
  split at hworkload
  next plugin hplugin => rw [hplugin, Except.ok.inj hworkload]
  next => cases hworkload

/-- A case has the key of some run. -/
theorem exists_keyOf_of_foldlM {runs : List PlannedRun} {s : PlanState}
    (h : runs.foldlM (planRun py registry args) {} = .ok s) :
    ∀ e ∈ s.plan, ∃ planned ∈ runs, keyOf py registry args planned = .ok e.key := by
  suffices key : ∀ (all rest : List PlannedRun) (s₀ : PlanState), rest ⊆ all →
      (∀ e ∈ s₀.plan, ∃ planned ∈ all, keyOf py registry args planned = .ok e.key) →
      rest.foldlM (planRun py registry args) s₀ = .ok s →
        ∀ e ∈ s.plan, ∃ planned ∈ all, keyOf py registry args planned = .ok e.key from
    key runs runs {} (List.Subset.refl _) (by simp) h
  intro all rest
  induction rest with
  | nil =>
    intro s₀ _ hs₀ hfold
    rw [List.foldlM_nil, pure_eq_ok] at hfold
    exact hfold ▸ hs₀
  | cons planned rest ih =>
    intro s₀ hsub hs₀ hfold
    obtain ⟨hmem, hrest⟩ := List.cons_subset.1 hsub
    rw [List.foldlM_cons, bind_eq_ok] at hfold
    obtain ⟨s₁, hstep, hfold⟩ := hfold
    refine ih s₁ hrest (fun e he => ?_) hfold
    obtain ⟨key, hash, hkey, -, hstep⟩ := planRun_spec hstep
    cases hstep with
    | shared hdedupe hfound =>
      obtain ⟨e', he', rfl⟩ := List.mem_map.1 he
      rw [addExperiment_key]
      exact hs₀ e' he'
    | fresh hnew hcase hexp hekey hplanned =>
      rcases List.mem_append.1 he with he | he
      · exact hs₀ e he
      · rw [List.mem_singleton.1 he, hekey]
        exact ⟨planned, hmem, hkey⟩

/-- The settings of a run, as a case that it is executed as has them: the options are the same for
Python, which takes `1` and `true` for the same key. -/
structure Carries (py : Builtins) (registry : BenchmarkPluginRegistry) (run : Json) (e : Entry) :
    Prop where
  workload : ∃ v plugin, run.item "workload" = .ok v ∧
    registry.resolveWorkload py v = some plugin ∧ e.workloadCli = plugin.cliToken
  cores : ∃ v, run.item "cores" = .ok v ∧ py.int v = .ok e.cores
  numTasks : ∃ v, run.item "num_tasks" = .ok v ∧ py.int v = .ok e.numTasks
  stopTime : ∃ v, run.item "stop_time" = .ok v ∧ py.float v = .ok e.stopTime
  topology : ∃ v, run.item "topology" = .ok v ∧ v.key? = e.topology.key?
  options : run.item "topology" = .ok (.str "mq") → ∃ balancer ws,
    run.get "balancer" (.str "leastloaded") = .ok balancer ∧ balancer.key? = e.balancer.key? ∧
    run.get "work_stealing" (.bool true) = .ok ws ∧ ws.key? = e.workStealing.key?

theorem carries_of_hash {planned : PlannedRun} {e : Entry} {hash : HashedKey}
    (hof : hashOf py registry args planned = some hash) (he : e.key.hash = .ok hash) :
    Carries py registry planned.run e := by
  obtain ⟨key, hkey, hhash⟩ := hashOf_eq_some.1 hof
  obtain ⟨hcores, htasks, hstop, htop, hbal⟩ := eq_of_hash hhash he
  obtain ⟨hcli, hstealing⟩ := workload_of_hash hhash he
  obtain ⟨v, plugin, hv, hresolve, hplugin⟩ := workloadCli_of_keyOf hkey
  simp only [keyOf, bind_eq_ok] at hkey
  obtain ⟨⟨_, _⟩, -, hkey⟩ := hkey
  obtain ⟨hitem, hmq, ⟨vc, hvc, hc⟩, ⟨vn, hvn, hn⟩, vs, hvs, hst⟩ := runKey_spec hkey
  refine ⟨⟨v, plugin, hv, hresolve, hcli.symm.trans hplugin⟩,
    ⟨vc, hvc, hc.trans (congrArg _ hcores)⟩, ⟨vn, hvn, hn.trans (congrArg _ htasks)⟩,
    ⟨vs, hvs, hst.trans (congrArg _ hstop)⟩, ⟨_, hitem, htop⟩, fun hmulti => ?_⟩
  obtain ⟨hbalancer, hws⟩ := hmq (Except.ok.inj (hitem.symm.trans hmulti))
  exact ⟨_, _, hbalancer, hbal, hws, hstealing⟩

theorem Covers.carries {runs : List PlannedRun} {s : PlanState} {cases : List ℕ} {e : Entry} {i : ℕ}
    {planned : PlannedRun} (hs : Covers py registry args runs s cases) (he : e ∈ s.plan)
    (hi : runs[i]? = some planned) (hexecuted : ExecutedAs py registry args e i planned) :
    Carries py registry planned.run e := by
  obtain ⟨c, hc⟩ : ∃ c, cases[i]? = some c := by
    have hlt := (List.getElem?_eq_some_iff.1 hi).1
    exact ⟨_, List.getElem?_eq_getElem (hs.length.symm ▸ hlt)⟩
  obtain ⟨hash, hof, hhash⟩ := hs.params e he _ (mem_zip_iff.2 ⟨i, hi, hc⟩)
    ((hs.executedAs_iff he hi hc).2 hexecuted)
  exact carries_of_hash hof hhash

end

end RunSuite

namespace AggregateResults

open Py RunSuite Fueled Relation CommandLine Csv RunFiles MetricsRow
open ValidateBenchmarkSpec

/-- The run names a workload of the simulator by the selector of the program itself, and has
numbers that fit and a whole stop time that is printed in full. -/
structure PlainRun (py : Builtins) (registry : BenchmarkPluginRegistry) (run : Json) : Prop where
  workload : ∃ s plugin, run.item "workload" = .ok (.str s) ∧
    registry.resolveWorkload py (.str s) = some plugin ∧ plugin.cliToken = s ∧
    s ∈ "all" :: workloadKeys ∧ py.lower s = s
  cores : ∃ v n, run.item "cores" = .ok v ∧ py.int v = .ok n ∧ n < 2 ^ 31
  numTasks : ∃ v n, run.item "num_tasks" = .ok v ∧ py.int v = .ok n ∧ n < 2 ^ 32
  stopTime : ∃ v, ∃ n : ℤ, run.item "stop_time" = .ok v ∧ py.float v = .ok (.ofRat n) ∧
    |n| < 2 ^ 53 ∧ printDouble (.ofRat n) = toString n

section

variable {py : Builtins} {registry : BenchmarkPluginRegistry} {args : PlanArgs}
  {experiments : List Json} {run : Run} {stopTime : ℚ}

/-- A selector that names a workload is the name the aggregation expects. -/
theorem canonicalWorkloadName_of_mem {name : String} (hlower : py.lower name = name)
    (hmem : name ∈ workloadKeys) : canonicalWorkloadName py name = workloadName name := by
  have hall : ∀ name ∈ workloadKeys,
      (workloadKeyToName.lookup name).getD name = workloadName name := by decide
  rw [canonicalWorkloadName, hlower, hall name hmem]

/-- A number given in a document, and what the simulator reads it back as -/
theorem numbers_of_plain {listed : Json} {e : Entry} {config : Config}
    {benchmarkVersion suiteId topology balancer : String} {stop : ℤ}
    (hpy : ReadsIntegers py) (hplain : PlainRun py registry listed) (hvalid : ValidRun py listed)
    (hcarries : Carries py registry listed e)
    (hstop : Builtins.intOfFloat e.stopTime = .ok stop)
    (hconfig : config = configOf benchmarkVersion suiteId topology balancer stop e)
    {exact : Binary64.nearest stopTime = stopTime ∧ |stopTime| < 2 ^ 1024}
    (hread : py.floatOfStr (printDouble config.stopTime) = some (.finite stopTime exact)) :
    e.cores = config.numCores ∧ e.numTasks = config.numTasks ∧
      approxEq e.stopTime stopTime = true := by
  obtain ⟨vc, hvc, hc⟩ := hcarries.cores
  obtain ⟨vn, hvn, hn⟩ := hcarries.numTasks
  obtain ⟨vs, hvs, hs⟩ := hcarries.stopTime
  refine ⟨?_, ?_, ?_⟩
  · obtain ⟨v, n, hv, hint, hlt⟩ := hplain.cores
    obtain rfl := Except.ok.inj (hvc.symm.trans hv)
    obtain rfl := Except.ok.inj (hc.symm.trans hint)
    obtain ⟨v, n, hv, hint, hpos⟩ := hvalid.cores
    obtain rfl := Except.ok.inj (hvc.symm.trans hv)
    obtain rfl := Except.ok.inj (hc.symm.trans hint)
    rw [hconfig]
    exact ((CStrings.atoi_toString (by omega)).2 hlt).symm
  · obtain ⟨v, n, hv, hint, hlt⟩ := hplain.numTasks
    obtain rfl := Except.ok.inj (hvn.symm.trans hv)
    obtain rfl := Except.ok.inj (hn.symm.trans hint)
    obtain ⟨v, n, hv, hint, hpos⟩ := hvalid.numTasks
    obtain rfl := Except.ok.inj (hvn.symm.trans hv)
    obtain rfl := Except.ok.inj (hn.symm.trans hint)
    rw [hconfig]
    exact ((CStrings.toUInt32_atoi_toString (by omega)).2 hlt).symm
  · obtain ⟨v, n, hv, hfloat, hlt, hprint⟩ := hplain.stopTime
    obtain rfl := Except.ok.inj (hvs.symm.trans hv)
    have hvalue : e.stopTime = .ofRat n := Except.ok.inj (hs.symm.trans hfloat)
    obtain ⟨v, x, hv, hfloat', hpos⟩ := hvalid.stopTime
    obtain rfl := Except.ok.inj (hvs.symm.trans hv)
    obtain rfl := Except.ok.inj (hfloat.symm.trans hfloat')
    obtain ⟨exactN, hreadN⟩ := floatOfStr_toString hpy hlt
    have hfinite : Double.ofRat n = .finite n exactN := Double.ofRat_of_exact exactN
    have hn : 0 < n := by
      rw [hfinite] at hpos
      simpa [Double.nonpos] using hpos
    obtain rfl : n = stop := by
      rw [hvalue, hfinite] at hstop
      simpa [Builtins.intOfFloat] using hstop
    have hstopTime : config.stopTime = .ofRat n := by
      rw [hconfig]
      exact CStrings.atof_toString hn.le
    rw [hstopTime, hprint, hreadN, Option.some.injEq, Double.finite.injEq] at hread
    rw [hvalue, hfinite, ← hread]
    simp only [approxEq, sub_self, Binary64.nearest_zero, abs_zero, decide_eq_true_eq]
    decide +kernel

/-- What `work_stealing` says in a run of exact letters and values -/
theorem workStealing_of_exactRun {run : Json} (hdict : ∃ fields, run = .dict fields)
    (hexact : ExactRun run) (hmq : run.item "topology" = .ok (.str "mq")) :
    ∃ b, run.get "work_stealing" (.bool true) = .ok (.bool b) := by
  obtain ⟨v, hv⟩ := exists_get hdict "work_stealing" (.bool true)
  rcases get_eq_ok.1 hv with hitem | ⟨-, rfl⟩
  · obtain ⟨b, rfl⟩ := hexact.workStealing hmq v hitem
    exact ⟨b, hv⟩
  · exact ⟨true, hv⟩

/-- So a case has a boolean, too, which is that of its first run. -/
theorem workStealing_of_foldlM {runs : List PlannedRun} {s : PlanState} {e : Entry}
    (hfold : runs.foldlM (planRun py registry args) {} = .ok s) (he : e ∈ s.plan)
    (hexact : ∀ planned ∈ runs, ValidRun py planned.run ∧ ExactRun planned.run)
    (hmq : e.topology = .str "mq") : ∃ b, e.workStealing = .bool b := by
  obtain ⟨first, hfirst, hkey⟩ := exists_keyOf_of_foldlM hfold e he
  simp only [keyOf, bind_eq_ok] at hkey
  obtain ⟨⟨_, _⟩, -, hkey⟩ := hkey
  obtain ⟨htop, hoptions, -⟩ := runKey_spec hkey
  obtain ⟨b, hb⟩ := workStealing_of_exactRun (hexact first hfirst).1.isDict (hexact first hfirst).2
    (htop.trans (congrArg _ hmq))
  exact ⟨b, Except.ok.inj ((hoptions hmq).2.symm.trans hb)⟩

theorem toLower_of_mem {name : String} (h : name ∈ validTopologies ++ validBalancers) :
    CStrings.toLower name = name := by
  have hall : ∀ name ∈ validTopologies ++ validBalancers, CStrings.toLower name = name := by
    decide +kernel
  exact hall name h

section

variable {listed : Json} {e : Entry} {config : Config}
  {benchmarkVersion suiteId topology balancer : String} {stop : ℤ}
  (hcarries : Carries py registry listed e) (htop : e.topology = .str topology)
  (hconfig : config = configOf benchmarkVersion suiteId topology balancer stop e)

include hcarries hconfig

/-- The workload of a plain run is executed. -/
theorem workload_of_plain (hplain : PlainRun py registry listed) :
    ∃ v, listed.get "workload" (.str "") = .ok v ∧
      if py.lower (py.str v) = "all" then config.workloadFilter = "all"
      else ∃ key ∈ selectedWorkloads config,
        canonicalWorkloadName py (py.lower (py.str v)) = workloadName key := by
  obtain ⟨v, plugin, hv, hresolve, hcli⟩ := hcarries.workload
  obtain ⟨name, plugin', hname, hresolve', hcliName, hmemName, hlower⟩ := hplain.workload
  obtain rfl := Except.ok.inj (hv.symm.trans hname)
  obtain rfl := Option.some.inj (hresolve.symm.trans hresolve')
  have hfilter : config.workloadFilter = name := by
    have hall : ∀ name ∈ "all" :: workloadKeys, CStrings.toLower name = name := by decide +kernel
    rw [hconfig]
    show CStrings.toLower e.workloadCli = name
    rw [hcli, hcliName, hall name hmemName]
  refine ⟨.str name, get_of_item hv, ?_⟩
  rw [py.str_str, hlower]
  split
  next hall => rw [hfilter, hall]
  next hne =>
    have hworkload : name ∈ workloadKeys := (List.mem_cons.1 hmemName).resolve_left hne
    have hall : ∀ name ∈ workloadKeys, name ∈ select id workloadKeys name := by decide
    refine ⟨name, ?_, canonicalWorkloadName_of_mem hlower hworkload⟩
    rw [selectedWorkloads, hfilter]
    exact hall name hworkload

include htop

/-- The options of a run of exact letters and values are executed. -/
theorem options_of_exactRun (hvalid : ValidRun py listed) (hexact : ExactRun listed)
    (hbal : topology = "mq" → e.balancer = .str balancer)
    (hbool : e.topology = .str "mq" → ∃ b, e.workStealing = .bool b) :
    listed.item "topology" = .ok (.str config.topology) ∧
      (config.topology = "mq" → listed.item "balancer" = .ok (.str config.balancer) ∧
        listed.get "work_stealing" (.bool true) = .ok (.bool config.workStealing)) := by
  obtain ⟨t, ht, hitem⟩ := hexact.topology
  obtain ⟨v, hv, hkey⟩ := hcarries.topology
  obtain rfl := Except.ok.inj (hitem.symm.trans hv)
  obtain rfl : topology = t := by
    rw [htop] at hkey
    simpa [Json.key?] using hkey.symm
  have hconfigTop : config.topology = topology := by
    rw [hconfig]
    exact toLower_of_mem (List.mem_append_left _ ht)
  refine ⟨by rw [hconfigTop, hitem], fun hmulti => ?_⟩
  obtain rfl : topology = "mq" := hconfigTop.symm.trans hmulti
  obtain ⟨b, hb, hitemBal⟩ := hexact.balancer hitem
  obtain ⟨vb, ws, hvb, hkeyBal, hws, hkeyWs⟩ := hcarries.options hitem
  obtain ⟨w, hw⟩ := workStealing_of_exactRun hvalid.isDict hexact hitem
  obtain ⟨w', hw'⟩ := hbool htop
  obtain rfl := Except.ok.inj ((get_of_item hitemBal).symm.trans hvb)
  obtain rfl := Except.ok.inj (hw.symm.trans hws)
  constructor
  · rw [hbal rfl] at hkeyBal
    obtain rfl : b = balancer := by simpa [Json.key?] using hkeyBal
    rw [hconfig, hitemBal]
    simp [configOf, toLower_of_mem (List.mem_append_right _ hb)]
  · rw [hw'] at hkeyWs
    obtain rfl : w = w' := by
      revert hkeyWs
      cases w <;> cases w' <;> simp [Json.key?]
    rw [hconfig, hw]
    simp [configOf, hw', Json.isFalse]

end

/-- **A plain run that is executed as a case looks like what was executed.** -/
theorem looksLike_of_plain {listed : Json} {e : Entry} {binPath : String} {argv : List String}
    {config : Config} (hpy : ReadsIntegers py) (hcarries : Carries py registry listed e)
    (hvalid : ValidRun py listed) (hexact : ExactRun listed) (hplain : PlainRun py registry listed)
    (hbool : e.topology = .str "mq" → ∃ b, e.workStealing = .bool b)
    (hcommand : buildCommand binPath args.suite e = some argv)
    (hparse : parseArgs argv = .ok config)
    {exact : Binary64.nearest stopTime = stopTime ∧ |stopTime| < 2 ^ 1024}
    (hread : py.floatOfStr (printDouble config.stopTime) = some (.finite stopTime exact)) :
    LooksLike py config stopTime listed := by
  obtain ⟨benchmarkVersion, suiteId, topology, balancer, stop, -, -, htop, hstop, hbal, hconfig⟩ :=
    configOf_of_buildCommand hcommand hparse
  obtain ⟨hcores, htasks, happrox⟩ :=
    numbers_of_plain hpy hplain hvalid hcarries hstop hconfig hread
  obtain ⟨vc, hvc, hc⟩ := hcarries.cores
  obtain ⟨vn, hvn, hn⟩ := hcarries.numTasks
  obtain ⟨vs, hvs, hs⟩ := hcarries.stopTime
  obtain ⟨htopology, hoptions⟩ := options_of_exactRun hcarries htop hconfig hvalid hexact hbal hbool
  exact ⟨workload_of_plain hcarries hconfig hplain, ⟨vc, hvc, hc.trans (congrArg _ hcores)⟩,
    ⟨vn, hvn, hn.trans (congrArg _ htasks)⟩, ⟨vs, _, hvs, hs, happrox⟩, htopology, hoptions⟩

/-- In a conventional suite an id names its experiment. -/
theorem named_of_conventional {doc exp : Json} {id : String}
    (hconventional : Conventional doc experiments) (hexp : exp ∈ experiments)
    (hid : exp.item "id" = .ok (.str id)) : Named experiments (.str id) exp := by
  have hkey : experimentKey exp = .ok (.str id) := bind_eq_ok.2 ⟨_, hid, rfl⟩
  obtain ⟨before, after, rfl⟩ := List.append_of_mem hexp
  refine ⟨before, after, rfl, hkey, fun later hlater hsame => ?_⟩
  have hdistinct := hconventional.distinct
  rw [List.map_append, List.map_cons] at hdistinct
  refine (List.nodup_cons.1 hdistinct.of_append_right).1 (List.mem_map.2 ⟨later, hlater, ?_⟩)
  rw [experimentKey_eq_ok.1 hsame, experimentKey_eq_ok.1 hkey]

/-- In a conventional suite the explicit runs have the exact letters and values. -/
theorem exactRun_of_conventional {doc : Json} {runs : List PlannedRun}
    (hconventional : Conventional doc experiments) (hlinks : ListChecks py doc experiments)
    (hruns : plannedRuns experiments = .ok runs) :
    ∀ planned ∈ runs, ValidRun py planned.run ∧ ExactRun planned.run := by
  intro planned hplanned
  obtain ⟨exp, hexp, -, v, items, hv, hitems, hrun⟩ := exists_of_mem_plannedRuns hruns hplanned
  obtain ⟨listed, hget, hall⟩ := hlinks.runs exp hexp
  obtain rfl := Except.ok.inj (hget.symm.trans hv)
  obtain rfl := Except.ok.inj hitems
  refine ⟨hall _ hrun, hconventional.exact exp hexp listed ?_ _ hrun⟩
  obtain ⟨value, hvalue⟩ := (contains_eq_true (isDict_of_get hget).choose_spec).1
    (hconventional.keys exp hexp "runs" (by simp [requiredExperimentKeys]))
  rw [hvalue, Except.ok.inj ((get_of_item hvalue).symm.trans hget)]

/-- **For a suite as the documentation writes it**, with runs that are plain: the experiments are
the same exactly when every experiment that lists a run that looks like what was executed, itself or
from the experiment it reuses, has a run of the case as well. -/
theorem sameRuns_iff_of_conventional {runs : List PlannedRun} {s : PlanState} {e : Entry}
    {binPath : String} {argv : List String} {config : Config}
    (hconventional : Conventional args.suite experiments)
    (hlinks : ListChecks py args.suite experiments)
    (hpy : ReadsIntegers py) (hruns : plannedRuns experiments = .ok runs)
    (hfold : runs.foldlM (planRun py registry args) {} = .ok s) (he : e ∈ s.plan)
    (hplain : ∀ planned ∈ runs, PlainRun py registry planned.run)
    (hcommand : buildCommand binPath args.suite e = some argv)
    (hparse : parseArgs argv = .ok config)
    {exact : Binary64.nearest stopTime = stopTime ∧ |stopTime| < 2 ^ 1024}
    (hread : py.floatOfStr (printDouble config.stopTime) = some (.finite stopTime exact)) :
    SameRuns py registry args experiments runs e (LooksLike py config stopTime) ↔
      ∀ key run, Lists experiments key run → LooksLike py config stopTime run →
        Owns py registry args runs e key := by
  obtain ⟨cases, hs⟩ := covers_of_foldlM hfold
  have hstr : ∀ {key run}, Lists experiments key run → ∃ id, key = .str id ∧ id ≠ "" := by
    intro key run hlists
    obtain ⟨exp, hnamed⟩ := hlists.named
    obtain ⟨id, hid, -, hne⟩ := hconventional.ids exp hnamed.mem
    obtain ⟨-, -, -, hkey, -⟩ := hnamed
    obtain ⟨v, hv, hhash⟩ := bind_eq_ok.1 hkey
    obtain rfl := Except.ok.inj (hid.symm.trans hv)
    exact ⟨id, (Option.some.inj (hashed_eq_ok.1 hhash)).symm, hne⟩
  have howns : ∀ key, Owns py registry args runs e key → ∃ run, Lists experiments key run ∧
      LooksLike py config stopTime run := by
    rintro key ⟨i, planned, hi, hkey, hexecuted⟩
    have hall := exactRun_of_conventional hconventional hlinks hruns
    obtain ⟨exp, hexp, hid, v, items, hv, hitems, hrun⟩ :=
      exists_of_mem_plannedRuns hruns (List.mem_of_getElem? hi)
    obtain ⟨id, hid', -, -⟩ := hconventional.ids exp hexp
    have hexpId : planned.expId = .str id := Except.ok.inj (hid.symm.trans hid')
    obtain rfl : .str id = key := by
      rw [hexpId] at hkey
      exact Option.some.inj hkey
    refine ⟨planned.run, .own (named_of_conventional hconventional hexp hid') hv hitems hrun, ?_⟩
    have hmem := List.mem_of_getElem? hi
    exact looksLike_of_plain hpy (hs.carries he hi hexecuted) (hall planned hmem).1
      (hall planned hmem).2 (hplain planned hmem) (workStealing_of_foldlM hfold he hall) hcommand
      hparse hread
  constructor
  · intro h key run hlists hlooks
    obtain ⟨id, rfl, hne⟩ := hstr hlists
    exact h.owned _ run (by simpa [keyTruthy] using hne) hlists hlooks
  · intro h
    refine ⟨?_, fun exp hexp => ?_, .inr (.inr fun key hkey => ?_), fun key hkey => ?_,
      fun key run _ => h key run⟩
    · obtain ⟨suiteId, hsuiteId, hstrip⟩ := hconventional.suiteId
      have hne : suiteId ≠ "" := by
        rintro rfl
        exact hstrip (by decide +kernel)
      exact ⟨_, .str suiteId, hsuiteId, by simpa [Json.truthy] using hne, rfl⟩
    · obtain ⟨id, hid, -⟩ := hconventional.ids exp hexp
      exact ⟨.str id, bind_eq_ok.2 ⟨_, hid, rfl⟩⟩
    · obtain ⟨run, hlists, -⟩ := howns key hkey
      obtain ⟨id, rfl, -⟩ := hstr hlists
      rfl
    · obtain ⟨run, hlists, hlooks⟩ := howns key hkey
      obtain ⟨id, rfl, hne⟩ := hstr hlists
      exact ⟨by simpa [keyTruthy] using hne, run, hlists, hlooks⟩

end

/-- The case was executed as this run, which left these rows in its `metrics.csv`. -/
structure Executed (py : Builtins) (args : PlanArgs) (e : Entry) (run : Run) (stopTime : ℚ)
    (rows : List DictRow) : Prop where
  command : ∃ binPath argv, buildCommand binPath args.suite e = some argv ∧
    parseArgs argv = .ok run.config
  valid : run.Valid
  combinations : combinations run.config ≠ []
  stopTime : ∃ exact,
    py.floatOfStr (printDouble run.config.stopTime) = some (.finite stopTime exact)
  rows : dictReader run.directory.metricsCsv = .ok rows

/-- **When both ways of finding the experiments of a run agree.**  For every accepted suite without
circular links, every plan of all its experiments, every case of the plan and every summary: the
experiments that the case lists and those that are inferred from the suite and the summary are the
same if and only if the experiments with a run of the case are those that list a run that matches
the summary, by themselves or by reuse.  For the run that the case was executed as, and its summary
made of the rows of `metrics.csv` or taken from the manifest, these are the runs that look like the
executed one.  In a suite as the documentation writes it, with plain runs, that is to say: if
whoever lists such a run has a run of the case. -/
theorem sameExperiments_iff (py : Builtins) (registry : BenchmarkPluginRegistry) {args : PlanArgs}
    {experiments : List Json} {plan : List Entry} {runs : List PlannedRun} {e : Entry}
    (haccepted : RunSuite.validateSuite py registry args.suite = .ok ())
    (hlisted : args.suite.item "experiments" = .ok (.list experiments))
    (hacyclic : ∀ key, ¬ TransGen (Reuses experiments) key key)
    (hplan : buildRunPlan py registry args experiments = .ok plan)
    (hruns : plannedRuns experiments = .ok runs) (he : e ∈ plan) :
    (∀ {α : Type} (int : α → ℤ) (runSummary : RunSummary α),
      SameExperiments py int args.suite e runSummary ↔
        SameRuns py registry args experiments runs e (MatchesSummary py int runSummary)) ∧
    (ReadsIntegers py → ∀ (run : Run) (stopTime : ℚ) (rows : List DictRow),
      Executed py args e run stopTime rows →
      (SameExperiments py id args.suite e (summarizeRunRows py rows) ↔
        SameRuns py registry args experiments runs e (LooksLike py run.config stopTime)) ∧
      (SameExperiments py Builtins.truncate args.suite e
          (GenerateRunManifests.runSummary py rows) ↔
        SameRuns py registry args experiments runs e (LooksLike py run.config stopTime)) ∧
      (Conventional args.suite experiments →
        (∀ planned ∈ runs, PlainRun py registry planned.run) →
        (SameRuns py registry args experiments runs e (LooksLike py run.config stopTime) ↔
          ∀ key listed, Lists experiments key listed →
            LooksLike py run.config stopTime listed → Owns py registry args runs e key))) := by
  obtain ⟨runs', s, hruns', hfold, rfl⟩ := buildRunPlan_eq_ok hplan
  obtain rfl := Except.ok.inj (hruns.symm.trans hruns')
  have hlinks : ListChecks py args.suite experiments := listChecks_of_runner haccepted hlisted
  have hsame : ∀ {α : Type} (int : α → ℤ) (runSummary : RunSummary α),
      SameExperiments py int args.suite e runSummary ↔
        SameRuns py registry args experiments runs e (MatchesSummary py int runSummary) :=
    fun _ _ => sameExperiments_iff_sameRuns hlinks hlisted hacyclic hruns hfold he
  refine ⟨hsame, fun hpy run stopTime rows hexecuted => ?_⟩
  obtain ⟨⟨binPath, argv, hcommand, hparse⟩, hvalid, hne, ⟨exact, hstop⟩, hread⟩ := hexecuted
  have hconfig := validateConfig_eq_ok.1 hvalid.accepted
  have hlooks : ∀ {α : Type} {int : α → ℤ} {num : ℤ → α}, (∀ k, int (num k) = k) →
      (SameExperiments py int args.suite e (run.summary num stopTime) ↔
        SameRuns py registry args experiments runs e (LooksLike py run.config stopTime)) :=
    fun hint => (hsame _ _).trans
      (sameRuns_congr fun _ => matchesSummary_iff_looksLike hint hconfig)
  rw [summarizeRunRows_eq hpy hvalid hne hstop hread, runSummary_eq hpy hvalid hne hstop hread]
  exact ⟨hlooks fun _ => rfl, hlooks Builtins.truncate_intCast, fun hconventional hplain =>
    sameRuns_iff_of_conventional hconventional hlinks hpy hruns hfold he hplain hcommand hparse
      hstop⟩

/-! ### A sample suite -/

/-- Two experiments, of which the second reuses the first, and has the given runs of its own -/
def sharedExperiments (own : List Json) : List Json :=
  [.dict [("id", .str "exp1"), ("title", .str "One"), ("objective", .str "None"),
      ("runs", .list [sampleRun (.int 100) [("topology", .str "sq")]])],
    .dict [("id", .str "exp2"), ("title", .str "Two"), ("objective", .str "None"),
      ("runs", .list own), ("reuse_from_experiment", .str "exp1")]]

def sharedArgs (own : List Json) : PlanArgs where
  suite := .dict [("schema_version", .str "suite.v1"), ("benchmark_version", .str "community-v1"),
    ("suite_id", .str "sample"), ("title", .str "Sample"), ("description", .str "Sample"),
    ("defaults", .dict [("scheduler", .str "all"), ("replications", .int 1),
      ("topology", .str "sq"), ("seed_base", .int 1)]),
    ("experiments", .list (sharedExperiments own))]
  dedupe := true
  schedulerKey := "all"
  replications := 1
  seedBase := 1
  runsDir := "/runs"

/-- The run of its only case, with nothing in it -/
def sharedRun : Run where
  suiteName := "sample"
  runName := "sample-001-desktop-1c-n10-t100-sq"
  config :=
    { numTasks := 10, stopTime := .ofRat 100, workloadFilter := "desktop", suiteId := "sample",
      runId := "sample-001-desktop-1c-n10-t100-sq", seedBase := 1001,
      artifactDir := "/runs/sample/sample-001-desktop-1c-n10-t100-sq" }
  outcome _ := ({}, [])

theorem acyclic_sharedExperiments (own : List Json) (key : Json.Key) :
    ¬ TransGen (Reuses (sharedExperiments own)) key key := by
  have hlink : ∀ key parentKey, Reuses (sharedExperiments own) key parentKey →
      key = .str "exp2" ∧ parentKey = .str "exp1" := by
    rintro key parentKey ⟨exp, parent, hnamed, hparent, -, hhash⟩
    have hexp := hnamed.mem
    obtain ⟨-, -, -, hkey, -⟩ := hnamed
    simp only [sharedExperiments, List.mem_cons, List.not_mem_nil, or_false] at hexp
    rcases hexp with rfl | rfl
    · cases hparent
    · cases hparent
      cases hhash
      cases hkey
      exact ⟨rfl, rfl⟩
  intro hcycle
  obtain ⟨_, hfirst, -⟩ := TransGen.head'_iff.1 hcycle
  obtain ⟨_, -, hlast⟩ := TransGen.tail'_iff.1 hcycle
  have hkeys := (hlink _ _ hfirst).1.symm.trans (hlink _ _ hlast).2
  revert hkeys
  decide

/-- The sample is accepted, and has one case, with the run above. -/
theorem exists_sharedCase (own : List Json) (keys : List (Option Json.Key))
    (haccepted : (RunSuite.validateSuite numeralBuiltins sampleNames (sharedArgs own).suite).toBool
      = true)
    (hplanned : (buildRunPlan numeralBuiltins sampleNames (sharedArgs own)
      (sharedExperiments own)).toOption.any (fun plan => plan.any fun e =>
        decide (e.experiments.map Json.key? = keys) &&
          decide ((buildCommand "scheduler_sim" (sharedArgs own).suite e).map parseArgs
            = some (.ok sharedRun.config))) = true) :
    RunSuite.validateSuite numeralBuiltins sampleNames (sharedArgs own).suite = .ok () ∧
      ∃ plan, buildRunPlan numeralBuiltins sampleNames (sharedArgs own) (sharedExperiments own)
        = .ok plan ∧ ∃ e ∈ plan, e.experiments.map Json.key? = keys ∧
        ∃ argv, buildCommand "scheduler_sim" (sharedArgs own).suite e = some argv ∧
          parseArgs argv = .ok sharedRun.config := by
  refine ⟨eq_ok_of_toBool haccepted, ?_⟩
  obtain ⟨plan, hplan, hany⟩ := exists_ok_of_any _ hplanned
  refine ⟨plan, hplan, ?_⟩
  obtain ⟨e, he, hcheck⟩ := List.any_eq_true.1 hany
  simp only [Bool.and_eq_true, decide_eq_true_eq, Option.map_eq_some_iff] at hcheck
  exact ⟨e, he, hcheck.1, hcheck.2⟩

/-- An integer that a double holds is converted to it. -/
theorem float_of_int {py : Builtins} {n : ℤ} (h : |n| < 2 ^ 53) :
    py.float (.int n) = .ok (.ofRat n) := by
  obtain ⟨exact, hfinite⟩ := ofRat_intCast h
  have hofInt : Builtins.floatOfInt n = .ok (.ofRat n) := by
    unfold Builtins.floatOfInt
    simp only [hfinite]
  exact hofInt

theorem valid_sharedRun : sharedRun.Valid :=
  ⟨by decide +kernel, ⟨by decide, by decide⟩, by decide, ⟨by decide, by decide, by decide⟩,
    by decide, fun _ _ ht => absurd ht List.not_mem_nil⟩

/-- A case with this configuration is executed as the sample run. -/
theorem executed_sharedRun {own : List Json} {e : Entry} {argv : List String}
    (hcommand : buildCommand "scheduler_sim" (sharedArgs own).suite e = some argv)
    (hparse : parseArgs argv = .ok sharedRun.config) :
    Executed numeralBuiltins (sharedArgs own) e sharedRun 100
      ((combinations sharedRun.config).map sharedRun.row) := by
  have hprint : printDouble sharedRun.config.stopTime = toString (100 : ℤ) := by decide +kernel
  obtain ⟨exact, hstop⟩ := floatOfStr_toString readsIntegers_numeralBuiltins (k := 100) (by decide)
  exact ⟨⟨"scheduler_sim", argv, hcommand, hparse⟩, valid_sharedRun, by decide +kernel,
    ⟨exact, hprint ▸ hstop⟩, readMetrics_rows valid_sharedRun⟩

theorem plainRun_sample : PlainRun numeralBuiltins sampleNames
    (sampleRun (.int 100) [("topology", .str "sq")]) := by
  refine ⟨⟨"desktop", samplePlugin "desktop", rfl, ?_, rfl, by decide, by decide +kernel⟩,
    ⟨_, 1, rfl, rfl, by norm_num⟩, ⟨_, 10, rfl, rfl, by norm_num⟩,
    ⟨.int 100, 100, rfl, float_of_int (by decide), by decide, by decide +kernel⟩⟩
  decide +kernel

theorem hasKey_of_map {values : List Json} {keys : List (Option Json.Key)} {key : Json.Key}
    (h : values.map Json.key? = keys) (hmem : some key ∈ keys) : HasKey values key := by
  rw [← h] at hmem
  exact List.mem_map.1 hmem

/-- The run of the sample looks like the executed one. -/
theorem looksLike_sample : LooksLike numeralBuiltins sharedRun.config 100
    (sampleRun (.int 100) [("topology", .str "sq")]) := by
  refine ⟨⟨_, rfl, ?_⟩, ⟨_, rfl, rfl⟩, ⟨_, rfl, rfl⟩,
    ⟨_, _, rfl, float_of_int (by decide), ?_⟩, rfl, ?_⟩
  · rw [if_neg (by decide +kernel)]
    exact ⟨"desktop", by decide, by decide +kernel⟩
  · decide +kernel
  · intro hmq
    exact absurd hmq (by decide)

/-- The second experiment lists the run of the first. -/
theorem lists_sample (own : List Json) : Lists (sharedExperiments own) (.str "exp2")
    (sampleRun (.int 100) [("topology", .str "sq")]) := by
  refine .reused ⟨_, .str "exp1", ⟨[_], [], rfl, rfl, by simp⟩, rfl, by decide, rfl⟩
    (.own ⟨[], [_], rfl, rfl, fun later hlater => ?_⟩ rfl rfl (List.mem_singleton.2 rfl))
  obtain rfl := List.mem_singleton.1 hlater
  exact fun h => absurd (Json.Key.str.inj (Except.ok.inj h)) (by decide)

/-- **The two ways may differ**: a suite whose second experiment only reuses the first. -/
theorem sameExperiments_false :
    ¬ ∀ (registry : BenchmarkPluginRegistry) (args : PlanArgs) (experiments : List Json)
      (plan : List Entry) (e : Entry) (binPath : String) (argv : List String) (run : Run)
      (rows : List DictRow),
      RunSuite.validateSuite numeralBuiltins registry args.suite = .ok () →
      args.suite.item "experiments" = .ok (.list experiments) →
      (∀ key, ¬ TransGen (Reuses experiments) key key) →
      buildRunPlan numeralBuiltins registry args experiments = .ok plan → e ∈ plan →
      buildCommand binPath args.suite e = some argv → parseArgs argv = .ok run.config →
      run.Valid → dictReader run.directory.metricsCsv = .ok rows →
      SameExperiments numeralBuiltins id args.suite e (summarizeRunRows numeralBuiltins rows) := by
  intro hall
  obtain ⟨haccepted, plan, hplan, e, he, -, argv, hcommand, hparse⟩ :=
    exists_sharedCase [] [some (.str "exp1")] (by decide +kernel)
      (by decide +kernel)
  obtain ⟨-, hvalid, hne, ⟨exact, hstop⟩, hread⟩ := executed_sharedRun hcommand hparse
  have hsame := hall sampleNames (sharedArgs []) (sharedExperiments []) plan e "scheduler_sim" argv
    sharedRun _ haccepted rfl (acyclic_sharedExperiments []) hplan he hcommand hparse hvalid hread
  rw [summarizeRunRows_eq readsIntegers_numeralBuiltins hvalid hne hstop hread] at hsame
  obtain ⟨runs, s, hruns, hfold, rfl⟩ := buildRunPlan_eq_ok hplan
  have hsameRuns := (sameExperiments_iff_sameRuns (listChecks_of_runner haccepted rfl) rfl
    (acyclic_sharedExperiments []) hruns hfold he).1 hsame
  have hmatches : MatchesSummary numeralBuiltins id (sharedRun.summary id 100)
      (sampleRun (.int 100) [("topology", .str "sq")]) :=
    (matchesSummary_iff_looksLike (fun _ => rfl)
      (validateConfig_eq_ok.1 hvalid.accepted)).2 looksLike_sample
  obtain ⟨i, planned, hi, hkey, -⟩ :=
    hsameRuns.owned (.str "exp2") _ (by decide) (lists_sample []) hmatches
  -- the only explicit run is the one of the first experiment
  obtain rfl : [⟨.str "exp1", 1, sampleRun (.int 100) [("topology", .str "sq")]⟩] = runs :=
    Except.ok.inj hruns
  obtain rfl := List.mem_singleton.1 (List.mem_of_getElem? hi)
  revert hkey
  decide

theorem conventional_shared : Conventional
    (sharedArgs [sampleRun (.int 100) [("topology", .str "sq")]]).suite
    (sharedExperiments [sampleRun (.int 100) [("topology", .str "sq")]]) := by
  refine ⟨⟨"community-v1", rfl, by decide +kernel⟩, ⟨"sample", rfl, by decide +kernel⟩,
    List.cons_ne_nil _ _, ?_, ?_, by decide +kernel, ?_, ?_⟩ <;>
    simp only [sharedExperiments, List.forall_mem_cons, List.not_mem_nil, IsEmpty.forall_iff,
      implies_true, and_true]
  · exact ⟨by decide +kernel, by decide +kernel⟩
  · exact ⟨⟨"exp1", rfl, by decide +kernel, by decide +kernel⟩,
      ⟨"exp2", rfl, by decide +kernel, by decide +kernel⟩⟩
  · refine ⟨?_, ?_⟩
    · rintro parent ⟨⟩
    · rintro parent ⟨⟩ -
      exact ⟨"exp1", rfl⟩
  · have hexact : ExactRun (sampleRun (.int 100) [("topology", .str "sq")]) := by
      exact ⟨⟨"sq", by decide, rfl⟩, fun h => absurd (Json.str.inj (Except.ok.inj h)) (by decide),
        fun h => absurd (Json.str.inj (Except.ok.inj h)) (by decide)⟩
    refine ⟨?_, ?_⟩
    all_goals
      rintro runs ⟨⟩ run hrun
      obtain rfl := List.mem_singleton.1 hrun
      exact hexact

/-- The second experiment has the run of the first as its own, too. -/
theorem sameExperiments_shared :
    let own := [sampleRun (.int 100) [("topology", .str "sq")]]
    ∃ plan, buildRunPlan numeralBuiltins sampleNames (sharedArgs own) (sharedExperiments own)
      = .ok plan ∧ ∃ e ∈ plan, HasKey e.experiments (.str "exp2") ∧
        ∃ rows, dictReader sharedRun.directory.metricsCsv = .ok rows ∧
        SameExperiments numeralBuiltins id (sharedArgs own).suite e
          (summarizeRunRows numeralBuiltins rows) := by
  intro own
  obtain ⟨haccepted, plan, hplan, e, he, hkeys, argv, hcommand, hparse⟩ :=
    exists_sharedCase own [some (.str "exp1"), some (.str "exp2")]
      (by decide +kernel) (by decide +kernel)
  have hexecuted := executed_sharedRun hcommand hparse
  obtain ⟨runs, s, hruns, hfold, rfl⟩ := buildRunPlan_eq_ok hplan
  have hplain : ∀ planned ∈ runs, PlainRun numeralBuiltins sampleNames planned.run := by
    obtain rfl : [⟨.str "exp1", 1, sampleRun (.int 100) [("topology", .str "sq")]⟩,
        ⟨.str "exp2", 1, sampleRun (.int 100) [("topology", .str "sq")]⟩] = runs :=
      Except.ok.inj hruns
    simp only [List.forall_mem_cons, List.not_mem_nil, IsEmpty.forall_iff, implies_true, and_true]
    exact ⟨plainRun_sample, plainRun_sample⟩
  obtain ⟨hiff, -, hfeatures⟩ := (sameExperiments_iff numeralBuiltins sampleNames haccepted rfl
    (acyclic_sharedExperiments own) hplan hruns he).2 readsIntegers_numeralBuiltins sharedRun 100 _
    hexecuted
  refine ⟨_, hplan, e, he, hasKey_of_map hkeys (by decide), _, hexecuted.rows,
    hiff.2 ((hfeatures conventional_shared hplain).2 ?_)⟩
  intro key run hlists _
  obtain ⟨cases, hs⟩ := covers_of_foldlM hfold
  rw [← hs.hasKey_experiments he]
  -- both experiments have a run of the case
  obtain ⟨exp, hnamed⟩ := hlists.named
  have hexp := hnamed.mem
  obtain ⟨-, -, -, hkey, -⟩ := hnamed
  simp only [sharedExperiments, List.mem_cons, List.not_mem_nil, or_false] at hexp
  rcases hexp with rfl | rfl
  · obtain rfl := Except.ok.inj hkey
    exact hasKey_of_map hkeys (by decide)
  · obtain rfl := Except.ok.inj hkey
    exact hasKey_of_map hkeys (by decide)

end AggregateResults

end SchedSim
