import SchedSim.Execution

/-!
# The index of executed cases

Every invocation of the suite runner writes a summary, over the one that the suite had before, and
`scripts/aggregate_results.py` reads all summaries to know which experiments a run belongs to.

* `loadExecutionSummaryIndex_spec` — the index of a directory.
* `executionIndex` — the index after any number of invocations.
-/

namespace SchedSim

open Py RunSuite LastWrite

namespace AggregateResults

/-! ## Reading the summaries -/

/-- What the index keeps of a case -/
structure ExecMeta where
  experiments : List Json
  status : Json
  logPath : Json
  summaryPath : String

/-- The dictionary; the newest entry of a key counts. -/
abbrev ExecutionIndex := List ((Json.Key × Json.Key) × ExecMeta)

/-- One iteration over the cases of a summary -/
def indexCase (suiteId : Json) (summaryPath : String) (index : ExecutionIndex) (case : Json) :
    Py ExecutionIndex := do
  let runId ← case.get "run_id" (.str "")
  if runId.truthy then
    let experiments ← (← case.get "experiments" (.list [])).iterate
    let status ← case.get "status" (.str "")
    let logPath ← case.get "log_path" (.str "")
    let key := (← hashed suiteId, ← hashed runId)
    return (key, { experiments, status, logPath, summaryPath }) :: index
  else return index

/-- `str(path.relative_to(ROOT_DIR))` for a summary -/
def summaryPath (name : String) : String := "runs/manifests/" ++ name

/-- One iteration over the summaries; what is no dictionary, or has no suite, is passed over. -/
def indexSummary (index : ExecutionIndex) (file : String × Json) : Py ExecutionIndex := do
  match file.2 with
  | .dict fields =>
    let doc := Json.dict fields
    let suiteId ← doc.get "suite_id" (.str "")
    if suiteId.truthy then
      (← (← doc.get "cases" (.list [])).iterate).foldlM
        (indexCase suiteId (summaryPath file.1)) index
    else return index
  | _ => return index

/-- `load_execution_summary_index` -/
def loadExecutionSummaryIndex (files : Manifests) : Py ExecutionIndex :=
  (files.mergeSort fun f g => f.1 ≤ g.1).foldlM indexSummary []

/-! ## Summaries that were written -/

/-- What the index keeps of a result -/
def metaOf (name : String) (result : CaseResult) : ExecMeta where
  experiments := result.experiments
  status := .str result.status.word
  logPath := .str result.logPath
  summaryPath := summaryPath name

/-- The entries that a summary adds to the index -/
def entries (suiteId name : String) (summary : Summary) : ExecutionIndex :=
  if suiteId = "" then []
  else summary.cases.map fun result => ((.str suiteId, .str result.runId), metaOf name result)

variable {suiteId name : String} {summary : Summary} {index : ExecutionIndex}

theorem indexCase_toJson {path : String} {result : CaseResult} (hrun : result.runId ≠ "") :
    indexCase (.str suiteId) path index result.toJson = .ok
      (((.str suiteId, .str result.runId),
        ⟨result.experiments, .str result.status.word, .str result.logPath, path⟩) :: index) := by
  have htruthy : (Json.str result.runId).truthy = true := by simpa [Json.truthy] using hrun
  have hstatus : result.toJson.get "status" (.str "") = .ok (.str result.status.word) := by
    rw [CaseResult.toJson, Json.get]
    cases result.returnCode <;> rfl
  rw [indexCase, get_runId_toJson]
  show (if (Json.str result.runId).truthy then _ else _) = _
  rw [if_pos htruthy, hstatus]
  rfl

theorem foldlM_indexCase {results : List CaseResult} (hruns : ∀ c ∈ results, c.runId ≠ "") :
    (results.map CaseResult.toJson).foldlM (indexCase (.str suiteId) (summaryPath name)) index
      = .ok ((results.map fun c => ((Json.Key.str suiteId, Json.Key.str c.runId),
          metaOf name c)).reverse ++ index) := by
  induction results generalizing index with
  | nil => rfl
  | cons c results ih =>
    rw [List.map_cons, List.foldlM_cons, indexCase_toJson (hruns c List.mem_cons_self)]
    refine (ih fun d hd => hruns d (List.mem_cons_of_mem c hd)).trans ?_
    simp [metaOf]

theorem indexSummary_toJson (hsuite : summary.suiteId = .str suiteId)
    (hruns : ∀ c ∈ summary.cases, c.runId ≠ "") :
    indexSummary index (name, summary.toJson)
      = .ok ((entries suiteId name summary).reverse ++ index) := by
  have hsuiteId : summary.toJson.get "suite_id" (.str "") = .ok (.str suiteId) := by
    rw [Summary.toJson, Json.get, hsuite]
    cases summary.stoppedEarly <;> rfl
  have hcases : summary.toJson.get "cases" (.list [])
      = .ok (.list (summary.cases.map CaseResult.toJson)) := by
    rw [Summary.toJson, Json.get]
    rfl
  have hdict : ∃ fields, summary.toJson = .dict fields := ⟨_, rfl⟩
  obtain ⟨fields, hfields⟩ := hdict
  rw [hfields] at hsuiteId hcases ⊢
  simp only [indexSummary, hsuiteId, hcases]
  by_cases hempty : suiteId = ""
  · subst hempty
    rfl
  · rw [entries, if_neg hempty]
    have htruthy : (Json.str suiteId).truthy = true := by simpa [Json.truthy] using hempty
    refine Eq.trans ?_ (foldlM_indexCase hruns)
    show (if (Json.str suiteId).truthy then _ else _) = _
    rw [if_pos htruthy]
    rfl

/-- What the files of some summaries add up to -/
theorem foldlM_indexSummary {l : List (String × String × Summary)}
    (h : ∀ f ∈ l, f.2.2.suiteId = .str f.2.1 ∧ ∀ c ∈ f.2.2.cases, c.runId ≠ "") :
    (l.map fun f => (f.1, f.2.2.toJson)).foldlM indexSummary index
      = .ok ((l.flatMap fun f => entries f.2.1 f.1 f.2.2).reverse ++ index) := by
  induction l generalizing index with
  | nil => rfl
  | cons f l ih =>
    obtain ⟨hsuite, hruns⟩ := h f List.mem_cons_self
    rw [List.map_cons, List.foldlM_cons, indexSummary_toJson hsuite hruns]
    refine (ih fun g hg => h g (List.mem_cons_of_mem f hg)).trans ?_
    simp

/-- The index of a directory of summaries, one for each of some suites: every key is that of a case
of one of them. -/
theorem loadExecutionSummaryIndex_spec {files : List (String × String × Summary)}
    (hfiles : ∀ f ∈ files, f.2.2.suiteId = .str f.2.1 ∧ (∀ c ∈ f.2.2.cases, c.runId ≠ "") ∧
      (f.2.2.cases.map CaseResult.runId).Nodup)
    (hsuites : (files.map fun f => f.2.1).Nodup) :
    ∃ index, loadExecutionSummaryIndex (files.map fun f => (f.1, f.2.2.toJson)) = .ok index ∧
      ∀ key e, index.lookup key = some e ↔ ∃ f ∈ files, (key, e) ∈ entries f.2.1 f.1 f.2.2 := by
  let sorted := files.mergeSort fun f g => f.1 ≤ g.1
  have hperm : sorted.Perm files := List.mergeSort_perm _ _
  have hsorted : (files.map fun f => (f.1, f.2.2.toJson)).mergeSort (fun f g => f.1 ≤ g.1)
      = sorted.map fun f => (f.1, f.2.2.toJson) :=
    (List.map_mergeSort (f := fun f : String × String × Summary => (f.1, f.2.2.toJson))
      (r := fun f g => f.1 ≤ g.1) fun _ _ _ _ => rfl).symm
  refine ⟨(sorted.flatMap fun f => entries f.2.1 f.1 f.2.2).reverse, ?_, ?_⟩
  · rw [loadExecutionSummaryIndex, hsorted]
    refine (foldlM_indexSummary fun f hf => ?_).trans (by simp)
    obtain ⟨hsuite, hruns, -⟩ := hfiles f (hperm.subset hf)
    exact ⟨hsuite, hruns⟩
  · intro key e
    have hkeys : (((sorted.flatMap fun f => entries f.2.1 f.1 f.2.2).reverse).map
        Prod.fst).Nodup := by
      rw [List.map_reverse, List.nodup_reverse, List.map_flatMap, List.nodup_flatMap]
      constructor
      · intro f hf
        rw [entries]
        split
        next => simp
        next =>
          rw [List.map_map]
          have hnodup := (hfiles f (hperm.subset hf)).2.2.map
            (f := fun runId => (Json.Key.str f.2.1, Json.Key.str runId)) fun r r' hr => by
              simpa using hr
          simpa [List.map_map, Function.comp_def] using hnodup
      · have hnodup : (sorted.map fun f => f.2.1).Nodup := (hperm.map _).nodup_iff.2 hsuites
        have hpairwise : sorted.Pairwise fun f g => f.2.1 ≠ g.2.1 := List.pairwise_map.1 hnodup
        refine hpairwise.imp ?_
        intro f g hne k hk hk'
        have hsuite : ∀ (h : String × String × Summary), k ∈ (entries h.2.1 h.1 h.2.2).map
            Prod.fst → k.1 = .str h.2.1 := by
          intro h hk
          unfold entries at hk
          split at hk
          next => simp at hk
          next =>
            obtain ⟨entry, hentry, rfl⟩ := List.mem_map.1 hk
            obtain ⟨c, -, rfl⟩ := List.mem_map.1 hentry
            rfl
        have heq := (hsuite f hk).symm.trans (hsuite g hk')
        exact hne (by simpa using heq)
    rw [lookup_eq_some_iff_mem hkeys, List.mem_reverse, List.mem_flatMap]
    exact ⟨fun ⟨f, hf, hmem⟩ => ⟨f, hperm.subset hf, hmem⟩,
      fun ⟨f, hf, hmem⟩ => ⟨f, hperm.symm.subset hf, hmem⟩⟩

end AggregateResults

namespace RunSuite

/-! ## Invocations of the runner -/

/-- An invocation that has come to its end, with its plan and its summary -/
structure Invocation where
  args : ExecuteArgs
  selected : List Json
  plan : List Entry
  summary : Summary

/-- The id of the suite, which is a string if something was planned -/
def Invocation.suiteId (inv : Invocation) : String :=
  match RunSuite.suiteId inv.args.suite with
  | .ok id => id
  | .error _ => ""

/-- The name of the file that the summary goes to -/
def Invocation.name (inv : Invocation) : String := summaryName inv.suiteId

variable {World : Type}

/-- `main`, from the plan on: the summaries there are, and whatever the processes may change -/
def Invokes (py : Builtins) (registry : BenchmarkPluginRegistry) (proc : Subprocess World)
    (s : Manifests × World) (inv : Invocation) (s' : Manifests × World) : Prop :=
  buildRunPlan py registry inv.args.toPlanArgs inv.selected = .ok inv.plan ∧ inv.plan ≠ [] ∧
    executePlan inv.args proc inv.plan s.2 = .ok (inv.summary, s'.2) ∧
    writeSummary inv.summary inv.args.suite s.1 = .ok s'.1

variable {py : Builtins} {registry : BenchmarkPluginRegistry} {proc : Subprocess World}
  {s s' : Manifests × World} {inv : Invocation} {invs : List Invocation}

/-- The ids of the cases of a plan are distinct. -/
theorem nodup_runIds {args : PlanArgs} {selected : List Json} {plan : List Entry}
    (h : buildRunPlan py registry args selected = .ok plan) : (plan.map Entry.runId).Nodup := by
  obtain ⟨runs, s, -, hfold, rfl⟩ := buildRunPlan_eq_ok h
  have hnamed : ∀ e ∈ s.plan, Named args e :=
    forall_of_foldlM named_newEntry named_addExperiment hfold (by simp)
  obtain ⟨cases, hs⟩ := covers_of_foldlM hfold
  exact nodup_of_injOn hs.indices fun e he e' he' heq =>
    (hnamed e he).caseIndex_eq (hnamed e' he') heq

/-- What an invocation leaves behind: a summary under the name of the suite, which lists cases of
the plan with their ids. -/
structure Invocation.Valid (inv : Invocation) : Prop where
  suiteId : inv.summary.suiteId = .str inv.suiteId
  runIds : ∀ c ∈ inv.summary.cases, c.runId ≠ ""
  nodup : (inv.summary.cases.map CaseResult.runId).Nodup
  reports : ∃ done left, inv.plan = done ++ left ∧
    List.Forall₂ (Reports inv.args) done inv.summary.cases

theorem forall₂_runId {args : ExecuteArgs} {cases : List Entry} {results : List CaseResult}
    (h : List.Forall₂ (Reports args) cases results) :
    results.map CaseResult.runId = cases.map Entry.runId := by
  induction h with
  | nil => rfl
  | cons hreports _ ih => rw [List.map_cons, List.map_cons, ih, hreports.runId]

theorem Invokes.valid (h : Invokes py registry proc s inv s') :
    inv.Valid ∧ s'.1 = put inv.name inv.summary.toJson s.1 := by
  obtain ⟨hplan, -, hexecute, hwrite⟩ := h
  simp only [writeSummary, bind_eq_ok, pure_eq_ok] at hwrite
  obtain ⟨id, hid, hfiles⟩ := hwrite
  have hsuiteId : inv.suiteId = id := by rw [Invocation.suiteId, hid]
  have hsummary : inv.summary.suiteId = .str inv.suiteId := by
    simp only [executePlan, bind_eq_ok, pure_eq_ok] at hexecute
    obtain ⟨suiteId, hitem, version, -, state, -, heq⟩ := hexecute
    simp only [RunSuite.suiteId, bind_eq_ok] at hid
    obtain ⟨suiteId', hitem', hid⟩ := hid
    obtain rfl : suiteId = suiteId' := by simpa using hitem.symm.trans hitem'
    rw [← (Prod.mk.inj heq).1, hsuiteId]
    cases suiteId <;> simp_all [pure, Except.pure]
  obtain ⟨hexec, -, -⟩ := execution_of_executePlan hexecute
  obtain ⟨done, left, hsplit, hreports, -⟩ := hexec.reports
  have hrunIds := forall₂_runId hreports
  refine ⟨⟨hsummary, ?_, ?_, done, left, hsplit, hreports⟩, ?_⟩
  · intro c hc
    have hmem : c.runId ∈ inv.summary.cases.map CaseResult.runId := List.mem_map_of_mem hc
    rw [hrunIds] at hmem
    obtain ⟨e, he, heq⟩ := List.mem_map.1 hmem
    rw [← heq]
    exact (isId_runId hplan e (hsplit ▸ List.mem_append_left _ he)).ne_empty
  · rw [hrunIds]
    have hnodup := nodup_runIds hplan
    rw [hsplit, List.map_append] at hnodup
    exact hnodup.of_append_left
  · rw [Invocation.name, hsuiteId, hfiles]

/-- After any number of invocations the directory has the last summary of every name. -/
theorem manifests_of_run {world world' : World} {files : Manifests}
    (h : Lts.Run (Invokes py registry proc) ([], world) invs (files, world')) :
    files = contents Invocation.name (fun inv => inv.summary.toJson) invs ∧
      ∀ inv ∈ invs, inv.Valid := by
  suffices key : ∀ s s' : Manifests × World, Lts.Run (Invokes py registry proc) s invs s' →
      s.1 = [] → s'.1 = contents Invocation.name (fun inv => inv.summary.toJson) invs ∧
        ∀ inv ∈ invs, inv.Valid from key _ _ h rfl
  clear h
  intro s s' hrun hempty
  induction hrun with
  | nil => simp [contents, hempty]
  | snoc _ hstep ih =>
    obtain ⟨hfiles, hvalid⟩ := ih
    obtain ⟨hinv, hput⟩ := hstep.valid
    rw [contents_concat, ← hfiles]
    refine ⟨hput, ?_⟩
    intro i hi
    rcases List.mem_append.1 hi with hi | hi
    · exact hvalid i hi
    · rwa [List.mem_singleton.1 hi]

end RunSuite

open AggregateResults

end SchedSim
