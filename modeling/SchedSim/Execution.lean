import SchedSim.LastWrite
import SchedSim.Lts
import SchedSim.PlanCover
import SchedSim.RunIds

/-!
# Executing a plan

The second half of `benchmark/runner/run_suite.py`, from a plan to the summary of its execution.

* `Execution` — the cases that are executed, in order, with what their processes return.
* `executePlan_spec` — which cases are executed, and what the summary says of them.
* `runIds_agree` — the simulator writes the id that the runner has in its summary.
-/

namespace SchedSim

namespace RunSuite

open Py CommandLine MetricsRow

/-! ## The summary -/

/-- The status of a case; a case is pending only until its process has ended. -/
inductive Status
  | planned
  | pending
  | ok
  | failed
  deriving DecidableEq

def Status.word : Status → String
  | .planned => "planned"
  | .pending => "pending"
  | .ok => "ok"
  | .failed => "failed"

structure CaseResult where
  caseIndex : ℕ
  runId : String
  experiments : List Json
  command : List String
  logPath : String
  status : Status
  returnCode : Option ℤ := none

structure Summary where
  generatedAtUtc : String
  suiteId : Json
  benchmarkVersion : Json
  binary : String
  dryRun : Bool
  totalCases : ℕ
  cases : List CaseResult
  /-- `failed_case_index` and `failed_run_id` -/
  stoppedEarly : Option (ℕ × String)

def Summary.count (summary : Summary) (status : Status) : ℕ :=
  summary.cases.countP (·.status = status)

/-! ## The loop over the cases -/

/-- The arguments of `main` and `execute_plan` beyond those of the plan -/
structure ExecuteArgs extends PlanArgs where
  binPath : String
  rootDir : String
  now : String
  dryRun : Bool
  continueOnError : Bool

/-- `subprocess.run`: the return code of a command, and what it leaves behind -/
abbrev Subprocess (World : Type) := List String → World → ℤ × World

/-- The variables of the loop -/
structure ExecuteState (World : Type) where
  cases : List CaseResult
  stoppedEarly : Option (ℕ × String)
  world : World

/-- `path.relative_to(root)` -/
def relativeTo (root path : String) : Py String :=
  if (root ++ "/").toList <+: path.toList then
    .ok (String.ofList (path.toList.drop (root ++ "/").length))
  else .error .badValue

variable {World : Type}

/-- The result of a case before its process is started -/
def newResult (args : ExecuteArgs) (case : Entry) : Py CaseResult := do
  let cmd ← (match buildCommand args.binPath args.suite case with
    | some cmd => .ok cmd
    | none => .error .typeError)
  let path ← relativeTo args.rootDir (logPath args.runsDir case)
  return {
    caseIndex := case.caseIndex
    runId := case.runId
    experiments := case.experiments
    command := cmd
    logPath := path
    status := if args.dryRun then .planned else .pending }

/-- The result of a case whose process has ended -/
def CaseResult.ended (result : CaseResult) (code : ℤ) : CaseResult :=
  { result with returnCode := some code, status := if code = 0 then .ok else .failed }

/-- `for idx, case in enumerate(plan, start=1)` -/
def executeCases (args : ExecuteArgs) (proc : Subprocess World) :
    List (Entry × ℕ) → ExecuteState World → Py (ExecuteState World)
  | [], s => .ok s
  | (case, idx) :: rest, s => do
    let result ← newResult args case
    if args.dryRun then
      executeCases args proc rest { s with cases := s.cases ++ [result] }
    else
      let (code, world) := proc result.command s.world
      let result := result.ended code
      if code ≠ 0 ∧ args.continueOnError = false then
        return { cases := s.cases ++ [result], stoppedEarly := some (idx, case.runId), world }
      else
        executeCases args proc rest { s with cases := s.cases ++ [result], world }

def executePlan (args : ExecuteArgs) (proc : Subprocess World) (plan : List Entry)
    (world : World) : Py (Summary × World) := do
  let suiteId ← args.suite.item "suite_id"
  let benchmarkVersion ← args.suite.item "benchmark_version"
  let s ← executeCases args proc (plan.zipIdx 1) { cases := [], stoppedEarly := none, world }
  return ({
    generatedAtUtc := args.now
    suiteId
    benchmarkVersion
    binary := args.binPath
    dryRun := args.dryRun
    totalCases := plan.length
    cases := s.cases
    stoppedEarly := s.stoppedEarly }, s.world)

/-- The exit code of `main` once the summary is written -/
def Summary.exitCode (summary : Summary) : ℤ := if 0 < summary.count .failed then 1 else 0

/-! ## The summary as a document -/

/-- `json.dump` with sorted keys -/
def CaseResult.toJson (result : CaseResult) : Json :=
  .dict ([("case_index", .int result.caseIndex),
      ("command", .list (result.command.map .str)),
      ("experiments", .list result.experiments),
      ("log_path", .str result.logPath)]
    ++ (match result.returnCode with
      | some code => [("return_code", .int code)]
      | none => [])
    ++ [("run_id", .str result.runId), ("status", .str result.status.word)])

def Summary.toJson (summary : Summary) : Json :=
  .dict ([("benchmark_version", summary.benchmarkVersion),
      ("binary", .str summary.binary),
      ("cases", .list (summary.cases.map CaseResult.toJson)),
      ("dry_run", .bool summary.dryRun),
      ("failed", .int (summary.count .failed))]
    ++ (match summary.stoppedEarly with
      | some (idx, runId) => [("failed_case_index", .int idx), ("failed_run_id", .str runId)]
      | none => [])
    ++ [("generated_at_utc", .str summary.generatedAtUtc),
      ("ok", .int (summary.count .ok)),
      ("planned_only", .int (summary.count .planned))]
    ++ (match summary.stoppedEarly with
      | some _ => [("stopped_early", .bool true)]
      | none => [])
    ++ [("suite_id", summary.suiteId),
      ("summary_schema_version", .str "suite-run.v1"),
      ("total_cases", .int summary.totalCases)])

/-- The summaries in the directory of manifests, by their file names -/
abbrev Manifests := List (String × Json)

def summaryName (suiteId : String) : String := sanitizeId suiteId ++ ".execution_summary.json"

/-- `write_summary`, which replaces the file if it is there -/
def writeSummary (summary : Summary) (suite : Json) (files : Manifests) : Py Manifests := do
  let suiteId ← suiteId suite
  return LastWrite.put (summaryName suiteId) summary.toJson files

/-! ## What is executed -/

/-- Processes one after the other: their return codes, and what they leave behind -/
def Subprocess.runAll (proc : Subprocess World) : List (List String) → World → List ℤ × World
  | [], world => ([], world)
  | cmd :: rest, world =>
    let (code, world) := proc cmd world
    let (codes, world) := runAll proc rest world
    (code :: codes, world)

/-- A result is about a case. -/
structure Reports (args : ExecuteArgs) (case : Entry) (result : CaseResult) : Prop where
  caseIndex : result.caseIndex = case.caseIndex
  runId : result.runId = case.runId
  experiments : result.experiments = case.experiments
  command : buildCommand args.binPath args.suite case = some result.command
  logPath : relativeTo args.rootDir (logPath args.runsDir case) = .ok result.logPath

/-- The status that a return code stands for -/
def Status.ofCode (code : ℤ) : Status := if code = 0 then .ok else .failed

/-- The execution of the cases of a plan, up to the last one or to one that fails, unless the runner
is to continue. -/
structure Execution (args : ExecuteArgs) (proc : Subprocess World) (plan : List Entry)
    (world : World)
    (results : List CaseResult) (world' : World) : Prop where
  reports : ∃ done left, plan = done ++ left ∧ List.Forall₂ (Reports args) done results ∧
    (left ≠ [] → args.continueOnError = false ∧ ∃ c ∈ results.getLast?, c.status = .failed)
  quiet : args.continueOnError = false → ∀ c ∈ results.dropLast, c.status ≠ .failed
  dry : args.dryRun = true → world' = world ∧
    ∀ c ∈ results, c.status = .planned ∧ c.returnCode = none
  live : args.dryRun = false → ∃ codes,
    proc.runAll (results.map CaseResult.command) world = (codes, world') ∧
      results.map (fun c => (c.returnCode, c.status))
        = codes.map fun code => (some code, Status.ofCode code)

variable {args : ExecuteArgs} {proc : Subprocess World} {case : Entry} {result : CaseResult}
  {plan : List Entry} {results : List CaseResult} {world world₁ world' : World} {code : ℤ}

theorem newResult_spec (h : newResult args case = .ok result) : Reports args case result ∧
    result.returnCode = none ∧ result.status = if args.dryRun then .planned else .pending := by
  simp only [newResult, bind_eq_ok, pure_eq_ok] at h
  obtain ⟨cmd, hcmd, path, hpath, rfl⟩ := h
  have hbuild : buildCommand args.binPath args.suite case = some cmd := by
    split at hcmd
    next cmd' heq => simpa using heq.trans (congrArg some (Except.ok.inj hcmd))
    next => cases hcmd
  exact ⟨⟨rfl, rfl, rfl, hbuild, hpath⟩, rfl, rfl⟩

theorem Reports.ended (h : Reports args case result) : Reports args case (result.ended code) :=
  ⟨h.caseIndex, h.runId, h.experiments, h.command, h.logPath⟩

theorem Execution.nil : Execution args proc [] world [] world where
  reports := ⟨[], [], rfl, .nil, fun h => absurd rfl h⟩
  quiet _ c hc := by simp at hc
  dry _ := ⟨rfl, fun c hc => by simp at hc⟩
  live _ := ⟨[], rfl, rfl⟩

/-- A case that does not end the loop comes before those that are executed after it. -/
theorem Execution.cons (h : Execution args proc plan world₁ results world')
    (hreports : Reports args case result)
    (hquiet : args.continueOnError = false → result.status ≠ .failed)
    (hdry : args.dryRun = true → world₁ = world ∧ result.status = .planned ∧
      result.returnCode = none)
    (hlive : args.dryRun = false → ∃ code, proc result.command world = (code, world₁) ∧
      result.returnCode = some code ∧ result.status = Status.ofCode code) :
    Execution args proc (case :: plan) world (result :: results) world' where
  reports := by
    obtain ⟨done, left, rfl, hdone, hleft⟩ := h.reports
    refine ⟨case :: done, left, rfl, .cons hreports hdone, ?_⟩
    intro hne
    obtain ⟨hcontinue, c, hc, hfailed⟩ := hleft hne
    refine ⟨hcontinue, c, ?_, hfailed⟩
    rw [List.getLast?_cons, Option.mem_def.1 hc]
    rfl
  quiet := by
    intro hcontinue c hc
    cases results with
    | nil => simp at hc
    | cons next rest =>
      rw [List.dropLast_cons_cons] at hc
      rcases List.mem_cons.1 hc with rfl | hc
      · exact hquiet hcontinue
      · exact h.quiet hcontinue c hc
  dry := by
    intro hd
    obtain ⟨hworld, hstatus⟩ := h.dry hd
    obtain ⟨hworld₁, hresult⟩ := hdry hd
    refine ⟨hworld.trans hworld₁, ?_⟩
    intro c hc
    rcases List.mem_cons.1 hc with rfl | hc
    · exact hresult
    · exact hstatus c hc
  live := by
    intro hd
    obtain ⟨codes, hrun, hcodes⟩ := h.live hd
    obtain ⟨code, hproc, hcode, hstatus⟩ := hlive hd
    refine ⟨code :: codes, ?_, ?_⟩
    · rw [List.map_cons, Subprocess.runAll, hproc]
      simp only [hrun]
    · rw [List.map_cons, List.map_cons, hcodes, hcode, hstatus]

/-- A case that ends the loop is the last one. -/
theorem Execution.stop (hreports : Reports args case result) (hd : args.dryRun = false)
    (hcontinue : args.continueOnError = false) (hproc : proc result.command world = (code, world'))
    (hcode : code ≠ 0) : Execution args proc (case :: plan) world [result.ended code] world' where
  reports := by
    refine ⟨[case], plan, rfl, .cons hreports.ended .nil, ?_⟩
    intro _
    exact ⟨hcontinue, result.ended code, rfl, if_neg hcode⟩
  quiet _ c hc := by simp at hc
  dry hdry := by simp [hd] at hdry
  live _ := by
    refine ⟨[code], ?_, rfl⟩
    have hcommand : (result.ended code).command = result.command := rfl
    simp [Subprocess.runAll, hcommand, hproc]

/-- What the loop says of a failure that has ended it -/
def stopOf (args : ExecuteArgs) (count : ℕ) (results : List CaseResult) : Option (ℕ × String) :=
  if args.continueOnError then none
  else (results.getLast?.filter (·.status = .failed)).map fun c => (count + results.length, c.runId)

theorem stopOf_cons (count : ℕ) (hquiet : args.continueOnError = false → result.status ≠ .failed) :
    stopOf args count (result :: results) = stopOf args (count + 1) results := by
  unfold stopOf
  split
  next => rfl
  next hcontinue =>
    cases results with
    | nil => simp [Option.filter, hquiet (by simpa using hcontinue)]
    | cons next rest =>
      rw [List.getLast?_cons_cons, List.length_cons, ← add_assoc, add_right_comm]

/-- What the loop does from some point on -/
theorem executeCases_spec {s s' : ExecuteState World} (hnone : s.stoppedEarly = none)
    (h : executeCases args proc (plan.zipIdx (s.cases.length + 1)) s = .ok s') :
    ∃ results, s'.cases = s.cases ++ results ∧ Execution args proc plan s.world results s'.world ∧
      s'.stoppedEarly = stopOf args s.cases.length results := by
  induction plan generalizing s with
  | nil =>
    obtain rfl : s = s' := Except.ok.inj h
    refine ⟨[], by simp, .nil, ?_⟩
    rw [hnone]
    simp [stopOf]
  | cons case plan ih =>
    rw [List.zipIdx_cons, executeCases, bind_eq_ok] at h
    obtain ⟨result, hresult, h⟩ := h
    obtain ⟨hreports, hcode, hstatus⟩ := newResult_spec hresult
    split at h
    next hdry =>
      have hplanned : result.status = .planned := by rw [hstatus, if_pos hdry]
      obtain ⟨results, hcases, hexec, hstop⟩ := ih
        (s := { s with cases := s.cases ++ [result] }) hnone (by simpa using h)
      refine ⟨result :: results, by simpa using hcases, ?_, ?_⟩
      · apply hexec.cons hreports
        · intro _
          simp [hplanned]
        · intro _
          exact ⟨rfl, hplanned, hcode⟩
        · intro hlive
          simp [hdry] at hlive
      · rw [stopOf_cons _ fun _ => by simp [hplanned], hstop]
        simp
    next hdry =>
      have hlive : args.dryRun = false := by simpa using hdry
      obtain ⟨code, world, hproc⟩ : ∃ code world, proc result.command s.world = (code, world) :=
        ⟨_, _, rfl⟩
      simp only [hproc] at h
      split at h
      next hfail =>
        obtain rfl := pure_eq_ok.1 h
        refine ⟨[result.ended code], rfl, .stop hreports hlive hfail.2 hproc hfail.1, ?_⟩
        simp [stopOf, hfail.2, CaseResult.ended, hfail.1, hreports.runId, Option.filter]
      next hgo =>
        have hquiet : args.continueOnError = false → (result.ended code).status ≠ .failed := by
          intro hcontinue
          have hzero : code = 0 := by
            by_contra hne
            exact hgo ⟨hne, hcontinue⟩
          simp [CaseResult.ended, hzero]
        obtain ⟨results, hcases, hexec, hstop⟩ := ih
          (s := { s with cases := s.cases ++ [result.ended code], world }) hnone (by simpa using h)
        refine ⟨result.ended code :: results, by simpa using hcases, ?_, ?_⟩
        · apply hexec.cons hreports.ended hquiet
          · intro hd
            simp [hd] at hdry
          · intro _
            exact ⟨code, hproc, rfl, rfl⟩
        · rw [stopOf_cons _ hquiet, hstop]
          simp

/-- No executed case is pending. -/
theorem Execution.status_ne_pending (h : Execution args proc plan world results world')
    {c : CaseResult} (hc : c ∈ results) : c.status ≠ .pending := by
  cases hdry : args.dryRun with
  | true =>
    rw [((h.dry hdry).2 c hc).1]
    simp
  | false =>
    obtain ⟨codes, -, hcodes⟩ := h.live hdry
    have hmem : (c.returnCode, c.status) ∈ codes.map fun code => (some code, Status.ofCode code) :=
      hcodes ▸ List.mem_map_of_mem hc
    obtain ⟨code, -, heq⟩ := List.mem_map.1 hmem
    rw [← (Prod.mk.inj heq).2, Status.ofCode]
    split <;> simp

/-- The three counts of the summary cover its cases. -/
theorem count_add_count {cases : List CaseResult} (h : ∀ c ∈ cases, c.status ≠ .pending) :
    cases.countP (·.status = .ok) + cases.countP (·.status = .failed)
      + cases.countP (·.status = .planned) = cases.length := by
  induction cases with
  | nil => simp
  | cons c cases ih =>
    have hrest := ih fun d hd => h d (List.mem_cons_of_mem c hd)
    have hc := h c List.mem_cons_self
    simp only [List.countP_cons, List.length_cons, decide_eq_true_eq]
    cases hstatus : c.status <;> simp [hstatus] at hc ⊢ <;> omega

/-- The loop of `execute_plan`, seen from its result -/
theorem execution_of_executePlan {summary : Summary}
    (h : executePlan args proc plan world = .ok (summary, world')) :
    Execution args proc plan world summary.cases world' ∧
      summary.totalCases = plan.length ∧ summary.stoppedEarly = stopOf args 0 summary.cases := by
  simp only [executePlan, bind_eq_ok, pure_eq_ok] at h
  obtain ⟨suiteId, -, version, -, s, hloop, heq⟩ := h
  obtain ⟨rfl, rfl⟩ := Prod.mk.inj heq
  obtain ⟨results, hcases, hexec, hstop⟩ := executeCases_spec
    (s := { cases := [], stoppedEarly := none, world }) rfl hloop
  obtain rfl : s.cases = results := hcases
  exact ⟨hexec, rfl, hstop⟩

theorem exists_reports {cases : List Entry} (h : List.Forall₂ (Reports args) cases results)
    (hresult : result ∈ results) : ∃ case ∈ cases, Reports args case result := by
  induction h with
  | nil => simp at hresult
  | cons hreport _ ih =>
    rcases List.mem_cons.1 hresult with rfl | hresult
    · exact ⟨_, List.mem_cons_self, hreport⟩
    · obtain ⟨case, hcase, hreport⟩ := ih hresult
      exact ⟨case, List.mem_cons_of_mem _ hcase, hreport⟩

/-- Every case of a summary is one of the plan. -/
theorem Execution.exists_case (h : Execution args proc plan world results world')
    (hresult : result ∈ results) : ∃ case ∈ plan, Reports args case result := by
  obtain ⟨done, left, rfl, hreports, -⟩ := h.reports
  obtain ⟨case, hcase, hreport⟩ := exists_reports hreports hresult
  exact ⟨case, List.mem_append_left _ hcase, hreport⟩

/-- What a reader of the summary finds under `run_id` -/
theorem get_runId_toJson (result : CaseResult) :
    result.toJson.get "run_id" (.str "") = .ok (.str result.runId) := by
  rw [CaseResult.toJson, Json.get]
  cases result.returnCode <;> rfl

/-- **What a summary says.** Whatever the processes return: the cases are executed in the order of
the plan and reported as they were planned, each by the command that was built for it; the loop
goes through all of the plan unless it is to stop at a failure, and then it stops at the first one,
which the summary names; a dry run starts no process and reports all cases as planned; and the
numbers of cases that are said to be successful, failed and planned add up to all of them, the
runner exiting with an error exactly if one of them has failed. -/
theorem executePlan_spec {summary : Summary}
    (h : executePlan args proc plan world = .ok (summary, world')) :
    Execution args proc plan world summary.cases world' ∧
      summary.totalCases = plan.length ∧
      summary.stoppedEarly = stopOf args 0 summary.cases ∧
      summary.count .ok + summary.count .failed + summary.count .planned = summary.cases.length ∧
      (summary.exitCode ≠ 0 ↔ ∃ c ∈ summary.cases, c.status = .failed) := by
  obtain ⟨hexec, htotal, hstop⟩ := execution_of_executePlan h
  refine ⟨hexec, htotal, hstop, count_add_count fun c hc => hexec.status_ne_pending hc, ?_⟩
  have hpos : ∀ k : ℕ, (if 0 < k then 1 else 0 : ℤ) ≠ 0 ↔ 0 < k := by
    intro k
    split <;> simp_all
  rw [Summary.exitCode, hpos, Summary.count, List.countP_pos_iff]
  simp

/-- A plan of two cases, the first of which fails -/
theorem executePlan_spec_failed :
    let runs := [sampleRun (.int 5) [("topology", .str "sq")],
      sampleRun (.int 7) [("topology", .str "sq")]]
    let args : ExecuteArgs :=
      { sampleArgs runs with
        binPath := "/scheduler_sim", rootDir := "", now := "", dryRun := false,
        continueOnError := false }
    let proc : Subprocess ℕ := fun _ world => (1, world + 1)
    ∃ plan summary, plan.length = 2 ∧ executePlan args proc plan 0 = .ok (summary, 1) ∧
      summary.totalCases = 2 ∧ summary.cases.length = 1 ∧ summary.exitCode ≠ 0 := by
  intro runs args proc
  obtain ⟨⟨plan, summary, world⟩, h, hcheck⟩ := exists_ok_of_any (α := List Entry × Summary × ℕ)
    (x := do
      let plan ← buildRunPlan sampleBuiltins sampleRegistry args.toPlanArgs [sampleExperiment runs]
      let (summary, world) ← executePlan args proc plan 0
      return (plan, summary, world))
    (fun x => x.1.length = 2 ∧ x.2.1.cases.map CaseResult.status = [.failed] ∧ x.2.2 = 1)
    (by decide +kernel)
  simp only [bind_eq_ok, pure_eq_ok, Prod.exists] at h
  obtain ⟨plan', hplan, summary', world', hexecute, heq⟩ := h
  obtain ⟨rfl, rfl, rfl⟩ : plan' = plan ∧ summary' = summary ∧ world' = world := by simpa using heq
  obtain ⟨hlength, ⟨c, hc, hfailed⟩, rfl⟩ : _ ∧ _ ∧ _ := by simpa using hcheck
  obtain ⟨-, htotal, -, -, hexit⟩ := executePlan_spec hexecute
  exact ⟨plan', summary', hlength, hexecute, htotal.trans hlength, by rw [hc]; rfl,
    hexit.2 ⟨c, hc ▸ List.mem_singleton_self c, hfailed⟩⟩

/-! ## The ids in the summary -/

/-- **Run ids survive both sanitizers.** What the runner makes of any string is an id that both
sanitizers leave alone.  For every case of a plan the `RunId` column that the simulator writes,
started with the command line of the case, is the id of the case; and for every case of a summary
it is what the summary has under `run_id`. -/
theorem runIds_agree :
    (∀ value, IsId (sanitizeId value) ∧ sanitizeId (sanitizeId value) = sanitizeId value ∧
      CommandLine.sanitizeId (sanitizeId value) = sanitizeId value) ∧
    (∀ py registry args selected plan, buildRunPlan py registry args selected = .ok plan →
      ∀ case ∈ plan, ∀ binPath argv config, buildCommand binPath args.suite case = some argv →
        parseArgs argv = .ok config →
        ∀ fallback metrics schedulerName workloadName seed replication,
          ("RunId", case.runId) ∈ metricsHeader.zip
            (metricsCells metrics schedulerName workloadName (setRunId fallback config) seed
              replication)) ∧
    ∀ py registry (args : ExecuteArgs) selected plan,
      buildRunPlan py registry args.toPlanArgs selected = .ok plan →
      ∀ (World : Type) (proc : Subprocess World) world summary world',
        executePlan args proc plan world = .ok (summary, world') →
        ∀ result ∈ summary.cases, ∀ config, parseArgs result.command = .ok config →
          ∀ fallback metrics schedulerName workloadName seed replication, ∃ id,
            result.toJson.get "run_id" (.str "") = .ok (.str id) ∧
            ("RunId", id) ∈ metricsHeader.zip
              (metricsCells metrics schedulerName workloadName (setRunId fallback config) seed
                replication) := by
  refine ⟨?_, ?_, ?_⟩
  · intro value
    have hid := isId_sanitizeId value
    exact ⟨hid, sanitizeId_eq_self hid, CommandLine.sanitizeId_eq_self hid⟩
  · intro py registry args selected plan hplan case hcase binPath argv config hcommand hparse
      fallback metrics schedulerName workloadName seed replication
    exact runId_mem_metricsCells hplan hcase hcommand hparse _ _ _ _ _ _
  · intro py registry args selected plan hplan World proc world summary world' hexecute result
      hresult config hparse fallback metrics schedulerName workloadName seed replication
    obtain ⟨hexec, -, -⟩ := execution_of_executePlan hexecute
    obtain ⟨case, hcase, hreport⟩ := hexec.exists_case hresult
    refine ⟨result.runId, get_runId_toJson result, ?_⟩
    rw [hreport.runId]
    exact runId_mem_metricsCells hplan hcase hreport.command hparse _ _ _ _ _ _

/-- An id with spaces, a slash and an accent, and a plan of one case that is executed -/
theorem runIds_agree_sample :
    let runs := [sampleRun (.int 5) [("topology", .str "sq")]]
    let args : ExecuteArgs :=
      { sampleArgs runs with
        binPath := "/scheduler_sim", rootDir := "", now := "", dryRun := false,
        continueOnError := false }
    let proc : Subprocess Unit := fun _ _ => (0, ())
    CommandLine.sanitizeId (sanitizeId " my/é-run ") = "my-run" ∧
    ∃ plan summary, buildRunPlan sampleBuiltins sampleRegistry args.toPlanArgs
        [sampleExperiment runs] = .ok plan ∧
      executePlan args proc plan () = .ok (summary, ()) ∧
      ∃ case ∈ plan, ∃ result ∈ summary.cases, ∃ config, parseArgs result.command = .ok config ∧
        ("RunId", case.runId) ∈ metricsHeader.zip
          (metricsCells {} "CFS" "Server" (setRunId "run-0" config) 1 1) ∧
        ∃ id, result.toJson.get "run_id" (.str "") = .ok (.str id) ∧
          ("RunId", id) ∈ metricsHeader.zip
            (metricsCells {} "CFS" "Server" (setRunId "run-0" config) 1 1) := by
  intro runs args proc
  obtain ⟨hvalues, hplans, hsummaries⟩ := runIds_agree
  refine ⟨(hvalues " my/é-run ").2.2.trans (by decide +kernel), ?_⟩
  obtain ⟨⟨plan, summary⟩, h, hcheck⟩ := exists_ok_of_any (α := List Entry × Summary)
    (x := do
      let plan ← buildRunPlan sampleBuiltins sampleRegistry args.toPlanArgs [sampleExperiment runs]
      let (summary, _) ← executePlan args proc plan ()
      return (plan, summary))
    (fun x => x.2.cases.any fun result => (parseArgs result.command).toOption.isSome)
    (by decide +kernel)
  simp only [bind_eq_ok, pure_eq_ok, Prod.exists] at h
  obtain ⟨plan', hplan, summary', world, hexecute, heq⟩ := h
  obtain ⟨rfl, rfl⟩ : plan' = plan ∧ summary' = summary := by simpa using heq
  obtain ⟨result, hresult, hparse⟩ := List.any_eq_true.1 hcheck
  obtain ⟨hexec, -, -⟩ := execution_of_executePlan hexecute
  obtain ⟨case, hcase, hreport⟩ := hexec.exists_case hresult
  cases hconfig : parseArgs result.command with
  | error exit => rw [hconfig] at hparse; cases hparse
  | ok config =>
    exact ⟨plan', summary', hplan, hexecute, case, hcase, result, hresult, config, hconfig,
      hplans _ _ _ _ _ hplan _ hcase _ _ _ hreport.command hconfig _ _ _ _ _ _,
      hsummaries _ _ _ _ _ hplan _ _ _ _ _ hexecute _ hresult _ hconfig _ _ _ _ _ _⟩

end RunSuite

end SchedSim
