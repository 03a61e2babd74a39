import SchedSim.RunPlan
import SchedSim.CommandLine

/-!
# What reaches the simulator

A run of a suite document becomes a case of the plan, the case a list of arguments, and the
arguments a configuration of the simulator. `passedUnchanged_iff` says for which runs the
parameters come through all of it: whole numbers that fit, and options in the exact letters and
types the planner compares them with.
-/

namespace SchedSim

/-! ## The numbers of a document -/

/-- The number a value stands for, `readStr` telling what a string stands for. -/
def Json.numberOf (readStr : String → Option ℚ) : Json → Option ℚ
  | .bool b => some b.toNat
  | .int n => some n
  | .float x => x.toRat?
  | .str s => readStr s
  | .null => none
  | .list _ => none
  | .dict _ => none

namespace Builtins

variable {py : Builtins}

/-- The number a field of whole numbers holds -/
def wholeValue (py : Builtins) : Json → Option ℚ :=
  Json.numberOf fun s => (py.intOfStr s).map fun n => (n : ℚ)

/-- The number a field of real numbers holds -/
def realValue (py : Builtins) : Json → Option ℚ :=
  Json.numberOf fun s => (py.floatOfStr s).bind Double.toRat?

/-- `int` drops what follows the point. -/
theorem wholeValue_of_int {v : Json} {n : ℤ} (h : py.int v = .ok n) :
    ∃ x : ℚ, py.wholeValue v = some x ∧ n = truncate x := by
  cases v with
  | bool b =>
    rw [int, Except.ok.injEq] at h
    exact ⟨b.toNat, rfl, by rw [← h, truncate_natCast]⟩
  | int m =>
    rw [int, Except.ok.injEq] at h
    exact ⟨m, rfl, by simp [← h]⟩
  | float x =>
    cases x with
    | finite x exact =>
      rw [int, intOfFloat, Except.ok.injEq] at h
      exact ⟨x, rfl, h.symm⟩
    | infinite negative => simp [int, intOfFloat] at h
    | nan => simp [int, intOfFloat] at h
  | str s =>
    rw [int] at h
    split at h
    · rename_i m hm
      rw [Except.ok.injEq] at h
      exact ⟨m, by simp [wholeValue, Json.numberOf, hm], by simp [← h]⟩
    · simp at h
  | null => simp [int] at h
  | list items => simp [int] at h
  | dict fields => simp [int] at h

theorem floatOfInt_eq_ok {n : ℤ} {x : Double} (h : floatOfInt n = .ok x) :
    x = Double.ofRat n ∧ ∃ y, x.toRat? = some y := by
  unfold floatOfInt at h
  split at h
  · rename_i y exact hy
    rw [Except.ok.injEq] at h
    exact ⟨by rw [← h, hy], y, by rw [← h, Double.toRat?]⟩
  · simp at h

/-- `float` rounds to the nearest double. -/
theorem realValue_of_float {v : Json} {x : Double} {y : ℚ} (h : py.float v = .ok x)
    (hx : x.toRat? = some y) :
    ∃ q : ℚ, py.realValue v = some q ∧ y = Binary64.nearest q ∧ |y| < 2 ^ 1024 := by
  -- a double is its own rounding
  have hdouble : y = Binary64.nearest y ∧ |y| < 2 ^ 1024 := by
    cases x with
    | finite z exact =>
      rw [Double.toRat?, Option.some.injEq] at hx
      rw [← hx]
      exact ⟨exact.1.symm, exact.2⟩
    | infinite negative => simp [Double.toRat?] at hx
    | nan => simp [Double.toRat?] at hx
  cases v with
  | bool b =>
    rw [float] at h
    rw [(floatOfInt_eq_ok h).1] at hx
    exact ⟨b.toNat, rfl, by simpa using (Double.nearest_of_toRat? hx)⟩
  | int n =>
    rw [float] at h
    rw [(floatOfInt_eq_ok h).1] at hx
    exact ⟨n, rfl, Double.nearest_of_toRat? hx⟩
  | float z =>
    rw [float, Except.ok.injEq] at h
    rw [h]
    exact ⟨y, hx, hdouble⟩
  | str s =>
    rw [float] at h
    split at h
    · rename_i z hz
      rw [Except.ok.injEq] at h
      exact ⟨y, by simp [realValue, Json.numberOf, hz, h, hx], hdouble⟩
    · simp at h
  | null => simp [float] at h
  | list items => simp [float] at h
  | dict fields => simp [float] at h

end Builtins

namespace RunSuite

open Py CommandLine

variable {py : Builtins} {registry : BenchmarkPluginRegistry} {args : PlanArgs}

/-! ## The arguments of a case -/

/-- The configuration the simulator reads off the arguments of a case. -/
def configOf (benchmarkVersion suiteId topology balancer : String) (stop : ℤ) (case : Entry) :
    Config where
  numTasks := CStrings.toUInt32 (CStrings.atoi (toString case.numTasks))
  numCores := CStrings.atoi (toString case.cores)
  numReplications := CStrings.atoi (toString case.replications)
  stopTime := CStrings.atof (toString stop)
  schedulerFilter := CStrings.toLower case.schedulerCli
  workloadFilter := CStrings.toLower case.workloadCli
  topology := CStrings.toLower topology
  balancer := if topology = "mq" then CStrings.toLower balancer else "leastloaded"
  workStealing := !(topology = "mq" && case.workStealing.isFalse)
  benchmarkVersion := benchmarkVersion
  suiteId := suiteId
  runId := case.runId
  seedBase := CStrings.atol (toString case.seed)
  artifactDir := case.artifactDir

theorem parseArgs_buildCommand (binPath : String)
    {benchmarkVersion suiteId topology balancer : String}
    {suite : Json} {stop : ℤ} {case : Entry}
    (hversion : suite.item "benchmark_version" = .ok (.str benchmarkVersion))
    (hsuite : suite.item "suite_id" = .ok (.str suiteId)) (htop : case.topology = .str topology)
    (hstop : Builtins.intOfFloat case.stopTime = .ok stop)
    (hbal : topology = "mq" → case.balancer = .str balancer) :
    ∃ argv, buildCommand binPath suite case = some argv ∧
      parseArgs argv = .ok (configOf benchmarkVersion suiteId topology balancer stop case) := by
  unfold buildCommand
  simp only [hversion, hsuite, htop, hstop]
  rcases eq_or_ne topology "mq" with rfl | hne
  · simp only [hbal rfl, if_true]
    cases hws : case.workStealing.isFalse
    · exact ⟨_, rfl, by simp [parseArgs, parseOptions, setOption, configOf, hws]⟩
    · exact ⟨_, rfl, by simp [parseArgs, parseOptions, setOption, setFlag, configOf, hws]⟩
  · simp only [if_neg hne]
    exact ⟨_, rfl, by simp [parseArgs, parseOptions, setOption, configOf, hne]⟩

/-- The configuration that the simulator reads off the command line of a case -/
theorem configOf_of_buildCommand {binPath : String} {suite : Json} {case : Entry}
    {argv : List String} {config : Config} (hcommand : buildCommand binPath suite case = some argv)
    (hparse : parseArgs argv = .ok config) :
    ∃ benchmarkVersion suiteId topology balancer stop,
      suite.item "benchmark_version" = .ok (.str benchmarkVersion) ∧
      suite.item "suite_id" = .ok (.str suiteId) ∧ case.topology = .str topology ∧
      Builtins.intOfFloat case.stopTime = .ok stop ∧
      (topology = "mq" → case.balancer = .str balancer) ∧
      config = configOf benchmarkVersion suiteId topology balancer stop case := by
  have hparsed := hcommand
  unfold buildCommand at hcommand
  split at hcommand
  next benchmarkVersion hversion =>
    split at hcommand
    next suiteId hsuite =>
      split at hcommand
      next topology htop =>
        split at hcommand
        next stop hstop =>
          obtain ⟨balancer, hbalancer⟩ : ∃ balancer, topology = "mq" →
              case.balancer = .str balancer := by
            by_cases hmq : topology = "mq"
            · rw [if_pos hmq] at hcommand
              split at hcommand
              next balancer hbal => exact ⟨balancer, fun _ => hbal⟩
              next => cases hcommand
            · exact ⟨"", fun h => absurd h hmq⟩
          obtain ⟨argv', hargv', hparse'⟩ :=
            parseArgs_buildCommand binPath hversion hsuite htop hstop hbalancer
          rw [hparsed, Option.some.injEq] at hargv'
          rw [← hargv', hparse, Except.ok.injEq] at hparse'
          exact ⟨benchmarkVersion, suiteId, topology, balancer, stop, hversion, hsuite, htop, hstop,
            hbalancer, hparse'⟩
        next => cases hcommand
      next => cases hcommand
    next => cases hcommand
  next => cases hcommand

/-! ## The parameters of a run -/

/-- The configuration has the parameters the run gives. -/
structure SameParameters (py : Builtins) (run : Json) (config : Config) : Prop where
  cores : ∃ v, run.item "cores" = .ok v ∧ py.wholeValue v = some (config.numCores : ℚ)
  numTasks : ∃ v, run.item "num_tasks" = .ok v ∧ py.wholeValue v = some (config.numTasks : ℚ)
  stopTime : ∃ v x, run.item "stop_time" = .ok v ∧ config.stopTime.toRat? = some x ∧
    py.realValue v = some x
  topology : ∃ v, run.item "topology" = .ok v ∧ config.topology = py.lower (py.str v)
  balancer : config.topology = "mq" →
    ∃ v, run.item "balancer" = .ok v ∧ config.balancer = py.lower (py.str v)
  workStealing : config.topology = "mq" →
    ∃ v, run.get "work_stealing" (.bool true) = .ok v ∧ config.workStealing = v.truthy

/-- The simulator is started on the case of a run, and reads the parameters of the run. -/
def PassedUnchanged (py : Builtins) (binPath : String) (suite : Json) (case : Entry) (run : Json) :
    Prop :=
  ∃ argv config, buildCommand binPath suite case = some argv ∧ parseArgs argv = .ok config ∧
    SameParameters py run config

/-- The whole number a field holds is below a bound. -/
def WholeBelow (py : Builtins) (run : Json) (field : String) (bound : ℤ) : Prop :=
  ∃ v, ∃ n : ℤ, run.item field = .ok v ∧ py.wholeValue v = some (n : ℚ) ∧ n < bound

/-- The stop time is a whole number, and a double. -/
def WholeStop (py : Builtins) (run : Json) : Prop :=
  ∃ v, ∃ n : ℤ, run.item "stop_time" = .ok v ∧ py.realValue v = some (n : ℚ) ∧
    Binary64.nearest n = n

/-- The options of a run as the planner and the command line treat them: single-queue, or `mq` in
small letters with work stealing turned off by the value `false` and nothing else, or `mq` in
other letters with the defaults of the simulator. `serving` is the run whose options the case
has. -/
inductive OptionsKept (run serving : Json) : Prop
  | singleQueue {topology : String} (htop : run.item "topology" = .ok (.str topology))
      (hlower : CStrings.toLower topology = "sq")
  | multiQueue {v w : Json} (htop : run.item "topology" = .ok (.str "mq"))
      (hserving : serving.get "work_stealing" (.bool true) = .ok v)
      (hrun : run.get "work_stealing" (.bool true) = .ok w) (hsteal : v.isFalse = !w.truthy)
  | otherLetters {topology balancer : String} {w : Json}
      (htop : run.item "topology" = .ok (.str topology)) (hne : topology ≠ "mq")
      (hlower : CStrings.toLower topology = "mq")
      (hbal : run.item "balancer" = .ok (.str balancer))
      (hbalancer : CStrings.toLower balancer = "leastloaded")
      (hrun : run.get "work_stealing" (.bool true) = .ok w) (hsteal : w.truthy = true)

/-- The runs whose parameters come through. -/
structure Survives (py : Builtins) (suite run serving : Json) : Prop where
  version : ∃ s, suite.item "benchmark_version" = .ok (.str s)
  cores : WholeBelow py run "cores" (2 ^ 31)
  numTasks : WholeBelow py run "num_tasks" (2 ^ 32)
  stopTime : WholeStop py run
  options : OptionsKept run serving

/-- A whole number printed and read back is the number of the run if it fits. -/
theorem sameWhole_iff {run v : Json} {field : String} {n m bound : ℤ}
    (hv : run.item field = .ok v) (hn : py.int v = .ok n) (hm : m = n ↔ n < bound) :
    (∃ v, run.item field = .ok v ∧ py.wholeValue v = some (m : ℚ)) ↔
      WholeBelow py run field bound := by
  obtain ⟨x, hx, hnx⟩ := Builtins.wholeValue_of_int hn
  constructor
  · rintro ⟨v', hv', hval⟩
    obtain rfl : v = v' := by simpa using hv.symm.trans hv'
    obtain rfl : x = m := by simpa using hx.symm.trans hval
    rw [Builtins.truncate_intCast] at hnx
    exact ⟨v, m, hv, hval, hnx ▸ hm.1 hnx.symm⟩
  · rintro ⟨v', k, hv', hval, hk⟩
    obtain rfl : v = v' := by simpa using hv.symm.trans hv'
    obtain rfl : x = k := by simpa using hx.symm.trans hval
    rw [Builtins.truncate_intCast] at hnx
    rw [hm.2 (hnx ▸ hk), hnx]
    exact ⟨v, hv, hval⟩

/-- The stop time, cut to a whole number, is the one of the run if that is whole. -/
theorem sameStop_iff {run v : Json} {x : Double} {m : ℤ} (hv : run.item "stop_time" = .ok v)
    (hx : py.float v = .ok x) (hpos : x.nonpos = false) (hm : Builtins.intOfFloat x = .ok m) :
    (∃ v q, run.item "stop_time" = .ok v ∧
      (CStrings.atof (toString m)).toRat? = some q ∧ py.realValue v = some q) ↔
      WholeStop py run := by
  obtain ⟨y, exact, rfl, rfl⟩ : ∃ y exact, x = .finite y exact ∧ Builtins.truncate y = m := by
    cases x with
    | finite y exact => exact ⟨y, exact, rfl, by simpa [Builtins.intOfFloat] using hm⟩
    | infinite negative => simp [Builtins.intOfFloat] at hm
    | nan => simp [Builtins.intOfFloat] at hm
  have hy : 0 < y := by simpa [Double.nonpos] using hpos
  obtain ⟨q, hq, hyq, hlt⟩ := Builtins.realValue_of_float hx rfl
  rw [CStrings.atof_toString (Builtins.truncate_nonneg hy.le)]
  constructor
  · rintro ⟨v', q', hv', hread, hval⟩
    obtain rfl : v = v' := by simpa using hv.symm.trans hv'
    obtain rfl : q = q' := by simpa using hq.symm.trans hval
    -- what is read is the rounding of a whole number, so it is whole, and rounded
    obtain ⟨hnear, -⟩ := Double.nearest_of_toRat? hread
    obtain ⟨k, hk⟩ := Binary64.nearest_intCast (Builtins.truncate y)
    have hqk : q = k := hnear.trans hk
    refine ⟨v, k, hv, hqk ▸ hval, ?_⟩
    rw [← hk, Binary64.nearest_nearest]
  · rintro ⟨v', k, hv', hval, hk⟩
    obtain rfl : v = v' := by simpa using hv.symm.trans hv'
    obtain rfl : q = k := by simpa using hq.symm.trans hval
    rw [hk] at hyq
    refine ⟨v, k, hv, ?_, hval⟩
    rw [hyq, Builtins.truncate_intCast]
    exact Double.toRat?_ofRat_eq_self.2 ⟨hk, hyq ▸ hlt⟩

theorem runKey_spec {run : Json} {workloadCli schedulerCli : String} {key : RunKey}
    (h : runKey py run workloadCli schedulerCli = .ok key) :
    run.item "topology" = .ok key.topology ∧
      (key.topology = .str "mq" → run.get "balancer" (.str "leastloaded") = .ok key.balancer ∧
        run.get "work_stealing" (.bool true) = .ok key.workStealing) ∧
      (∃ v, run.item "cores" = .ok v ∧ py.int v = .ok key.cores) ∧
      (∃ v, run.item "num_tasks" = .ok v ∧ py.int v = .ok key.numTasks) ∧
      ∃ v, run.item "stop_time" = .ok v ∧ py.float v = .ok key.stopTime := by
  simp only [runKey, bind_eq_ok, pure_eq_ok] at h
  obtain ⟨topology, htop, balancer, hbal, ws, hws, vc, hvc, cores, hcores, vn, hvn, tasks, htasks,
    vs, hvs, stop, hstop, rfl⟩ := h
  refine ⟨htop, ?_, ⟨vc, hvc, hcores⟩, ⟨vn, hvn, htasks⟩, ⟨vs, hvs, hstop⟩⟩
  rintro rfl
  rw [if_pos (by simp)] at hbal hws
  exact ⟨hbal, hws⟩

/-- Keys of equal hash have the same numbers, and the same strings as options. -/
theorem eq_of_hash {key key' : RunKey} {hash : HashedKey} (h : key.hash = .ok hash)
    (h' : key'.hash = .ok hash) :
    key.cores = key'.cores ∧ key.numTasks = key'.numTasks ∧ key.stopTime = key'.stopTime ∧
      key.topology.key? = key'.topology.key? ∧ key.balancer.key? = key'.balancer.key? := by
  have hashed_eq : ∀ {v : Json} {k : Json.Key}, hashed v = .ok k → v.key? = some k := by
    intro v k hv
    unfold hashed at hv
    split at hv
    · rename_i k' hk'
      rw [Except.ok.injEq] at hv
      rw [hk', hv]
    · simp at hv
  simp only [RunKey.hash, bind_eq_ok, pure_eq_ok] at h h'
  obtain ⟨t, ht, b, hb, w, hw, rfl⟩ := h
  obtain ⟨t', ht', b', hb', w', hw', heq⟩ := h'
  simp only [HashedKey.mk.injEq] at heq
  obtain ⟨-, -, hc, hn, hs, rfl, rfl, -⟩ := heq
  exact ⟨hc.symm, hn.symm, hs.symm, (hashed_eq ht).trans (hashed_eq ht').symm,
    (hashed_eq hb).trans (hashed_eq hb').symm⟩

theorem servingRun_hash {before : List PlannedRun} {planned : PlannedRun} :
    hashOf py registry args (servingRun py registry args before planned) =
      hashOf py registry args planned := by
  unfold servingRun
  split
  · cases hfind : (before ++ [planned]).find? fun r =>
        decide (hashOf py registry args r = hashOf py registry args planned) with
    | none => rfl
    | some first => simpa using List.find?_some hfind
  · rfl

/-- What the case of a run holds: the numbers and the strings of the run itself, and the work
stealing of the run that serves it. -/
structure Serves (py : Builtins) (run serving : Json) (e : Entry) : Prop where
  cores : ∃ v, run.item "cores" = .ok v ∧ py.int v = .ok e.cores
  numTasks : ∃ v, run.item "num_tasks" = .ok v ∧ py.int v = .ok e.numTasks
  stopTime : ∃ v, run.item "stop_time" = .ok v ∧ py.float v = .ok e.stopTime
  topology : ∀ s, run.item "topology" = .ok (.str s) → e.topology = .str s
  balancer : ∀ s, run.item "topology" = .ok (.str "mq") → run.item "balancer" = .ok (.str s) →
    e.balancer = .str s
  workStealing : run.item "topology" = .ok (.str "mq") →
    serving.get "work_stealing" (.bool true) = .ok e.workStealing

theorem EntryFor.serves {before after : List PlannedRun} {planned : PlannedRun} {s : PlanState}
    {e : Entry} (h : EntryFor py registry args before planned e)
    (hs : (before ++ planned :: after).foldlM (planRun py registry args) {} = .ok s)
    (he : e ∈ s.plan) :
    Serves py planned.run (servingRun py registry args before planned).run e := by
  have hserving := h.key_eq hs he
  obtain ⟨-, hash, -, hhash, -⟩ := h
  obtain ⟨key, hkey, hkeyhash⟩ := hashOf_eq_some.1 hhash
  have hehash : e.key.hash = .ok hash := by
    obtain ⟨key', hkey', hhash'⟩ := hashOf_eq_some.1 (servingRun_hash.trans hhash)
    obtain rfl : e.key = key' := by simpa using hserving.symm.trans hkey'
    exact hhash'
  obtain ⟨hcores, htasks, hstop, htop, hbal⟩ := eq_of_hash hkeyhash hehash
  simp only [keyOf, bind_eq_ok] at hkey hserving
  obtain ⟨⟨_, _⟩, -, hkey⟩ := hkey
  obtain ⟨⟨_, _⟩, -, hserving⟩ := hserving
  obtain ⟨hitem, hmq, ⟨vc, hvc, hc⟩, ⟨vn, hvn, hn⟩, vs, hvs, hst⟩ := runKey_spec hkey
  have htopology : ∀ t, planned.run.item "topology" = .ok (.str t) → e.topology = .str t := by
    intro t ht
    have hkt : key.topology = .str t := by simpa using hitem.symm.trans ht
    rw [hkt] at htop
    exact Json.key?_eq_str.1 htop.symm
  refine ⟨⟨vc, hvc, hc.trans (congrArg _ hcores)⟩, ⟨vn, hvn, hn.trans (congrArg _ htasks)⟩,
    ⟨vs, hvs, hst.trans (congrArg _ hstop)⟩, htopology, ?_, ?_⟩
  · intro b ht hb
    have hkt : key.topology = .str "mq" := by simpa using hitem.symm.trans ht
    have hkb : key.balancer = .str b := by
      simpa using (hmq hkt).1.symm.trans (get_of_item hb)
    rw [hkb] at hbal
    exact Json.key?_eq_str.1 hbal.symm
  · intro ht
    exact ((runKey_spec hserving).2.1 (htopology "mq" ht)).2

/-- The balancer and the work stealing the simulator reads are those of the run exactly when the
options are kept. -/
theorem sameOptions_iff {run serving : Json} {e : Entry}
    {topology benchmarkVersion suiteId : String}
    {balancer : String} {stop : ℤ} (hvalid : ValidRun py run) (hserves : Serves py run serving e)
    (htop : run.item "topology" = .ok (.str topology))
    (hbal : topology = "mq" → e.balancer = .str balancer) :
    ((CStrings.toLower topology = "mq" → ∃ v, run.item "balancer" = .ok v ∧
        (configOf benchmarkVersion suiteId topology balancer stop e).balancer =
          py.lower (py.str v)) ∧
      (CStrings.toLower topology = "mq" → ∃ v, run.get "work_stealing" (.bool true) = .ok v ∧
        (configOf benchmarkVersion suiteId topology balancer stop e).workStealing = v.truthy)) ↔
    OptionsKept run serving := by
  obtain ⟨t, ht, hlower⟩ := hvalid.topology
  obtain rfl : t = topology := by simpa using ht.symm.trans htop
  obtain ⟨w, hw⟩ : ∃ w, run.get "work_stealing" (.bool true) = .ok w := by
    obtain ⟨fields, rfl⟩ := hvalid.isDict
    exact ⟨_, rfl⟩
  rcases eq_or_ne (CStrings.toLower t) "mq" with hmq | hmq
  · obtain ⟨b, hb, hblower⟩ := hvalid.balancer t ht hmq
    have hname : py.lower (py.str (.str b)) = CStrings.toLower b :=
      lower_str_of_mem (List.mem_append_right _ hblower)
    simp only [hmq, hb, hw, Except.ok.injEq, exists_eq_left', forall_const, hname]
    rcases eq_or_ne t "mq" with rfl | hne
    · -- the case carries the balancer, and whether the serving run turned stealing off
      obtain rfl : b = balancer := by
        simpa using (hserves.balancer b ht hb).symm.trans (hbal rfl)
      simp only [configOf, if_true, decide_true, Bool.true_and, true_and]
      constructor
      · intro h
        exact .multiQueue ht (hserves.workStealing ht) hw (by rw [← h, Bool.not_not])
      · rintro (⟨ht', hsq⟩ | ⟨ht', hv, hw', hsteal⟩ | ⟨ht', hne, -, -, -, -, -⟩)
        · obtain rfl : "mq" = _ := by simpa using ht.symm.trans ht'
          rw [hmq] at hsq
          exact absurd hsq (by decide)
        · obtain rfl : e.workStealing = _ := by
            simpa using (hserves.workStealing ht).symm.trans hv
          obtain rfl : w = _ := by simpa using hw.symm.trans hw'
          rw [hsteal, Bool.not_not]
        · obtain rfl : "mq" = _ := by simpa using ht.symm.trans ht'
          exact absurd rfl hne
    · -- the case carries neither, so the simulator keeps its defaults
      simp only [configOf, if_neg hne, decide_eq_false hne, Bool.false_and, Bool.not_false]
      constructor
      · rintro ⟨hdefault, hsteal⟩
        exact .otherLetters ht hne hmq hb hdefault.symm hw hsteal.symm
      · rintro (⟨ht', hsq⟩ | ⟨ht', -, -, -⟩ | ⟨ht', -, -, hb', hdefault, hw', hsteal⟩)
        · obtain rfl : t = _ := by simpa using ht.symm.trans ht'
          rw [hmq] at hsq
          exact absurd hsq (by decide)
        · obtain rfl : t = _ := by simpa using ht.symm.trans ht'
          exact absurd rfl hne
        · obtain rfl : b = _ := by simpa using hb.symm.trans hb'
          obtain rfl : w = _ := by simpa using hw.symm.trans hw'
          exact ⟨hdefault.symm, hsteal.symm⟩
  · have hsq : CStrings.toLower t = "sq" := by
      simpa [validTopologies, hmq] using hlower
    simp only [hmq, false_implies, and_self, true_iff]
    exact .singleQueue ht hsq

/-- The run that serves another passes its parameters on. -/
theorem passedUnchanged_iff {binPath : String} {run serving : Json} {e : Entry}
    (hvalid : ValidRun py run) (hserves : Serves py run serving e) (hplanned : Planned args e) :
    PassedUnchanged py binPath args.suite e run ↔ Survives py args.suite run serving := by
  obtain ⟨suiteId, hsuite⟩ := hplanned.suiteId
  obtain ⟨stop, hstop⟩ := hplanned.stop
  obtain ⟨topology, htop, hlower⟩ := hvalid.topology
  obtain ⟨balancer, hbal⟩ : ∃ b, topology = "mq" → e.balancer = .str b := by
    by_cases hmq : topology = "mq"
    · subst hmq
      obtain ⟨b, hb, -⟩ := hvalid.balancer "mq" htop (by decide +kernel)
      exact ⟨b, fun _ => hserves.balancer b htop hb⟩
    · exact ⟨"", fun h => absurd h hmq⟩
  obtain ⟨vc, hvc, hcores⟩ := hserves.cores
  obtain ⟨vn, hvn, htasks⟩ := hserves.numTasks
  obtain ⟨vs, hvs, hfloat⟩ := hserves.stopTime
  have hcores1 : 1 ≤ e.cores := by
    obtain ⟨v, n, hv, hn, h1⟩ := hvalid.cores
    obtain rfl : v = vc := by simpa using hv.symm.trans hvc
    obtain rfl : n = e.cores := by simpa using hn.symm.trans hcores
    exact h1
  have htasks1 : 1 ≤ e.numTasks := by
    obtain ⟨v, n, hv, hn, h1⟩ := hvalid.numTasks
    obtain rfl : v = vn := by simpa using hv.symm.trans hvn
    obtain rfl : n = e.numTasks := by simpa using hn.symm.trans htasks
    exact h1
  have hpos : e.stopTime.nonpos = false := by
    obtain ⟨v, x, hv, hx, h0⟩ := hvalid.stopTime
    obtain rfl : v = vs := by simpa using hv.symm.trans hvs
    obtain rfl : x = e.stopTime := by simpa using hx.symm.trans hfloat
    exact h0
  have hiffCores := sameWhole_iff hvc hcores (CStrings.atoi_toString (by omega))
  have hiffTasks := sameWhole_iff hvn htasks (CStrings.toUInt32_atoi_toString (by omega))
  have hiffStop := sameStop_iff hvs hfloat hpos hstop
  constructor
  · rintro ⟨argv, config, hcommand, hparse, hsame⟩
    obtain ⟨version, hversion⟩ : ∃ s, args.suite.item "benchmark_version" = .ok (.str s) := by
      unfold buildCommand at hcommand
      split at hcommand
      · exact ⟨_, ‹_›⟩
      · simp at hcommand
    obtain ⟨argv', hcommand', hparse'⟩ :=
      parseArgs_buildCommand binPath hversion hsuite (hserves.topology topology htop)
        hstop hbal
    obtain rfl : argv' = argv := by simpa using hcommand'.symm.trans hcommand
    obtain rfl := Except.ok.inj (hparse'.symm.trans hparse)
    exact ⟨⟨version, hversion⟩, hiffCores.1 hsame.cores,
      hiffTasks.1 (by simpa [configOf] using hsame.numTasks), hiffStop.1 hsame.stopTime,
      (sameOptions_iff hvalid hserves htop hbal).1 ⟨hsame.balancer, hsame.workStealing⟩⟩
  · rintro ⟨⟨version, hversion⟩, hc, hn, hs, hoptions⟩
    obtain ⟨argv, hcommand, hparse⟩ :=
      parseArgs_buildCommand binPath hversion hsuite (hserves.topology topology htop)
        hstop hbal
    obtain ⟨hsamebal, hsamews⟩ := (sameOptions_iff hvalid hserves htop hbal).2 hoptions
    refine ⟨argv, _, hcommand, hparse, ⟨hiffCores.2 hc, by simpa [configOf] using hiffTasks.2 hn,
      hiffStop.2 hs, ⟨_, htop, ?_⟩, hsamebal, hsamews⟩⟩
    exact (lower_str_of_mem (List.mem_append_left _ hlower)).symm

/-- **The suite runner passes a run on unchanged exactly when it survives.** Of every explicit run
of an accepted suite, whatever experiments are selected and however runs are shared, and of the
case it is executed as: the configuration the simulator reads off the command line has the
parameters of the run if and only if the run meets `Survives`. -/
theorem passesEveryRun {binPath : String} {experiments selected : List Json} {plan : List Entry}
    {before after : List PlannedRun} {planned : PlannedRun} {e : Entry}
    (hvalid : validateSuite py registry args.suite = .ok ())
    (hexp : args.suite.item "experiments" = .ok (.list experiments)) (hsel : selected ⊆ experiments)
    (hplan : buildRunPlan py registry args selected = .ok plan)
    (hruns : plannedRuns selected = .ok (before ++ planned :: after)) (he : e ∈ plan)
    (hentry : EntryFor py registry args before planned e) :
    PassedUnchanged py binPath args.suite e planned.run ↔
      Survives py args.suite planned.run (servingRun py registry args before planned).run := by
  obtain ⟨runs, s, hruns', hfold, rfl⟩ := buildRunPlan_eq_ok hplan
  obtain rfl : before ++ planned :: after = runs := by simpa using hruns.symm.trans hruns'
  have hrun : ValidRun py planned.run :=
    validRun_of_validateSuite hvalid hexp hsel hruns (by simp)
  exact passedUnchanged_iff hrun (hentry.serves hfold he) ((describes_of_foldlM hfold).planned e he)

/-- A run of 100000 time units on one core comes through. -/
theorem passesEveryRun_whole :
    let run := sampleRun (.int 100000) [("topology", .str "sq")]
    ∃ plan, buildRunPlan sampleBuiltins sampleRegistry (sampleArgs [run])
      [sampleExperiment [run]] = .ok plan ∧ ∃ e ∈ plan,
      EntryFor sampleBuiltins sampleRegistry (sampleArgs [run]) [] ⟨.str "exp1", 1, run⟩ e ∧
      PassedUnchanged sampleBuiltins "scheduler_sim" (sampleSuite [run]) e run := by
  intro run
  have hvalid : validateSuite sampleBuiltins sampleRegistry (sampleSuite [run]) = .ok () := by
    decide +kernel
  have hplanned : plannedRuns [sampleExperiment [run]]
      = .ok ([] ++ ⟨.str "exp1", 1, run⟩ :: []) := rfl
  obtain ⟨plan, hplan⟩ : ∃ plan, buildRunPlan sampleBuiltins sampleRegistry (sampleArgs [run])
      [sampleExperiment [run]] = .ok plan := Py.exists_ok (by decide +kernel)
  obtain ⟨e, he, hentry⟩ := exists_entryFor_of_buildRunPlan hplan hplanned
  have hiff := @passesEveryRun _ _ (sampleArgs [run]) "scheduler_sim" _ _ _ _ _ _ _ hvalid rfl
    (List.Subset.refl _) hplan hplanned he hentry
  refine ⟨plan, hplan, e, he, hentry, hiff.2 ⟨⟨"community-v1", rfl⟩, ⟨_, 1, rfl, rfl, by norm_num⟩,
      ⟨_, 10, rfl, rfl, by norm_num⟩, ⟨_, 100000, rfl, rfl, ?_⟩,
      .singleQueue rfl (by decide +kernel)⟩⟩
  exact Binary64.nearest_intCast_of_lt (by norm_num)

/-- A run of 1.5 time units is not passed on: the stop time is cut to one. -/
theorem passesEveryRun_cut :
    let run := sampleRun (.float (Double.ofRat (3 / 2))) [("topology", .str "sq")]
    validateSuite sampleBuiltins sampleRegistry (sampleSuite [run]) = .ok () ∧
      ∃ plan, buildRunPlan sampleBuiltins sampleRegistry (sampleArgs [run])
        [sampleExperiment [run]] = .ok plan ∧ ∃ e ∈ plan,
        EntryFor sampleBuiltins sampleRegistry (sampleArgs [run]) [] ⟨.str "exp1", 1, run⟩ e ∧
        ¬ PassedUnchanged sampleBuiltins "scheduler_sim" (sampleSuite [run]) e run := by
  intro run
  have hvalid : validateSuite sampleBuiltins sampleRegistry (sampleSuite [run]) = .ok () := by
    decide +kernel
  have hplanned : plannedRuns [sampleExperiment [run]]
      = .ok ([] ++ ⟨.str "exp1", 1, run⟩ :: []) := rfl
  obtain ⟨plan, hplan⟩ : ∃ plan, buildRunPlan sampleBuiltins sampleRegistry (sampleArgs [run])
      [sampleExperiment [run]] = .ok plan := Py.exists_ok (by decide +kernel)
  obtain ⟨e, he, hentry⟩ := exists_entryFor_of_buildRunPlan hplan hplanned
  refine ⟨hvalid, plan, hplan, e, he, hentry, ?_⟩
  obtain ⟨runs, s, hruns, hfold, rfl⟩ := buildRunPlan_eq_ok hplan
  obtain rfl := Except.ok.inj (hplanned.symm.trans hruns)
  have hrun : ValidRun sampleBuiltins (⟨.str "exp1", 1, run⟩ : PlannedRun).run :=
    validRun_of_validateSuite hvalid rfl (List.Subset.refl _) hplanned (List.mem_singleton.2 rfl)
  rw [← show (sampleArgs [run]).suite = sampleSuite [run] from rfl,
    passedUnchanged_iff hrun (hentry.serves hfold he) ((describes_of_foldlM hfold).planned e he)]
  rintro ⟨-, -, -, ⟨v, n, hv, hn, -⟩, -⟩
  -- the stop time of the run is not whole
  obtain rfl : Json.float (Double.ofRat (3 / 2)) = v := Except.ok.inj hv
  have hbound : |(3 / 2 : ℚ)| < 2 ^ 1024 :=
    (by norm_num : |(3 / 2 : ℚ)| < 2 ^ 1).trans_le (pow_le_pow_right₀ (by norm_num) (by norm_num))
  rw [Double.ofRat_of_exact ⟨by decide +kernel, hbound⟩] at hn
  have hwhole : (3 / 2 : ℚ) = n := Option.some.inj hn
  have htwo : (3 : ℤ) = 2 * n := by
    have : (3 : ℚ) = 2 * n := by linarith
    exact_mod_cast this
  omega

end RunSuite

end SchedSim
