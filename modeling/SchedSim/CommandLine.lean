import SchedSim.CStrings

/-!
# The command line of the simulator

`parse_args` of `apps/main.cpp`: the configuration of an experiment and the options that set it,
read from left to right over the defaults; and `validate_config_or_exit`, what a configuration has
to satisfy before anything is run.

* `validateConfig_eq_ok` : it is accepted exactly if no check fails.
-/

namespace SchedSim

namespace CommandLine

open CStrings

structure Config where
  numTasks : ℕ := 100
  numCores : ℤ := 1
  numReplications : ℤ := 1
  stopTime : Double := Double.ofRat 100000
  schedulerFilter : String := "all"
  workloadFilter : String := "all"
  /-- "sq" = single-queue, "mq" = multi-queue -/
  topology : String := "sq"
  /-- "rr" = round-robin, "leastloaded" -/
  balancer : String := "leastloaded"
  workStealing : Bool := true
  benchmarkVersion : String := "community-v1"
  suiteId : String := "ad-hoc"
  runId : String := ""
  seedBase : ℤ := 123456789
  artifactDir : String := ""
  deriving DecidableEq

/-- The program ends while it reads its arguments: after the help text, or on an option it does
not know. -/
inductive Exit where
  | help
  | unknownOption (option : String)
  deriving DecidableEq

/-- An option followed by a value; `none` for any other word. -/
def setOption (config : Config) (option value : String) : Option Config :=
  if option = "-n" then some { config with numTasks := toUInt32 (atoi value) }
  else if option = "-c" then some { config with numCores := atoi value }
  else if option = "-r" then some { config with numReplications := atoi value }
  else if option = "-t" then some { config with stopTime := atof value }
  else if option = "-s" then some { config with schedulerFilter := toLower value }
  else if option = "-w" then some { config with workloadFilter := toLower value }
  else if option = "-m" then some { config with topology := toLower value }
  else if option = "-b" then some { config with balancer := toLower value }
  else if option = "--benchmark-version" then some { config with benchmarkVersion := value }
  else if option = "--suite-id" then some { config with suiteId := value }
  else if option = "--run-id" then some { config with runId := value }
  else if option = "--seed" then some { config with seedBase := atol value }
  else if option = "--artifact-dir" then some { config with artifactDir := value }
  else none

/-- A word that is an option on its own. -/
def setFlag (config : Config) (option : String) : Except Exit Config :=
  if option = "--no-steal" then .ok { config with workStealing := false }
  else if option = "-h" ∨ option = "--help" then .error .help
  else .error (.unknownOption option)

/-- The loop over the arguments. -/
def parseOptions (config : Config) : List String → Except Exit Config
  | [] => .ok config
  | [option] => setFlag config option
  | option :: value :: rest =>
    match setOption config option value with
    | some config => parseOptions config rest
    | none =>
      match setFlag config option with
      | .ok config => parseOptions config (value :: rest)
      | .error exit => .error exit

/-- `parse_args`, on an argument list that begins with the name of the program -/
def parseArgs (argv : List String) : Except Exit Config :=
  parseOptions {} argv.tail

/-! ## Validation -/

def isValidTopology (topology : String) : Bool :=
  topology = "sq" || topology = "mq"

def isValidBalancer (balancer : String) : Bool :=
  balancer = "rr" || balancer = "leastloaded"

theorem isValidTopology_iff {topology : String} :
    isValidTopology topology = true ↔ topology = "sq" ∨ topology = "mq" := by
  simp [isValidTopology]

theorem isValidBalancer_iff {balancer : String} :
    isValidBalancer balancer = true ↔ balancer = "rr" ∨ balancer = "leastloaded" := by
  simp [isValidBalancer]

/-- `validate_config_or_exit`, with what it prints before it exits -/
def validateConfig (config : Config) : Except String Unit :=
  if config.numTasks = 0 then .error "Error: Number of tasks must be >= 1\n"
  else if config.numCores < 1 then .error "Error: Number of CPU cores must be >= 1\n"
  else if config.numReplications < 1 then .error "Error: Number of replications must be >= 1\n"
  else if config.stopTime.nonpos then .error "Error: Stop time must be > 0\n"
  else if !isValidTopology config.topology then
    .error ("Error: Unknown topology '" ++ config.topology ++ "'\nValid options: sq, mq\n")
  else if !isValidBalancer config.balancer then
    .error ("Error: Unknown load balancer '" ++ config.balancer
      ++ "'\nValid options: rr, leastloaded\n")
  else if config.seedBase ≤ 0 then .error "Error: Seed must be > 0\n"
  else if config.benchmarkVersion = "" then .error "Error: benchmark-version must be non-empty\n"
  else if config.suiteId = "" then .error "Error: suite-id must be non-empty\n"
  else if '\x00' ∈ config.artifactDir.toList then
    .error "Error: artifact-dir contains invalid characters\n"
  else .ok ()

/-- The configurations that pass every check. -/
structure Accepted (config : Config) : Prop where
  numTasks : config.numTasks ≠ 0
  numCores : 1 ≤ config.numCores
  numReplications : 1 ≤ config.numReplications
  stopTime : config.stopTime.nonpos = false
  topology : config.topology = "sq" ∨ config.topology = "mq"
  balancer : config.balancer = "rr" ∨ config.balancer = "leastloaded"
  seedBase : 0 < config.seedBase
  benchmarkVersion : config.benchmarkVersion ≠ ""
  suiteId : config.suiteId ≠ ""
  artifactDir : '\x00' ∉ config.artifactDir.toList

theorem validateConfig_eq_ok {config : Config} :
    validateConfig config = .ok () ↔ Accepted config := by
  constructor
  · intro h
    unfold validateConfig at h
    split_ifs at h with h1 h2 h3 h4 h5 h6 h7 h8 h9 h10
    exact
      { numTasks := h1
        numCores := not_lt.1 h2
        numReplications := not_lt.1 h3
        stopTime := by simpa using h4
        topology := isValidTopology_iff.1 (by simpa using h5)
        balancer := isValidBalancer_iff.1 (by simpa using h6)
        seedBase := not_le.1 h7
        benchmarkVersion := h8
        suiteId := h9
        artifactDir := h10 }
  · intro h
    unfold validateConfig
    rw [if_neg h.numTasks, if_neg (not_lt.2 h.numCores), if_neg (not_lt.2 h.numReplications),
      if_neg (by simp [h.stopTime]), if_neg (by simp [isValidTopology_iff.2 h.topology]),
      if_neg (by simp [isValidBalancer_iff.2 h.balancer]), if_neg (not_le.2 h.seedBase),
      if_neg h.benchmarkVersion, if_neg h.suiteId, if_neg h.artifactDir]

/-! ## The run id -/

/-- `std::isalnum`, of a byte -/
def isAlnum (ch : UInt8) : Bool :=
  (48 ≤ ch && ch ≤ 57) || (65 ≤ ch && ch ≤ 90) || (97 ≤ ch && ch ≤ 122)

/-- What becomes of a byte of an id: `-` and `_` are the bytes 45 and 95. -/
def sanitizeChar (ch : UInt8) : Char :=
  if isAlnum ch || ch = 45 || ch = 95 then Char.ofNat ch.toNat else '-'

/-- `sanitize_id`, which goes through the bytes of the string -/
def sanitizeId (raw : String) : String :=
  let out := String.ofList ((raw.toList.flatMap String.utf8EncodeChar).map sanitizeChar)
  if out = "" then "run-unknown" else out

/-- The id of the run, `fallback` being what `make_default_run_id` makes of the time and the
process. -/
def setRunId (fallback : String) (config : Config) : Config :=
  { config with runId := sanitizeId (if config.runId = "" then fallback else config.runId) }

end CommandLine

end SchedSim
