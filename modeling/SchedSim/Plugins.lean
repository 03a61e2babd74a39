import SchedSim.Python
import Mathlib.Data.List.Dedup
import Mathlib.Data.List.Sort
import Mathlib.Data.String.Basic

/-!
# The plugin registry

The scheduler and workload selectors a suite may name: plugins under their keys, and the names,
keys and aliases, that lead to a key.
-/

namespace SchedSim

/-- `SchedulerPlugin` and `WorkloadPlugin`, which have the same fields. -/
structure Plugin where
  key : String
  cliToken : String
  displayName : String
  description : String := ""
  aliases : List String := []
  isMeta : Bool := false
  deriving DecidableEq

/-- `_norm` -/
def norm (py : Builtins) (value : Json) : String :=
  py.lower (strip (py.str value))

structure BenchmarkPluginRegistry where
  schedulers : List (String × Plugin) := []
  workloads : List (String × Plugin) := []
  schedulerAliasToKey : List (String × String) := []
  workloadAliasToKey : List (String × String) := []

namespace BenchmarkPluginRegistry

/-- A name leads to a key, and the key to a plugin. -/
def resolve (plugins : List (String × Plugin)) (aliasToKey : List (String × String))
    (name : String) : Option Plugin :=
  match aliasToKey.lookup name with
  | none => none
  | some key => if key = "" then none else plugins.lookup key

variable (py : Builtins) (registry : BenchmarkPluginRegistry)

def resolveScheduler (value : Json) : Option Plugin :=
  resolve registry.schedulers registry.schedulerAliasToKey (norm py value)

def resolveWorkload (value : Json) : Option Plugin :=
  resolve registry.workloads registry.workloadAliasToKey (norm py value)

/-- `sorted({p.key for p in plugins.values()})` -/
def helpTokens (plugins : List (String × Plugin)) : List String :=
  (plugins.map fun entry => entry.2.key).dedup.insertionSort (· ≤ ·)

def schedulerHelpTokens : List String :=
  helpTokens registry.schedulers

def workloadHelpTokens : List String :=
  helpTokens registry.workloads

end BenchmarkPluginRegistry

end SchedSim
