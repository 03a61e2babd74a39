import SchedSim.Accounting
import SchedSim.Agreement
import SchedSim.Allotments
import SchedSim.BenchmarkSpec
import SchedSim.Binary64
import SchedSim.Boosts
import SchedSim.CStrings
import SchedSim.ChargeCalls
import SchedSim.CommandLine
import SchedSim.Comparisons
import SchedSim.Completion
import SchedSim.Conservation
import SchedSim.CoreTurns
import SchedSim.CoreView
import SchedSim.CsvReader
import SchedSim.DispatchCalls
import SchedSim.DoubleReplay
import SchedSim.EarliestDeadline
import SchedSim.Event
import SchedSim.EventMatching
import SchedSim.Execution
import SchedSim.ExecutionIndex
import SchedSim.Experiments
import SchedSim.FairShare
import SchedSim.Fairness
import SchedSim.FeedbackRuns
import SchedSim.Frame
import SchedSim.FreshStart
import SchedSim.GoogleTrace
import SchedSim.Grouping
import SchedSim.InferredExperiments
import SchedSim.Interruptions
import SchedSim.JainsFairness
import SchedSim.LastWrite
import SchedSim.LateArrival
import SchedSim.Latency
import SchedSim.Lehmer
import SchedSim.Levels
import SchedSim.ListedRuns
import SchedSim.LittlesLaw
import SchedSim.Locality
import SchedSim.Lts
import SchedSim.Machine
import SchedSim.MakeSubset
import SchedSim.Makespan
import SchedSim.MalformedNumbers
import SchedSim.MatchedRuns
import SchedSim.Metrics
import SchedSim.MetricsRow
import SchedSim.MinElement
import SchedSim.Moves
import SchedSim.MultiCoreSimulator
import SchedSim.NiceAverages
import SchedSim.Numerals
import SchedSim.OwnRecord
import SchedSim.Parts
import SchedSim.PassGrowth
import SchedSim.PassSpread
import SchedSim.PassThrough
import SchedSim.PeriodShares
import SchedSim.PlanCover
import SchedSim.Plugins
import SchedSim.Printing
import SchedSim.Priorities
import SchedSim.Product
import SchedSim.ProportionalShare
import SchedSim.Python
import SchedSim.Registration
import SchedSim.Reports
import SchedSim.Reservoir
import SchedSim.Resets
import SchedSim.ReusedRuns
import SchedSim.Rngs
import SchedSim.RoundedTimes
import SchedSim.RoundedTurns
import SchedSim.RowMetrics
import SchedSim.RuleOne
import SchedSim.RunFiles
import SchedSim.RunIds
import SchedSim.RunPlan
import SchedSim.RunSuite
import SchedSim.RunSummaries
import SchedSim.SameStart
import SchedSim.Scheduler
import SchedSim.Schedulers.CFS
import SchedSim.Schedulers.EEVDF
import SchedSim.Schedulers.Factory
import SchedSim.Schedulers.MLFQ
import SchedSim.Schedulers.Stride
import SchedSim.Seeds
import SchedSim.SharedCore
import SchedSim.SharedTurns
import SchedSim.Simulator
import SchedSim.SingleServer
import SchedSim.Slices
import SchedSim.Statistics
import SchedSim.Stealing
import SchedSim.SwitchCounters
import SchedSim.SyntheticWorkloads
import SchedSim.Task
import SchedSim.TaskRules
import SchedSim.TaskSummaries
import SchedSim.Termination
import SchedSim.TieBreaking
import SchedSim.TraceReplay
import SchedSim.UsefulPreemption
import SchedSim.Utilization
import SchedSim.ValidRows
import SchedSim.Values
import SchedSim.VirtualTime
import SchedSim.WeightedFairness
import SchedSim.Words
import SchedSim.WorkConserving
import SchedSim.WorkDone
