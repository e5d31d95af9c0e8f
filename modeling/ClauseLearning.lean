import ClauseLearning.Activity
import ClauseLearning.Clause
import ClauseLearning.CommandLine.Arguments
import ClauseLearning.CommandLine.Run
import ClauseLearning.Config
import ClauseLearning.Config.Text
import ClauseLearning.Conflict
import ClauseLearning.Database
import ClauseLearning.Decimal
import ClauseLearning.Decimal.Shortest
import ClauseLearning.DecisionHeap
import ClauseLearning.Encoding.AtMostK
import ClauseLearning.Encoding.AtMostOne
import ClauseLearning.Engine
import ClauseLearning.Engine.Created
import ClauseLearning.Engine.Plain
import ClauseLearning.Engine.Recording
import ClauseLearning.Engine.Simplifying
import ClauseLearning.Enumeration
import ClauseLearning.Error
import ClauseLearning.Event
import ClauseLearning.Event.Filter
import ClauseLearning.Facts
import ClauseLearning.Fault
import ClauseLearning.Formula
import ClauseLearning.Formula.PigeonHole
import ClauseLearning.Formula.RandomKSat
import ClauseLearning.Literal
import ClauseLearning.Luby
import ClauseLearning.Main
import ClauseLearning.Marks
import ClauseLearning.PartialOrder
import ClauseLearning.Proofs.AccountedRuns
import ClauseLearning.Proofs.Accounts
import ClauseLearning.Proofs.Activity
import ClauseLearning.Proofs.Answers
import ClauseLearning.Proofs.Arrays
import ClauseLearning.Proofs.Assignment
import ClauseLearning.Proofs.BackwardSubsumption
import ClauseLearning.Proofs.Calls
import ClauseLearning.Proofs.Changes
import ClauseLearning.Proofs.CheckedCalls
import ClauseLearning.Proofs.CheckedConflict
import ClauseLearning.Proofs.CheckedDatabase
import ClauseLearning.Proofs.CheckedElimination
import ClauseLearning.Proofs.CheckedHeap
import ClauseLearning.Proofs.CheckedPropagation
import ClauseLearning.Proofs.CheckedSearch
import ClauseLearning.Proofs.CheckedState
import ClauseLearning.Proofs.CheckedSubsumption
import ClauseLearning.Proofs.Clause
import ClauseLearning.Proofs.ClauseLives
import ClauseLearning.Proofs.ClauseStream
import ClauseLearning.Proofs.Commanders
import ClauseLearning.Proofs.Compaction
import ClauseLearning.Proofs.Conflict
import ClauseLearning.Proofs.Database
import ClauseLearning.Proofs.DecisionHeap
import ClauseLearning.Proofs.DecisionVariables
import ClauseLearning.Proofs.Eliminated
import ClauseLearning.Proofs.Elimination
import ClauseLearning.Proofs.EliminationLimits
import ClauseLearning.Proofs.EngineCalls
import ClauseLearning.Proofs.Engines
import ClauseLearning.Proofs.Enumeration
import ClauseLearning.Proofs.Extension
import ClauseLearning.Proofs.Facts
import ClauseLearning.Proofs.Faults
import ClauseLearning.Proofs.FixedValues
import ClauseLearning.Proofs.Flags
import ClauseLearning.Proofs.FreshVariables
import ClauseLearning.Proofs.Frozen
import ClauseLearning.Proofs.GarbageCollection
import ClauseLearning.Proofs.GivenClauses
import ClauseLearning.Proofs.Grades
import ClauseLearning.Proofs.Headers
import ClauseLearning.Proofs.HeapOrder
import ClauseLearning.Proofs.ImplicationGraph
import ClauseLearning.Proofs.Lessons
import ClauseLearning.Proofs.LimitedRuns
import ClauseLearning.Proofs.Limits
import ClauseLearning.Proofs.LiteralCodes
import ClauseLearning.Proofs.LoadedClauses
import ClauseLearning.Proofs.LubyRestarts
import ClauseLearning.Proofs.Marks
import ClauseLearning.Proofs.Models
import ClauseLearning.Proofs.Moments
import ClauseLearning.Proofs.Numbers
import ClauseLearning.Proofs.Occurrences
import ClauseLearning.Proofs.OrderTables
import ClauseLearning.Proofs.PartialModels
import ClauseLearning.Proofs.PartialOrder
import ClauseLearning.Proofs.PendingClauses
import ClauseLearning.Proofs.PigeonHole
import ClauseLearning.Proofs.Propagation
import ClauseLearning.Proofs.Propagator
import ClauseLearning.Proofs.Reduction
import ClauseLearning.Proofs.ReductionEffects
import ClauseLearning.Proofs.ReductionSpacing
import ClauseLearning.Proofs.Reductions
import ClauseLearning.Proofs.RefusedClauses
import ClauseLearning.Proofs.ReluctantDoubling
import ClauseLearning.Proofs.Reset
import ClauseLearning.Proofs.RestartOverflow
import ClauseLearning.Proofs.Restarts
import ClauseLearning.Proofs.Search
import ClauseLearning.Proofs.SearchSteps
import ClauseLearning.Proofs.SequentialCounter
import ClauseLearning.Proofs.Session
import ClauseLearning.Proofs.Settings
import ClauseLearning.Proofs.SinglePrecision
import ClauseLearning.Proofs.Sorting
import ClauseLearning.Proofs.State
import ClauseLearning.Proofs.Stock
import ClauseLearning.Proofs.StockRuns
import ClauseLearning.Proofs.StockSteps
import ClauseLearning.Proofs.Storage
import ClauseLearning.Proofs.StorageRuns
import ClauseLearning.Proofs.StoredClauses
import ClauseLearning.Proofs.Subsumption
import ClauseLearning.Proofs.Termination
import ClauseLearning.Proofs.TierLists
import ClauseLearning.Proofs.Trail
import ClauseLearning.Proofs.TwoWatched
import ClauseLearning.Proofs.UnitClosure
import ClauseLearning.Proofs.Unlimited
import ClauseLearning.Proofs.Unscheduled
import ClauseLearning.Proofs.Updates
import ClauseLearning.Proofs.Watch
import ClauseLearning.Propagation
import ClauseLearning.Random.KeyStream
import ClauseLearning.Random.Sample
import ClauseLearning.Reduction
import ClauseLearning.Schedule
import ClauseLearning.Search
import ClauseLearning.Simplification
import ClauseLearning.Simplification.Elimination
import ClauseLearning.Simplification.Occurrences
import ClauseLearning.Simplification.Subsumption
import ClauseLearning.Solver
import ClauseLearning.StableSort
import ClauseLearning.State
import ClauseLearning.Storage
import ClauseLearning.Text.CodeRanges
import ClauseLearning.Text.GraphemeExtend
import ClauseLearning.Text.Pattern
import ClauseLearning.Text.Pattern.Reading
import ClauseLearning.Text.Printable
import ClauseLearning.Text.Quoted
import ClauseLearning.Text.WhiteSpace
import ClauseLearning.Trail
import ClauseLearning.Version
import ClauseLearning.Watch
