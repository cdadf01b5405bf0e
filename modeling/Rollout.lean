import Rollout.Plan.Reading
import Rollout.Plan.Writing
import Rollout.Json.Printer
import Rollout.Backoff
import Rollout.Cancel
import Rollout.Client.Call
import Rollout.Client.Reading
import Rollout.Client.Rehearsal
import Rollout.Config
import Rollout.Context.Reading
import Rollout.Executor
import Rollout.Handler.Script
import Rollout.Log
import Rollout.Run.Reading
import Rollout.Run.Writing
import Rollout.Proofs.CycleSearch
import Rollout.Proofs.TableLookup
import Rollout.Proofs.PlanValidity
import Rollout.Proofs.GraphOrder
import Rollout.Run.Loop
import Rollout.Proofs.StateChanges
import Rollout.Proofs.RunChanges
import Rollout.Proofs.RunCoherence
import Rollout.Proofs.Lifecycle
import Rollout.Proofs.LoopInvariant
import Rollout.Proofs.LoopLedger
import Rollout.Proofs.FinalReport
import Rollout.Proofs.DependencySafety
import Rollout.Proofs.RunCompletion
import Rollout.Proofs.ContextWrites
import Rollout.Proofs.Fates
import Rollout.Proofs.Convergence
import Rollout.Proofs.VirtualTime
import Rollout.Proofs.LeastOrder
import Rollout.Proofs.AncestorIndex
import Rollout.Proofs.EventLog
import Rollout.Proofs.Settlement
import Rollout.Proofs.ContextReads
import Rollout.Proofs.StoredValues
import Rollout.Proofs.Stopping
import Rollout.Run.Turns
import Rollout.Run.Crew
import Rollout.Proofs.FailureBlame
import Rollout.Proofs.ReportLaw
import Rollout.Proofs.ConcurrencyBound
import Rollout.Proofs.SerialOrder
import Rollout.Proofs.ProcedureEffects
import Rollout.Proofs.HandlerEffects
import Rollout.Proofs.CrewRuns
import Rollout.Proofs.CrewTurns
import Rollout.Proofs.AddressFlow
import Rollout.Proofs.SkipReasons
import Rollout.Proofs.StopRequests
import Rollout.Proofs.DecimalDigits
import Rollout.Proofs.JsonText
import Rollout.Proofs.RecordReading
import Rollout.Proofs.PlanText
import Rollout.Proofs.CivilCalendar
import Rollout.Proofs.InstantText
import Rollout.Proofs.ReportText
import Rollout.Proofs.Arrangements
import Rollout.Proofs.PlanFaults
import Rollout.Proofs.ProcedureCourse
import Rollout.Proofs.Attempts
import Rollout.Proofs.PlanDrafts
import Rollout.Proofs.WorkConservation
import Rollout.Proofs.BackoffGrowth
import Rollout.Proofs.Polls
import Rollout.Proofs.HandlerSteps
import Rollout.Proofs.Preconditions
import Rollout.Proofs.StepOutcomes
import Rollout.Proofs.Routing
import Rollout.Proofs.Admission
import Rollout.Proofs.ByteOrder
import Rollout.Proofs.WriteHistory
import Rollout.Proofs.SettingsRange
import Rollout.Proofs.DocumentEdits
import Rollout.Proofs.SteadyReading
import Rollout.Proofs.SteadyRecords
import Rollout.Proofs.PlanEdits
import Rollout.Proofs.TallyHistory
import Rollout.Proofs.RunCounters
import Rollout.Proofs.ForwardStates
