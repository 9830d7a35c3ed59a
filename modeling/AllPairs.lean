import AllPairs.Document.Plan
import AllPairs.Document.Report
import AllPairs.Execution.Run
import AllPairs.Main
import AllPairs.Planning.Algorithm
import AllPairs.Proofs.CommandLine.PlanAndCheck
import AllPairs.Proofs.Document.PlanRoundTrip
import AllPairs.Proofs.Execution.Barrier
import AllPairs.Proofs.Execution.Completeness
import AllPairs.Proofs.Execution.Refinement
import AllPairs.Proofs.Planning.NimSchedule
import AllPairs.Proofs.Planning.TournamentSchedule
import AllPairs.Schedule.Edit
import AllPairs.Proofs.Planning.TaskByTask
import AllPairs.Proofs.Planning.GreedyBound
import AllPairs.Proofs.Planning.TournamentBound
import AllPairs.Proofs.Benchmark
import AllPairs.Proofs.FirstViolation
import AllPairs.Proofs.SingleEdits
import AllPairs.Proofs.Execution.SequentialTrace
import AllPairs.Proofs.Planning.MaxWidth
import AllPairs.Proofs.Document.ReportRoundTrip
import AllPairs.Proofs.Document.Truncation
import AllPairs.Proofs.ScheduleText
