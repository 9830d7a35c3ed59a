import AllPairs.Benchmark
import AllPairs.CommandLine.Command
import AllPairs.CommandLine.FileFault
import AllPairs.Document.Plan
import AllPairs.Execution.Run

/-!
What the program prints. A command sees files and clocks only through its surroundings, so its
outcome is a value: what goes to the output, what goes to the errors, and the exit status. The
status is 1 if the command fails and 2 if the arguments are wrong.
-/

namespace AllPairs.CommandLine

/-- What a command can see of the world. -/
structure Surroundings where
  /-- The content of a file, or why it cannot be read. -/
  file : String → Except FileFault Json.Octets
  /-- How the entries of a benchmark are written. -/
  entryText : Benchmark.Entry → String
  /-- How long an algorithm takes for a number of partitions. -/
  seconds : Algorithm → Nat → Float

/-- What a command does. -/
structure Outcome where
  exit : Nat
  output : String
  errors : String
deriving DecidableEq

namespace Outcome

/-- The command did what it was asked for. -/
def success (output : String) : Outcome := ⟨0, output, ""⟩

/-- The command failed, maybe after some output. -/
def failure (message : String) (output : String) : Outcome := ⟨1, output, "Error: " ++ message⟩

end Outcome

/-- The name and the version of the program. -/
def versionText : String := "pairplan 0.1.0\n"

/-- How the program is used. -/
def usageText : String :=
  "Usage:\n"
    ++ "  pairplan plan PARTITIONS [-a ALGORITHM] [-w MAX_WIDTH] [-f text|json]\n"
    ++ "  pairplan check PARTITIONS INPUT\n"
    ++ "  pairplan bench UP_TO [-e ALGORITHM,...] [-w MAX_WIDTH]\n"
    ++ "  pairplan run PARTITIONS [-a ALGORITHM] [-j WORKERS]\n"

/-- What is wrong with the content of a file that should be a schedule of a workload; otherwise the
schedule. The number of partitions is judged before the content is looked at. -/
def checked (partitions : Nat) (name : String) (content : Except FileFault Json.Octets) :
    Except String Schedule := do
  let workload ← (Workload.ofSize partitions).mapError InvalidSize.message
  let content ← content.mapError FileFault.message
  let schedule ← (Schedule.ofJson content).mapError Json.Fault.message
  if schedule.partitions ≠ partitions then
    .error (name ++ " was planned for " ++ toString schedule.partitions ++ " partitions, not "
      ++ toString partitions)
  (schedule.validate workload).mapError fun violation => name ++ ": " ++ violation.message
  return schedule

/-- The reports of algorithms on every number of partitions from one to a limit. -/
def benchReports (surroundings : Surroundings) (limit : Nat) (config : PlanConfig) :
    List Algorithm → Except Benchmark.Failure (List Benchmark.Report)
  | [] => .ok []
  | algorithm :: rest => do
    let report ←
      (Benchmark.run (algorithm.planner config) (surroundings.seconds algorithm) 1 limit ()).1
    let others ← benchReports surroundings limit config rest
    return report :: others

/-- Performs a schedule with a comparison that does nothing. -/
def performed (workers : Nat) (pos : 0 < workers) (schedule : Schedule) : Outcome :=
  let run :=
    Execution.execute (Pool.executor Unit) .trivial schedule (.ofWorkers workers pos) ()
  match run.report with
  | .error refusal => .failure refusal.message ""
  | .ok report =>
    if report.isSuccess then .success report.text
    else .failure (toString report.failures.length ++ " tasks failed") report.text

/-- What a command does. -/
def Command.outcome (surroundings : Surroundings) : Command → Outcome
  | version => .success versionText
  | help => .success usageText
  | plan partitions algorithm config format =>
    match (algorithm.planner config).schedule partitions () with
    | .error error => .failure error.message ""
    | .ok (schedule, _) =>
      match format with
      | .text => .success schedule.text
      | .json => .success (schedule.toJson ++ "\n")
  | check partitions file =>
    match checked partitions file (surroundings.file file) with
    | .error message => .failure message ""
    | .ok schedule =>
      .success (file ++ ": valid, " ++ toString schedule.taskCount ++ " tasks in "
        ++ toString schedule.size ++ " batches\n")
  | bench limit excluded config =>
    match benchReports surroundings limit config (Algorithm.all.filter (· ∉ excluded)) with
    | .error failure => .failure failure.message ""
    | .ok reports =>
      .success (String.join (reports.map (Benchmark.Report.textWith surroundings.entryText)))
  | run partitions algorithm workers pos =>
    match (algorithm.planner ⟨.atMost workers pos⟩).schedule partitions () with
    | .error error => .failure error.message ""
    | .ok (schedule, _) => performed workers pos schedule

/-- What the program does with its arguments. -/
def run (surroundings : Surroundings) (arguments : List String) : Outcome :=
  match Command.ofArguments? arguments with
  | some command => command.outcome surroundings
  | none => ⟨2, "", usageText⟩

end AllPairs.CommandLine
