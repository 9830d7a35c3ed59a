import AllPairs.Execution.Executor
import AllPairs.Execution.Pool
import AllPairs.Execution.Report
import AllPairs.Schedule.Basic

/-!
Performing a schedule. Batches run strictly one after another, with a barrier after each one, so
tasks of different batches never run at the same time. A batch that is not disjoint is refused
before any of its tasks starts, and ends the run; a task that fails does not.
-/

namespace AllPairs.Execution

/-- A batch that was refused because it is not disjoint. -/
structure Refusal where
  index : Nat
  batch : Batch
deriving DecidableEq

/-- Why the run ended. -/
def Refusal.message (refusal : Refusal) : String :=
  "Batch " ++ toString refusal.index ++ " is not disjoint: " ++ refusal.batch.text

/-- What became of a schedule: the results of the batches that ran, the batch that was refused if
there was one, and the executor and the world after it. -/
structure Run (ε ω : Type) where
  outcomes : List (List TaskResult)
  refusal : Option Refusal
  executor : ε
  world : ω

variable {ε ω : Type}

/-- Performs batches in turn, the first of which has the given index. -/
def performBatches (executor : Executor ε ω) (perform : Comparison ω) :
    (index : Nat) → List Batch → ε → ω → Run ε ω
  | _, [], state, world => ⟨[], none, state, world⟩
  | index, batch :: rest, state, world =>
    if batch.Disjoint then
      let (state, world) := executor.dispatch perform batch state world
      let (results, state, world) := executor.await state world
      let run := performBatches executor perform (index + 1) rest state world
      { run with outcomes := results :: run.outcomes }
    else ⟨[], some ⟨index, batch⟩, state, world⟩

/-- Performs a schedule. -/
def execute (executor : Executor ε ω) (perform : Comparison ω) (schedule : Schedule) (state : ε)
    (world : ω) : Run ε ω :=
  performBatches executor perform 0 schedule.batches state world

namespace Run

/-- The results of a run, summed up; a run that was refused has no report. -/
def report (run : Run ε ω) : Except Refusal Report :=
  match run.refusal with
  | some refusal => .error refusal
  | none => .ok (.ofOutcomes run.outcomes)

/-- What a run tells that was not refused. -/
def events (run : Run ε ω) : List Event :=
  eventsFrom 0 run.outcomes ++ [(Report.ofOutcomes run.outcomes).event]

end Run
end AllPairs.Execution
