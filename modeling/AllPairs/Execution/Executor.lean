import AllPairs.Batch
import AllPairs.Execution.Comparison

/-!
Executors take batches of tasks and hand back results. What is handed over by `dispatch` may be
performed at once or later, in any order; `await` is the barrier at which everything that was
dispatched since the last barrier is finished.

The sequential executor performs tasks in order as they are dispatched and keeps the results until
they are asked for.
-/

namespace AllPairs

/-- A way to perform batches, with a state of type `ε`, in a world of type `ω`. Dispatching is given
the comparison for the tasks of the batch. -/
structure Executor (ε ω : Type) where
  dispatch : Comparison ω → Batch → ε → ω → ε × ω
  await : ε → ω → List TaskResult × ε × ω

/-- What the sequential executor keeps: results that were not yet asked for. -/
structure Sequential where
  results : List TaskResult
deriving DecidableEq

namespace Sequential

/-- Nothing was dispatched yet. -/
def initial : Sequential := ⟨[]⟩

/-- Performs the tasks of a batch in order. -/
def dispatch {ω : Type} (perform : Comparison ω) (batch : Batch) (state : Sequential) (world : ω) :
    Sequential × ω :=
  let (results, world) := TaskResult.captureEach perform batch.tasks world
  (⟨state.results ++ results⟩, world)

/-- The sequential executor. -/
def executor (ω : Type) : Executor Sequential ω where
  dispatch := dispatch
  await state world := (state.results, initial, world)

/-- The structural text of the executor. -/
def dump (state : Sequential) : String :=
  Dump.record "Sequential"
    [("outcome",
      Dump.record "BatchOutcome" [("results", Dump.list (state.results.map TaskResult.dump))])]

end Sequential
end AllPairs
