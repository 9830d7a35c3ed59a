import AllPairs.Task
import AllPairs.Text.Quoted

/-!
Comparisons and how they end. A comparison is supplied by the caller: it may succeed, fail with a
chain of causes, or crash, and what it does may depend on a world that it changes. Failures and
crashes are recorded as texts and never stop anything else.
-/

namespace AllPairs

/-- How one call of a comparison ends. -/
inductive Completion where
  | success
  /-- A failure and what it was caused by, the nearest cause first. -/
  | failure (message : String) (causes : List String)
  /-- A crash with its text, if it has one. -/
  | crash (text : Option String)
deriving DecidableEq

/-- What is recorded of a call that did not succeed: a failure with its causes, or the text of a
crash. -/
def Completion.fault? : Completion → Option String
  | success => none
  | failure message causes => some (String.intercalate ": " (message :: causes))
  | crash text => some (text.getD "task panicked")

/-- The work of a task, in a world of type `ω`. -/
abbrev Comparison (ω : Type) := Task → ω → Completion × ω

/-- A task that was performed, and its fault if it did not succeed. -/
structure TaskResult where
  task : Task
  fault : Option String
deriving DecidableEq

namespace TaskResult

/-- Performs a task and records how that ends. -/
def capture {ω : Type} (perform : Comparison ω) (task : Task) (world : ω) : TaskResult × ω :=
  let (completion, world) := perform task world
  (⟨task, completion.fault?⟩, world)

/-- Performs tasks one after another. -/
def captureEach {ω : Type} (perform : Comparison ω) : List Task → ω → List TaskResult × ω
  | [], world => ([], world)
  | task :: rest, world =>
    let (result, world) := capture perform task world
    let (results, world) := captureEach perform rest world
    (result :: results, world)

/-- The structural text of a result. -/
def dump (result : TaskResult) : String :=
  Dump.record "TaskResult"
    [("task", result.task.dump),
      ("result",
        match result.fault with
        | none => Dump.applied "Ok" ["()"]
        | some fault => Dump.applied "Err" [Text.quoted fault])]

/-- Results in ascending order of their tasks. -/
def sort (results : List TaskResult) : List TaskResult :=
  results.mergeSort fun r s => decide (r.task ≤ s.task)

end TaskResult

/-- A rule of a scripted comparison: for which calls it holds, and how they end. A condition that
is not given holds for every call. -/
structure Rule where
  task : Option Task
  partition : Option Partition
  /-- The number of the call, counted from zero. -/
  call : Option Nat
  completion : Completion
deriving DecidableEq

/-- All conditions of the rule hold for the given call. -/
def Rule.Applies (rule : Rule) (task : Task) (call : Nat) : Prop :=
  (∀ t ∈ rule.task, t = task) ∧ (∀ p ∈ rule.partition, p ∈ task.partitions) ∧
    ∀ n ∈ rule.call, n = call

instance (rule : Rule) (task : Task) (call : Nat) : Decidable (rule.Applies task call) :=
  inferInstanceAs (Decidable (_ ∧ _ ∧ _))

/-- The comparison whose calls end as the first rule that applies says, and succeed if none does.
Its world is the number of calls so far. -/
def Comparison.scripted (rules : List Rule) : Comparison Nat := fun task call =>
  (((rules.find? fun rule => decide (rule.Applies task call)).map Rule.completion).getD .success,
    call + 1)

/-- The comparison that does nothing. -/
def Comparison.trivial : Comparison Unit := fun _ world => (.success, world)

end AllPairs
