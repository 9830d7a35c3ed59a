import AllPairs.Json.Layout
import AllPairs.Json.Reader
import AllPairs.Planning.Width
import AllPairs.Schedule.Basic

/-!
Plan data as JSON. A task is an object whose single key names its kind; a batch is the list of its
tasks; schedules and configurations are records.
-/

namespace AllPairs

open Json

namespace Task

/-- The two indices of a cross task, as a list of exactly two. -/
def pairRecord : Record (Partition × Partition) where
  name := "tuple variant Task::Cross"
  blank := (0, 0)
  complete := true
  fields :=
    [⟨"first", Reader.map (fun first pair => (first, pair.2)) natural⟩,
      ⟨"second", Reader.map (fun second pair => (pair.1, second)) natural⟩]

/-- The two indices of a cross task. -/
def readPair : Reader (Partition × Partition) := fun input =>
  match afterBlanks input with
  | [] => .error (.ended .value)
  | Octet.openBracket :: rest => pairRecord.ofList rest
  | start => wrongType pairRecord.name start

/-- Reads a task. -/
def read : Reader Task :=
  tagged
    [⟨"cross", "tuple variant", readPair.map fun pair => cross pair.1 pair.2⟩,
      ⟨"diagonal", "newtype variant", natural.map diagonal⟩]

/-- Lays out a task. -/
def layout : Task → Layout
  | cross first second =>
    .object [("cross", .list [.natural first, .natural second])]
  | diagonal partition => .object [("diagonal", .natural partition)]

end Task

namespace Batch

/-- Reads a batch. -/
def read : Reader Batch :=
  (list Task.read).map Batch.mk

/-- Lays out a batch. -/
def layout (batch : Batch) : Layout :=
  .list (batch.tasks.map Task.layout)

end Batch

namespace Schedule

/-- The fields of a schedule. -/
def record : Record Schedule where
  name := "struct Schedule"
  blank := ⟨0, []⟩
  complete := true
  fields :=
    [⟨"partitions", natural.map fun partitions schedule => { schedule with partitions }⟩,
      ⟨"batches", (list Batch.read).map fun batches schedule => { schedule with batches }⟩]

/-- Reads a schedule. -/
def read : Reader Schedule :=
  record.read

/-- Lays out a schedule. -/
def layout (schedule : Schedule) : Layout :=
  .object
    [("partitions", .natural schedule.partitions),
      ("batches", .list (schedule.batches.map Batch.layout))]

/-- The JSON text of a schedule. -/
def toJson (schedule : Schedule) : String :=
  schedule.layout.render

/-- The schedule that a JSON text describes. -/
def ofJson (input : Octets) : Except Fault Schedule :=
  document read input

end Schedule

namespace PlanConfig

/-- The fields of a configuration, which all may be absent. -/
def record : Record PlanConfig where
  name := "struct PlanConfig"
  blank := {}
  complete := false
  fields :=
    [⟨"max_width", (optional positive).map fun limit config =>
      { config with maxWidth := .ofNat (limit.getD 0) }⟩]

/-- Reads a configuration. -/
def read : Reader PlanConfig :=
  record.read

/-- Lays out a configuration. -/
def layout (config : PlanConfig) : Layout :=
  .object
    [("max_width",
      match config.maxWidth.limit? with
      | some limit => .natural limit
      | none => .atom "null")]

end PlanConfig
end AllPairs
