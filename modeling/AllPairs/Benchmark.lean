import AllPairs.Decimal.Style
import AllPairs.Planning.Planner

/-!
Planning every number of partitions of a range with one planner, and what the schedules look like.
Every schedule is checked; the first one that does not cover its workload ends the benchmark. How
long planning takes is measured outside and enters as a function.
-/

namespace AllPairs.Benchmark

/-- What the planner made of one number of partitions. -/
structure Entry where
  partitions : Nat
  tasks : Nat
  batches : Nat
  maxWidth : Nat
  /-- The seconds that planning took. -/
  time : Float

/-- What a planner made of a range. -/
structure Report where
  planner : String
  entries : List Entry

/-- Why a benchmark has no report. -/
inductive Failure where
  | invalidSize (error : InvalidSize)
  | defective (partitions : Nat) (violation : Violation)
deriving DecidableEq

/-- What went wrong. -/
def Failure.message : Failure → String
  | invalidSize error => error.message
  | defective partitions violation =>
    "Invalid schedule created for " ++ toString partitions ++ " partitions: " ++ violation.message

/-- The text of an entry whose time is written in the given way. -/
def Entry.textWith (time : String) (entry : Entry) : String :=
  toString entry.partitions ++ ": " ++ toString entry.tasks ++ " tasks in "
    ++ toString entry.batches ++ " batches, widest " ++ toString entry.maxWidth ++ " in "
    ++ time ++ " sec"

/-- The text of an entry, with four places of its seconds. -/
def Entry.text (entry : Entry) : String :=
  entry.textWith (Decimal.fixedText 4 entry.time)

/-- The text of a report, given how its entries are written. -/
def Report.textWith (entryText : Entry → String) (report : Report) : String :=
  "Planner: " ++ report.planner ++ "\n"
    ++ String.join (report.entries.map fun entry => entryText entry ++ "\n")
    ++ "-------------------\n"

/-- The text of a report. -/
def Report.text (report : Report) : String :=
  report.textWith Entry.text

variable {σ : Type}

/-- Plans one number of partitions; also gives the memory of the planner after it. -/
def entry (planner : Planner σ) (seconds : Nat → Float) (partitions : Nat) (memory : σ) :
    Except Failure Entry × σ :=
  match Workload.ofSize partitions with
  | .error error => (.error (.invalidSize error), memory)
  | .ok workload =>
    let (schedule, memory) := planner.plan workload memory
    match schedule.validate workload with
    | .error violation => (.error (.defective partitions violation), memory)
    | .ok () =>
      (.ok
        { partitions
          tasks := workload.size
          batches := schedule.size
          maxWidth := schedule.maxWidth
          time := seconds partitions },
        memory)

/-- Plans the given count of numbers of partitions, ascending from the first one, until one of them
fails. The numbers after a failure are never looked at, however many they are. -/
def entries (planner : Planner σ) (seconds : Nat → Float) :
    (count first : Nat) → σ → Except Failure (List Entry) × σ
  | 0, _, memory => (.ok [], memory)
  | count + 1, first, memory =>
    match entry planner seconds first memory with
    | (.error failure, memory) => (.error failure, memory)
    | (.ok entry, memory) =>
      let (others, memory) := entries planner seconds count (first + 1) memory
      (others.map (entry :: ·), memory)

/-- Plans every number of partitions from the first to the last one, in ascending order. -/
def run (planner : Planner σ) (seconds : Nat → Float) (first last : Nat) (memory : σ) :
    Except Failure Report × σ :=
  let (entries, memory) := entries planner seconds (last + 1 - first) first memory
  (entries.map (Report.mk planner.name), memory)

end AllPairs.Benchmark
