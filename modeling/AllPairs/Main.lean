import AllPairs.CommandLine.Run

/-!
The program: looks at the files and clocks that a command asks for, and prints its outcome.
-/

namespace AllPairs.CommandLine

/-- What a failure to read a file means. -/
def FileFault.ofError : IO.Error → FileFault
  | .noFileOrDirectory .. => .missing
  | .permissionDenied .. => .denied
  | .inappropriateType _ 21 _ => .isDirectory
  | .inappropriateType .. => .notDirectory
  | .invalidArgument _ 36 _ => .nameTooLong
  | error => .other (toString error)

/-- The content of a file, or why it cannot be read. -/
def readFile (name : String) : IO (Except FileFault Json.Octets) := do
  try
    let content ← IO.FS.readBinFile name
    return .ok content.data.toList
  catch error => return .error (.ofError error)

/-- How long planning takes, in seconds. -/
def measure (config : PlanConfig) (algorithm : Algorithm) (partitions : Nat) : IO Float := do
  let begin ← IO.monoNanosNow
  if ((algorithm.planner config).schedule partitions ()).toBool then
    let finish ← IO.monoNanosNow
    return (finish - begin).toFloat / 1e9
  else return 0

/-- The times that a benchmark asks for. -/
def measureAll (limit : Nat) (config : PlanConfig) : IO (List ((Algorithm × Nat) × Float)) := do
  let mut times := []
  for algorithm in Algorithm.all do
    for partitions in List.range' 1 limit do
      times := ((algorithm, partitions), ← measure config algorithm partitions) :: times
  return times

/-- What the command of the given arguments can see. -/
def surroundings (arguments : List String) : IO Surroundings := do
  let content ←
    match Command.ofArguments? arguments with
    | some (.check _ file) => readFile file
    | _ => pure (.error .missing)
  let times ←
    match Command.ofArguments? arguments with
    | some (.bench limit _ config) => measureAll limit config
    | _ => pure []
  return {
    file := fun _ => content
    entryText := Benchmark.Entry.text
    seconds := fun algorithm partitions => (times.lookup (algorithm, partitions)).getD 0 }

end AllPairs.CommandLine

def main (arguments : List String) : IO UInt32 := do
  let surroundings ← AllPairs.CommandLine.surroundings arguments
  let outcome := AllPairs.CommandLine.run surroundings arguments
  IO.print outcome.output
  unless outcome.errors.isEmpty do
    IO.eprintln outcome.errors
  return outcome.exit.toUInt32
