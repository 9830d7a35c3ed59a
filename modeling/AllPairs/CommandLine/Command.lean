import AllPairs.CommandLine.Arguments
import AllPairs.Planning.Algorithm

/-!
The commands of the program and how they are written. Names of commands, options and values have to
be given exactly; a number may have a plus sign and zeros in front and has to fit into 64 bits.
Arguments are judged from the left: help is given if nothing before the request for it is wrong,
even if something is missing, and whatever follows the request.
-/

namespace AllPairs.CommandLine

/-- How a schedule is printed. -/
inductive Format where
  | text
  | json
deriving DecidableEq

/-- What the program is asked to do. -/
inductive Command where
  | version
  | help
  /-- Prints the schedule of a number of partitions. -/
  | plan (partitions : Nat) (algorithm : Algorithm) (config : PlanConfig) (format : Format)
  /-- Checks the schedule in a file. -/
  | check (partitions : Nat) (file : String)
  /-- Compares the algorithms on every number of partitions up to a limit. -/
  | bench (limit : Nat) (excluded : List Algorithm) (config : PlanConfig)
  /-- Performs a schedule on a pool of workers, which also limit the width, with a comparison that
  does nothing. -/
  | run (partitions : Nat) (algorithm : Algorithm) (workers : Nat) (pos : 0 < workers)

/-- The value of a text of decimal digits, of which there is at least one. -/
def digitsValue? (digits : List Char) : Option Nat :=
  if digits.isEmpty || !digits.all Char.isDigit then none
  else some (digits.foldl (fun value digit => 10 * value + (digit.toNat - '0'.toNat)) 0)

/-- A number of 64 bits. -/
def number? (text : List Char) : Option Nat :=
  let digits :=
    match text with
    | '+' :: digits => digits
    | digits => digits
  match digitsValue? digits with
  | some value => if value < wordSize then some value else none
  | none => none

/-- A number of 64 bits that is not zero. -/
def positive? (text : List Char) : Option { n : Nat // 0 < n } :=
  match number? text with
  | some value => if pos : 0 < value then some ⟨value, pos⟩ else none
  | none => none

/-- The name of an algorithm. -/
def algorithm? (text : List Char) : Option Algorithm :=
  Algorithm.ofName? (String.ofList text)

/-- The name of a format. -/
def format? (text : List Char) : Option Format :=
  if text = "text".toList then some .text
  else if text = "json".toList then some .json
  else none

/-- The names of algorithms, parted by commas. -/
def algorithms? (text : List Char) : Option (List Algorithm) :=
  (text.splitOn ',').mapM algorithm?

/-- The limit of the width of batches. -/
def config? (text : List Char) : Option PlanConfig :=
  (positive? text).map fun limit => ⟨.atMost limit.1 limit.2⟩

namespace OptionName

def algorithm : OptionName := ⟨'a', "algorithm".toList⟩

def maxWidth : OptionName := ⟨'w', "max-width".toList⟩

def format : OptionName := ⟨'f', "format".toList⟩

def exclude : OptionName := ⟨'e', "exclude".toList⟩

def workers : OptionName := ⟨'j', "workers".toList⟩

end OptionName

namespace Command

/-- The command that the only positional argument makes. A request for help is met if at most this
argument stands before it and can be read. -/
def single? {α : Type} (split : Arguments) (read : List Char → Option α) (make : α → Command) :
    Option Command := do
  match ← split.positionals.mapM read, split.help with
  | [value], false => return make value
  | [], true | [_], true => return help
  | _, _ => none

/-- The command that prints a schedule. -/
def plan? (split : Arguments) : Option Command := do
  let algorithm ← split.once? 'a' Algorithm.greedy algorithm?
  let config ← split.once? 'w' {} config?
  let format ← split.once? 'f' Format.text format?
  single? split number? fun partitions => plan partitions algorithm config format

/-- The command that checks a file. -/
def check? (split : Arguments) : Option Command := do
  match split.positionals, split.help with
  | [partitions, file], false => return check (← number? partitions) (String.ofList file)
  | [], true => return help
  | [partitions], true | [partitions, _], true => (number? partitions).map fun _ => help
  | _, _ => none

/-- The command that compares the algorithms. -/
def bench? (split : Arguments) : Option Command := do
  let excluded ← (split.values 'e').mapM algorithms?
  let config ← split.once? 'w' {} config?
  single? split positive? fun limit => bench limit.1 excluded.flatten config

/-- The command that performs a schedule. -/
def run? (split : Arguments) : Option Command := do
  let algorithm ← split.once? 'a' Algorithm.greedy algorithm?
  let ⟨workers, pos⟩ ← split.once? 'j' ⟨4, by decide⟩ positive?
  single? split number? fun partitions => run partitions algorithm workers pos

/-- The options of the command with the given name, and how the command is read. -/
def reader? (name : String) : Option (List OptionName × (Arguments → Option Command)) :=
  if name = "plan" then some ([.algorithm, .maxWidth, .format], plan?)
  else if name = "check" then some ([], check?)
  else if name = "bench" then some ([.exclude, .maxWidth], bench?)
  else if name = "run" then some ([.algorithm, .workers], run?)
  else none

/-- Help on everything, on one command, or on help itself; none for any other topic. -/
def helpOn? : List String → Option Command
  | [] => some help
  | [topic] => if topic = "help" ∨ (reader? topic).isSome then some help else none
  | _ => none

/-- The command that the arguments of the program ask for; none if they are not as they should
be. -/
def ofArguments? : List String → Option Command
  | [] => none
  | name :: arguments =>
    if name = "--version" ∨ name.toList.take 2 = ['-', 'V'] then some version
    else if name = "--help" ∨ name.toList.take 2 = ['-', 'h'] then some help
    else if name = "help" then helpOn? arguments
    else do
      let (options, read) ← reader? name
      let split ← Arguments.split? options (arguments.map String.toList)
      read split

end Command
end AllPairs.CommandLine
