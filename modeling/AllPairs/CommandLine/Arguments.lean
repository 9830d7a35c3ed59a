/-!
Splitting the arguments of a command into options with their values and positional arguments.
Every option takes a value. After a letter the value may follow at once, after an equals sign or as
the next argument; after a long name it follows after an equals sign or as the next argument. Names
are never abbreviated. A value that is an argument of its own may not look like an option. After two
dashes everything is positional. A request for help ends the splitting: nothing after it counts, and
what stands before it is kept, so that it can be judged.
-/

namespace AllPairs.CommandLine

/-- An option by its letter and its long name. -/
structure OptionName where
  letter : Char
  name : List Char
deriving DecidableEq

/-- What one argument is by itself. -/
inductive Token where
  | positional
  /-- Everything after this argument is positional. -/
  | terminator
  /-- An option whose value is the next argument. -/
  | option (letter : Char)
  /-- An option together with its value. -/
  | assigned (letter : Char) (value : List Char)
  /-- A request for help. -/
  | help
  | unknown
deriving DecidableEq

/-- The arguments of a command after splitting. -/
structure Arguments where
  /-- The options in order, by their letters. -/
  options : List (Char × List Char)
  positionals : List (List Char)
  /-- Help is asked for after these arguments. -/
  help : Bool
deriving DecidableEq

/-- What a long option without its dashes is. -/
def longToken (known : List OptionName) (text : List Char) : Token :=
  let name := text.takeWhile (· ≠ '=')
  match known.find? (·.name == name), text.drop name.length with
  | some option, [] => .option option.letter
  | some option, _ :: value => .assigned option.letter value
  | none, _ => .unknown

/-- What an option letter and the text after it are. -/
def letterToken (known : List OptionName) (letter : Char) (text : List Char) : Token :=
  match known.find? (·.letter == letter), text with
  | some _, [] => .option letter
  | some _, '=' :: value => .assigned letter value
  | some _, value => .assigned letter value
  | none, _ => .unknown

/-- What an argument is. A lone dash is positional. -/
def Token.ofArgument (known : List OptionName) : List Char → Token
  | ['-', '-'] => .terminator
  | '-' :: 'h' :: _ | ['-', '-', 'h', 'e', 'l', 'p'] => .help
  | '-' :: '-' :: text => longToken known text
  | '-' :: letter :: text => letterToken known letter text
  | _ => .positional

/-- An argument that may be the value of the option before it. -/
def isValue : List Char → Bool
  | ['-'] => true
  | '-' :: _ => false
  | _ => true

/-- Splits arguments; none if an option is unknown or lacks its value. -/
def Arguments.split? (known : List OptionName) : List (List Char) → Option Arguments
  | [] => some ⟨[], [], false⟩
  | argument :: rest =>
    match Token.ofArgument known argument with
    | .positional =>
      (split? known rest).map fun split =>
        { split with positionals := argument :: split.positionals }
    | .terminator => some ⟨[], rest, false⟩
    | .help => some ⟨[], [], true⟩
    | .assigned letter value =>
      (split? known rest).map fun split => { split with options := (letter, value) :: split.options }
    | .option letter =>
      match rest with
      | value :: rest =>
        if isValue value then
          (split? known rest).map fun split =>
            { split with options := (letter, value) :: split.options }
        else none
      | [] => none
    | .unknown => none

namespace Arguments

variable (arguments : Arguments)

/-- The values of an option, in order. -/
def values (letter : Char) : List (List Char) :=
  (arguments.options.filter (·.1 == letter)).map Prod.snd

/-- The value of an option that may be given once, read by a function; none if it is given again or
cannot be read. -/
def once? {α : Type} (letter : Char) (absent : α) (read : List Char → Option α) : Option α :=
  match arguments.values letter with
  | [] => some absent
  | [value] => read value
  | _ => none

end Arguments
end AllPairs.CommandLine
