import QuintupleMachine.Number

/-! # Command line arguments

Options are long (`--tape 01`, `--tape=01`) or short (`-t 01`, `-t01`, `-t=01`), and short ones can
be put together (`-dv`).  A word that starts with a dash is never the value of the option before
it, the single dash apart, and after `--` every word is positional. -/

namespace QuintupleMachine.CommandLine

/-- Why arguments are refused. -/
inductive UsageError where
  | unknownOption (option : String)
  | missingValue (option : String)
  | unneededValue (option : String)
  | invalidValue (option value : String)
  | repeatedOption (option : String)
  | conflictingOptions (first second : String)
  | unexpectedArgument (argument : String)
  | missingArgument (name : String)
  | unknownCommand (name : String)
  | missingCommand
deriving DecidableEq, Repr

/-- The message for refused arguments. -/
def UsageError.message : UsageError → String
  | unknownOption option => s!"unexpected argument '{option}' found"
  | missingValue option => s!"a value is required for '{option}' but none was supplied"
  | unneededValue option => s!"unexpected value for '{option}'"
  | invalidValue option value => s!"invalid value '{value}' for '{option}'"
  | repeatedOption option => s!"the argument '{option}' cannot be used multiple times"
  | conflictingOptions first second =>
    s!"the argument '{first}' cannot be used with '{second}'"
  | unexpectedArgument argument => s!"unexpected argument '{argument}' found"
  | missingArgument name => s!"the argument '{name}' was not provided"
  | unknownCommand name => s!"unrecognized subcommand '{name}'"
  | missingCommand => "a subcommand is required but none was provided"

/-- Why arguments do not make up a command. -/
inductive Interruption where
  | help
  | version
  | usage (error : UsageError)
deriving DecidableEq, Repr

/-- What an option does. -/
inductive OptionKind where
  /-- Says yes, once at most. -/
  | flag
  /-- Says more, any number of times. -/
  | counter
  /-- Takes a value, once at most, that passes a test. -/
  | value (accepts : String → Bool)
  | help
  | version

/-- An option. -/
structure OptionSpec where
  name : String
  short : Option Char
  kind : OptionKind

/-- The option as it is written in full. -/
def OptionSpec.text (spec : OptionSpec) : String := "--" ++ spec.name

/-- The arguments read so far: values by option name, the last one first, and positional
arguments. -/
structure Given where
  options : List (String × String)
  positionals : List String
deriving DecidableEq, Repr

namespace Given

/-- No arguments. -/
def none : Given := ⟨[], []⟩

/-- Whether an option was given. -/
def has (given : Given) (name : String) : Bool := given.options.any fun option => option.1 = name

/-- The value of an option. -/
def value? (given : Given) (name : String) : Option String :=
  (given.options.find? fun option => option.1 = name).map Prod.snd

/-- Adds an option without a value. -/
def addFlag (given : Given) (spec : OptionSpec) : Except Interruption Given :=
  match spec.kind with
  | .help => .error .help
  | .version => .error .version
  | .value _ => .error (.usage (.missingValue spec.text))
  | .counter => .ok { given with options := (spec.name, "") :: given.options }
  | .flag =>
    if given.has spec.name then .error (.usage (.repeatedOption spec.text))
    else .ok { given with options := (spec.name, "") :: given.options }

/-- Adds an option with its value. -/
def addValue (given : Given) (spec : OptionSpec) (value : String) : Except Interruption Given :=
  match spec.kind with
  | .value accepts =>
    if given.has spec.name then .error (.usage (.repeatedOption spec.text))
    else if accepts value then
      .ok { given with options := (spec.name, value) :: given.options }
    else .error (.usage (.invalidValue spec.text value))
  | _ => .error (.usage (.unneededValue spec.text))

end Given

/-- Whether an option takes a value. -/
def OptionSpec.takesValue (spec : OptionSpec) : Bool :=
  match spec.kind with
  | .value _ => true
  | _ => false

/-- What kind of word an argument is. -/
inductive Word where
  | escape
  | long (name : List Char) (value : Option (List Char))
  | short (letters : List Char)
  | plain
deriving DecidableEq, Repr

/-- The kind of an argument; a single dash is a plain word. -/
def Word.ofArgument (argument : String) : Word :=
  match argument.toList with
  | ['-', '-'] => escape
  | '-' :: '-' :: rest =>
    match rest.dropWhile (· ≠ '=') with
    | _ :: value => long (rest.takeWhile (· ≠ '=')) (some value)
    | [] => long rest none
  | ['-'] => plain
  | '-' :: letters => short letters
  | _ => plain

/-- Reads short options put together; the last one may still wait for its value. -/
def readShort (specs : List OptionSpec) (given : Given) :
    List Char → Except Interruption (Given × Option OptionSpec)
  | [] => .ok (given, none)
  | c :: cs =>
    match specs.find? fun spec => spec.short = some c with
    | none => .error (.usage (.unknownOption (String.ofList ['-', c])))
    | some spec =>
      if spec.takesValue then
        match cs with
        | [] => .ok (given, some spec)
        | '=' :: value => (given.addValue spec (String.ofList value)).map (·, none)
        | value => (given.addValue spec (String.ofList value)).map (·, none)
      else
        match given.addFlag spec with
        | .ok given => readShort specs given cs
        | .error e => .error e

/-- Reads a long option, which may still wait for its value. -/
def readLong (specs : List OptionSpec) (given : Given) (name : List Char)
    (value : Option (List Char)) : Except Interruption (Given × Option OptionSpec) :=
  match specs.find? fun spec => spec.name = String.ofList name with
  | none => .error (.usage (.unknownOption ("--" ++ String.ofList name)))
  | some spec =>
    match value with
    | some value => (given.addValue spec (String.ofList value)).map (·, none)
    | none =>
      if spec.takesValue then .ok (given, some spec)
      else (given.addFlag spec).map (·, none)

/-- Adds positional arguments, of which there is room for some. -/
def addPositionals (room : Nat) (given : Given) : List String → Except Interruption Given
  | [] => .ok given
  | argument :: rest =>
    if given.positionals.length < room then
      addPositionals room { given with positionals := given.positionals ++ [argument] } rest
    else .error (.usage (.unexpectedArgument argument))

/-- Reads arguments, while an option may wait for its value. -/
def readArguments (specs : List OptionSpec) (room : Nat) (waiting : Option OptionSpec)
    (given : Given) : List String → Except Interruption Given
  | [] =>
    match waiting with
    | some spec => .error (.usage (.missingValue spec.text))
    | none => .ok given
  | argument :: rest =>
    match Word.ofArgument argument, waiting with
    | .plain, some spec =>
      match given.addValue spec argument with
      | .ok given => readArguments specs room none given rest
      | .error e => .error e
    | .plain, none =>
      match addPositionals room given [argument] with
      | .ok given => readArguments specs room none given rest
      | .error e => .error e
    | _, some spec => .error (.usage (.missingValue spec.text))
    | .escape, none => addPositionals room given rest
    | .long name value, none =>
      match readLong specs given name value with
      | .ok (given, waiting) => readArguments specs room waiting given rest
      | .error e => .error e
    | .short letters, none =>
      match readShort specs given letters with
      | .ok (given, waiting) => readArguments specs room waiting given rest
      | .error e => .error e

section

variable {specs : List OptionSpec} {room : Nat} {given : Given} {argument : String}
  (rest : List String)

theorem readArguments_of_long {name : List Char} {value : Option (List Char)}
    (h : Word.ofArgument argument = .long name value) :
    readArguments specs room none given (argument :: rest) =
      match readLong specs given name value with
      | .ok (given, waiting) => readArguments specs room waiting given rest
      | .error e => .error e := by
  rw [readArguments.eq_def]
  dsimp only
  rw [h]

/-- A plain word is the value of an option that waits for it. -/
theorem readArguments_of_waiting {spec : OptionSpec} (h : Word.ofArgument argument = .plain) :
    readArguments specs room (some spec) given (argument :: rest) =
      match given.addValue spec argument with
      | .ok given => readArguments specs room none given rest
      | .error e => .error e := by
  rw [readArguments.eq_def]
  dsimp only
  rw [h]

/-- Elsewhere a plain word is positional. -/
theorem readArguments_of_plain (h : Word.ofArgument argument = .plain) :
    readArguments specs room none given (argument :: rest) =
      match addPositionals room given [argument] with
      | .ok given => readArguments specs room none given rest
      | .error e => .error e := by
  rw [readArguments.eq_def]
  dsimp only
  rw [h]

end

end QuintupleMachine.CommandLine
