import QuintupleMachine.CommandLine.Arguments
import QuintupleMachine.Spelling

/-! # Commands

`run` runs a description on a tape, `decode` prints its table, `convert` shows a text in all
three spellings, `list` lists the catalogue.  `run` and `decode` take a description from the
arguments or standard input, a file, or the catalogue, but from one of them only. -/

namespace QuintupleMachine.CommandLine

/-- Where a description comes from. -/
inductive Source where
  | program (name : String)
  | file (path : String)
  | standardInput
  | text (description : String)
  | absent
deriving DecidableEq, Repr

/-- Which tape to run on. -/
inductive TapeChoice where
  | written (text : String)
  | blank (length : Nat)
  | ofProgram
deriving DecidableEq, Repr

/-- What to do. -/
inductive Command where
  | run (source : Source) (tape : TapeChoice) (limit : Option Nat) (traced json : Bool)
  | decode (source : Source) (canonical json : Bool)
  | convert (spelling : Spelling) (text : String)
  | list
deriving DecidableEq, Repr

namespace Command

/-- A flag. -/
def flag (name : String) (short : Option Char) : OptionSpec := ⟨name, short, .flag⟩

/-- An option with any value. -/
def option (name : String) (short : Option Char) : OptionSpec := ⟨name, short, .value fun _ => true⟩

/-- An option with a number for its value. -/
def numberOption (name : String) (short : Option Char) : OptionSpec :=
  ⟨name, short, .value fun value => (Number.parse? value).isSome⟩

/-- The spelling with a name. -/
def spelling? (name : String) : Option Spelling :=
  if name = "number" then some .number
  else if name = "letters" then some .letters
  else if name = "base7" then some .base7
  else none

/-- Options that every command has. -/
def commonOptions : List OptionSpec :=
  [⟨"verbose", some 'v', .counter⟩, ⟨"help", some 'h', .help⟩]

/-- Options that may stand before the command. -/
def leadingOptions : List OptionSpec := ⟨"version", some 'V', .version⟩ :: commonOptions

/-- Options that say where a description comes from; a path is not empty. -/
def sourceOptions : List OptionSpec :=
  [⟨"file", some 'f', .value fun value => value ≠ ""⟩, option "program" (some 'p')]

/-- Options of `run`. -/
def runOptions : List OptionSpec :=
  [option "tape" (some 't'), numberOption "blanks" (some 'b'), numberOption "max-steps" none,
    flag "debug" (some 'd'), flag "json" none] ++ sourceOptions ++ commonOptions

/-- Options of `decode`. -/
def decodeOptions : List OptionSpec :=
  [flag "canonical" none, flag "json" none] ++ sourceOptions ++ commonOptions

/-- Options of `convert`. -/
def convertOptions : List OptionSpec :=
  ⟨"from", none, .value fun value => (spelling? value).isSome⟩ :: commonOptions

/-- The source that arguments name, if they do not name two. -/
def sourceOf (given : Given) : Except UsageError Source :=
  match given.value? "program", given.value? "file", given.positionals with
  | some _, some _, _ => .error (.conflictingOptions "--program" "--file")
  | some _, none, _ :: _ => .error (.conflictingOptions "--program" "[DESCRIPTION]")
  | none, some _, _ :: _ => .error (.conflictingOptions "--file" "[DESCRIPTION]")
  | some name, none, [] => .ok (.program name)
  | none, some path, [] => .ok (.file path)
  | none, none, [] => .ok .absent
  | none, none, text :: _ => .ok (if text = "-" then .standardInput else .text text)

/-- The tape that arguments name, if they do not name two. -/
def tapeOf (given : Given) : Except UsageError TapeChoice :=
  match given.value? "tape", (given.value? "blanks").bind Number.parse? with
  | some _, some _ => .error (.conflictingOptions "--tape" "--blanks")
  | some text, none => .ok (.written text)
  | none, some length => .ok (.blank length)
  | none, none => .ok .ofProgram

/-- The `run` command with some arguments. -/
def ofRunArguments (given : Given) : Except UsageError Command := do
  let source ← sourceOf given
  let tape ← tapeOf given
  return run source tape ((given.value? "max-steps").bind Number.parse?) (given.has "debug")
    (given.has "json")

/-- The `decode` command with some arguments. -/
def ofDecodeArguments (given : Given) : Except UsageError Command := do
  let source ← sourceOf given
  return decode source (given.has "canonical") (given.has "json")

/-- The `convert` command with some arguments. -/
def ofConvertArguments (given : Given) : Except UsageError Command :=
  match given.positionals with
  | [] => .error (.missingArgument "<TEXT>")
  | text :: _ =>
    .ok (convert (((given.value? "from").bind spelling?).getD .number) text)

/-- The commands by name: their options, the room for positional arguments, and what the arguments
amount to. -/
def byName? (name : String) :
    Option (List OptionSpec × Nat × (Given → Except UsageError Command)) :=
  if name = "run" then some (runOptions, 1, ofRunArguments)
  else if name = "decode" then some (decodeOptions, 1, ofDecodeArguments)
  else if name = "convert" then some (convertOptions, 1, ofConvertArguments)
  else if name = "list" then some (commonOptions, 0, fun _ => .ok list)
  else none

/-- What a request for help asks for. -/
def ofHelpArguments : List String → Interruption
  | [] => .help
  | [name] =>
    if name = "help" ∨ (byName? name).isSome then .help else .usage (.unknownCommand name)
  | _ :: name :: _ => .usage (.unknownCommand name)

/-- The command that arguments make up. -/
def ofArguments : List String → Except Interruption Command
  | [] => .error (.usage .missingCommand)
  | argument :: rest =>
    match Word.ofArgument argument with
    | .escape => .error (.usage .missingCommand)
    | .long name value =>
      match readLong leadingOptions .none name value with
      | .ok _ => ofArguments rest
      | .error e => .error e
    | .short letters =>
      match readShort leadingOptions .none letters with
      | .ok _ => ofArguments rest
      | .error e => .error e
    | .plain =>
      if argument = "help" then .error (ofHelpArguments rest)
      else
        match byName? argument with
        | none => .error (.usage (.unknownCommand argument))
        | some (options, room, ofGiven) =>
          match readArguments options room none .none rest with
          | .error e => .error e
          | .ok given => (ofGiven given).mapError .usage

/-- A name of a command is followed by its own arguments. -/
theorem ofArguments_of_byName? {name : String} {options : List OptionSpec} {room : Nat}
    {ofGiven : Given → Except UsageError Command} (hword : Word.ofArgument name = .plain)
    (hhelp : name ≠ "help") (hname : byName? name = some (options, room, ofGiven))
    (arguments : List String) :
    ofArguments (name :: arguments) =
      match readArguments options room none .none arguments with
      | .error e => .error e
      | .ok given => (ofGiven given).mapError .usage := by
  rw [ofArguments, hword]
  dsimp only
  rw [if_neg hhelp, hname]

/-- The source of the description, if the command needs one. -/
def source? : Command → Option Source
  | run source _ _ _ _ => some source
  | decode source _ _ => some source
  | _ => none

end Command

end QuintupleMachine.CommandLine
