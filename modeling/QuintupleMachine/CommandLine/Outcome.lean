import QuintupleMachine.CommandLine.Command
import QuintupleMachine.Encoding
import QuintupleMachine.Json.Form
import QuintupleMachine.Program.Catalogue

/-! # Outcomes of commands

What a command prints and how it exits, given what it can read.  Results go to standard output;
traces, warnings and errors go to standard error.  Log records, which carry the time of day and
depend on the log filter, are left out. -/

namespace QuintupleMachine

/-- A halt by name. -/
def Halt.text : Halt → String
  | offTape => "OffTape"
  | undefinedState state => s!"UndefinedState({state})"

/-- A halt in JSON. -/
def Halt.toJson : Halt → Json
  | offTape => .string "OffTape"
  | undefinedState state => .object [("UndefinedState", .number state)]

/-- The end of a bounded run in JSON. -/
def Stop.toJson : Stop → Json
  | halted halt => halt.toJson
  | stepLimit budget => .object [("StepLimit", .number budget)]

namespace CommandLine

/-- What a command can read. -/
structure Inputs where
  /-- The bytes of a file, or the reason why there are none. -/
  file : String → Except String ByteArray
  standardInput : ByteArray

/-- Nothing to read. -/
def Inputs.nothing : Inputs := ⟨fun _ => .error "not found", .empty⟩

/-- How a command ends. -/
structure Outcome where
  exit : Nat
  stdout : String
  stderr : String
deriving DecidableEq, Repr

/-- Why a command has no result. -/
inductive CommandError where
  | failure (cause : Failure)
  | noDescription
  | noTape
  | unreadableInput
  /-- A run without a limit never comes to an end.  Such a call does not return and prints no
  result; this error and its message stand in the place of an outcome that it does not have. -/
  | neverHalts
deriving DecidableEq, Repr

/-- The message for a failed command. -/
def CommandError.message : CommandError → String
  | failure cause => cause.message
  | noDescription => "no description given; pass one, or use --file or --program"
  | noTape => "no tape given; use --tape or --blanks"
  | unreadableInput => "Failed to read from stdin: stream did not contain valid UTF-8"
  | neverHalts => "the machine never halts; use --max-steps"

/-- The program that a source stands for. -/
def Source.load (inputs : Inputs) : Source → Except CommandError Program
  | program name => (Program.Catalogue.byName name).mapError .failure
  | file path => (Program.load path (inputs.file path)).result.mapError .failure
  | text description => (Program.read "command line" description).result.mapError .failure
  | standardInput =>
    match String.fromUTF8? inputs.standardInput with
    | some content => (Program.read "stdin" content).result.mapError .failure
    | none => .error .unreadableInput
  | absent => .error .noDescription

/-- The tape to run a program on. -/
def TapeChoice.tape (program : Program) : TapeChoice → Except CommandError Tape
  | written text => (Tape.parse text).mapError fun e => .failure (.tape e)
  | blank length => .ok (.blank length)
  | ofProgram =>
    match program.tape with
    | some text => (Tape.parse text).mapError fun e => .failure (.tape e)
    | none => .error .noTape

/-- A configuration in one line; there is a dash for a head that has moved off to the left. -/
def configurationText (m : Machine) : String :=
  let head := (m.head.map Number.text).getD "-"
  s!"Step: {m.steps}, State: {m.state}, Head: {head}, Tape: {m.tape.text}\n"

/-- A trace: a line for each configuration, and the reason of the halt after them. -/
def traceText (trace : Machine.Trace) : String :=
  String.join (trace.passed.map configurationText) ++
    match trace.stop with
    | .halted halt => s!"\nMachine halted: {halt.text}\n"
    | .stepLimit _ => ""

/-- Runs a machine: how it ended, where it stands, and the text of the trace if there is to be
one. -/
def runMachine (limit : Option Nat) (traced : Bool) (m : Machine) :
    Option (Stop × Machine × String) :=
  match limit, traced with
  | some n, false => let (stop, last) := m.runFor n; some (stop, last, "")
  | none, false => m.run.map fun (halt, last) => (.halted halt, last, "")
  | some n, true => let trace := m.traceTo n; some (trace.stop, trace.last, traceText trace)
  | none, true => m.trace.map fun trace => (trace.stop, trace.last, traceText trace)

/-- The report on a run in JSON. -/
def reportOf (program : Program) (stop : Stop) (last : Machine) : Json :=
  .object [("name", .string program.name), ("tape", .string last.tape.text),
    ("halt", stop.toJson), ("steps", .number last.steps), ("state", .number last.state),
    ("head", (last.head.map Json.number).getD .null)]

/-- What is told about a run that was stopped. -/
def stopText : Stop → String
  | .halted _ => ""
  | .stepLimit budget => s!"Stopped after {budget} steps without halting.\n"

/-- A rule in one line. -/
def ruleText (rule : Quintuple) : String :=
  s!"q{rule.state}: {rule.read.char} -> {rule.write.char}, {rule.direction.letter}, q{rule.next}\n"

/-- A program of the catalogue in one line. -/
def catalogueText (index : Nat) (program : Program) : String :=
  let number := Number.text index
  let number := String.ofList (List.replicate (2 - number.length) ' ') ++ number
  let name := program.name ++ String.ofList (List.replicate (16 - program.name.length) ' ')
  s!"{number}  {name} {program.table.size} state(s)  {program.description}\n"

namespace Command

/-- What a command prints on standard output and standard error.  A run also logs the problems of
its table as warnings before it starts; like all log records they are not part of the output.  A run
without a limit that never halts is answered by `neverHalts`, in place of no answer at all. -/
def output (inputs : Inputs) : Command → Except CommandError (String × String)
  | run source choice limit traced json => do
    let program ← source.load inputs
    let tape ← choice.tape program
    match runMachine limit traced (Machine.start program.table tape) with
    | none => throw .neverHalts
    | some (stop, last, trace) =>
      if json then return ((reportOf program stop last).indented ++ "\n", trace)
      else return (last.tape.text ++ "\n", trace ++ stopText stop)
  | decode source canonical json => do
    let program ← source.load inputs
    let table := program.table
    let warnings := table.problems.map fun problem => s!"warning: {problem.text}\n"
    let text :=
      if json then table.toJson.indented ++ "\n"
      else if canonical then table.canonical ++ "\n"
      else String.join (table.quintuples.map ruleText)
    return (text, String.join warnings)
  | convert spelling text =>
    let number := spelling.toNumber text
    return (s!"number:  {number}\nletters: {Spelling.numberToLetters number}\n" ++
      s!"base7:   {Spelling.numberToBase7 number}\n", "")
  | list =>
    return (String.join ((Program.Catalogue.programs.zipIdx).map fun entry =>
      catalogueText entry.2 entry.1), "")

/-- How a command ends. -/
def outcome (inputs : Inputs) (command : Command) : Outcome :=
  match command.output inputs with
  | .ok (stdout, stderr) => ⟨0, stdout, stderr⟩
  | .error e => ⟨1, "", s!"Error: {e.message}\n"⟩

end Command

/-- How to call the program. -/
def synopsis : String :=
  "Usage: quintuple-machine [-v] <COMMAND>\n\n" ++
  "  run [DESCRIPTION | -f FILE | -p PROGRAM] [-t TAPE | -b BLANKS]\n" ++
  "      [--max-steps N] [-d] [--json]\n" ++
  "  decode [DESCRIPTION | -f FILE | -p PROGRAM] [--canonical] [--json]\n" ++
  "  convert [--from number|letters|base7] TEXT\n" ++
  "  list\n"

/-- How arguments that make up no command are answered. -/
def Interruption.outcome : Interruption → Outcome
  | help => ⟨0, synopsis, ""⟩
  | version => ⟨0, "quintuple-machine 0.0.1\n", ""⟩
  | usage error => ⟨2, "", s!"error: {error.message}\n\n{synopsis}"⟩

/-- How a call with some arguments ends. -/
def outcomeOf (inputs : Inputs) (arguments : List String) : Outcome :=
  match Command.ofArguments arguments with
  | .ok command => command.outcome inputs
  | .error interruption => interruption.outcome

end CommandLine

end QuintupleMachine
