import QuintupleMachine.CommandLine.Outcome

/-! # The program

Reads what the command asks for, prints its outcome and exits with its status. -/

namespace QuintupleMachine.CommandLine

/-- Reads a stream to its end, after what was already read. -/
partial def readToEnd (stream : IO.FS.Stream) (done : ByteArray) : IO ByteArray := do
  let bytes ← stream.read 65536
  if bytes.isEmpty then return done
  readToEnd stream (done ++ bytes)

/-- The bytes of a file, or the reason why there are none. -/
def readFile (path : String) : IO (Except String ByteArray) := do
  try
    return .ok (← IO.FS.readBinFile path)
  catch e => return .error ((e.toString.splitOn "\n").headD "")

/-- Reads what a source needs. -/
def readInputs : Option Source → IO Inputs
  | some (.file path) => do
    let content ← readFile path
    return { Inputs.nothing with file := fun _ => content }
  | some .standardInput => do
    return { Inputs.nothing with standardInput := ← readToEnd (← IO.getStdin) .empty }
  | _ => return .nothing

end QuintupleMachine.CommandLine

open QuintupleMachine CommandLine

/-- Answers a call. -/
def main (arguments : List String) : IO UInt32 := do
  let source := (Command.ofArguments arguments).toOption.bind Command.source?
  let outcome := outcomeOf (← readInputs source) arguments
  IO.print outcome.stdout
  IO.eprint outcome.stderr
  return outcome.exit.toUInt32
