import QuintupleMachine.Description.Error
import QuintupleMachine.Diagnosis
import QuintupleMachine.Tape

/-! # Failures

What can go wrong between a request and its answer, with the message for it. -/

namespace QuintupleMachine

/-- Why there is no program, table or tape to go on with. -/
inductive Failure where
  | description (error : DescriptionError)
  | tape (error : InvalidSymbol)
  | table (problem : Problem)
  | noProgramAt (index : Nat)
  | noProgramNamed (name : String)
  | unreadableFile (path reason : String)
  | unreadableFolder (path reason : String)
  | missingFolder (path : String)
  | unreadableEntry (reason : String)
deriving DecidableEq, Repr

namespace Failure

/-- The message for a failure. -/
def message : Failure → String
  | description error => s!"Decode error: {error.message}"
  | tape error =>
    s!"Invalid tape symbol {Text.quotedChar error.symbol} at position {error.position}"
  | table problem => s!"Table validation error: {problem.message}"
  | noProgramAt index => s!"Table validation error: Program index {index} out of range"
  | noProgramNamed name => s!"Table validation error: Program '{name}' not found"
  | unreadableFile path reason => s!"File error: Failed to read file {path}: {reason}"
  | unreadableFolder path reason => s!"File error: Failed to read directory {path}: {reason}"
  | missingFolder path => s!"File error: Directory {path} does not exist"
  | unreadableEntry reason => s!"File error: Failed to read directory entry: {reason}"

end Failure

end QuintupleMachine
