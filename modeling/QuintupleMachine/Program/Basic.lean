import QuintupleMachine.Machine.Run

/-! # Programs -/

namespace QuintupleMachine

/-- A description with a name, the table it stands for and, possibly, a tape to run on. -/
structure Program where
  name : String
  description : String
  tape : Option String
  table : Table
deriving DecidableEq

/-- Runs a table on a written tape and writes down what is left; there is no result if the run
never ends. -/
def Table.runText (table : Table) (tape : String) : Except InvalidSymbol (Option String) :=
  (Tape.parse tape).map fun tape => (Machine.start table tape).run.map fun result => result.2.tape.text

end QuintupleMachine
