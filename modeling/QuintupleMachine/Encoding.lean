import QuintupleMachine.Spelling
import QuintupleMachine.Table
import QuintupleMachine.Token

/-! # Writing tables

A table is written as the tokens of its quintuples, by ascending state: in letters, in canonical
text, or as a machine number. -/

namespace QuintupleMachine

/-- The tokens of a rule. -/
def Quintuple.tokens (rule : Quintuple) : List Token :=
  [.state rule.state, .symbol rule.read.number, .symbol rule.write.number, .move rule.direction,
    .state rule.next, .close]

namespace Table

/-- The tokens of a table. -/
def tokens (table : Table) : List Token := table.quintuples.flatMap Quintuple.tokens

/-- The standard description of a table. -/
def description (table : Table) : String := String.ofList (lettersOf table.tokens)

/-- The canonical text of a table. -/
def canonical (table : Table) : String := String.ofList (canonicalOf table.tokens)

/-- The machine number of a table. -/
def machineNumber (table : Table) : String := Spelling.lettersToNumber table.description

end Table

end QuintupleMachine
