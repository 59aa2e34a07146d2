import QuintupleMachine.Canonical.Basic
import QuintupleMachine.Description.Field

/-! # Tables from standard descriptions

A description is brought into canonical text, token by token, and the canonical text is read. -/

namespace QuintupleMachine.Description

/-- The canonical text of a description. -/
def canonical (letters : String) : Except DescriptionError String :=
  (tokensOf letters.toList).map fun tokens => String.ofList (canonicalOf tokens)

/-- Reads a description. -/
def read (letters : String) : Reading DescriptionError Table :=
  match canonical letters with
  | .error e => ⟨[], .error e⟩
  | .ok text => Canonical.read text

/-- The table that a description stands for. -/
def decode (letters : String) : Except DescriptionError Table := (read letters).result

end QuintupleMachine.Description
