import QuintupleMachine.Number
import QuintupleMachine.Text.Quoted

/-! # Why a description is refused -/

namespace QuintupleMachine

/-- What the letters before a position were counting. -/
inductive Situation where
  | noField
  | openField
  | countingState
  | countingSymbol
deriving DecidableEq, Repr

/-- A situation in words. -/
def Situation.text : Situation → String
  | noField => "no field is open"
  | openField => "a field is open"
  | countingState => "counting a state number"
  | countingSymbol => "counting a symbol number"

/-- What canonical text must go on with. -/
inductive Expected where
  | table
  | recordOrEnd
  | stateNumber
  | number
  | symbol
  | direction
  | state
  | endOfText
deriving DecidableEq, Repr

/-- An expectation in words. -/
def Expected.text : Expected → String
  | table => "table"
  | recordOrEnd => "EOI or state"
  | stateNumber => "state_number"
  | number => "number"
  | symbol => "symbol"
  | direction => "direction"
  | state => "state"
  | endOfText => "EOI"

/-- Why a description or a canonical text is refused. -/
inductive DescriptionError where
  /-- A symbol is counted where no field is open. -/
  | orphanSymbol (position : Nat)
  /-- A state is counted where no field is open. -/
  | orphanState (position : Nat)
  /-- Any other character that cannot stand where it does. -/
  | unexpected (c : Char) (position : Nat) (situation : Situation)
  /-- Canonical text that no record can go on with; the offset counts bytes. -/
  | malformed (offset : Nat) (text : String) (expected : Expected)
  /-- A field of a record whose number is too large. -/
  | tooLarge (field : String)
deriving DecidableEq, Repr

/-- The message for a refused description. -/
def DescriptionError.message : DescriptionError → String
  | orphanSymbol position =>
    s!"orphan symbol token 'C' at position {position}: no field is open"
  | orphanState position =>
    s!"orphan state token 'A' at position {position}: no field is open"
  | unexpected c position situation =>
    s!"unhandled sequence: {Text.quotedChar c} at position {position} while {situation.text}"
  | malformed offset text expected =>
    s!"unhandled sequence: malformed quintuple at offset {offset} of {Text.quoted text}: " ++
      s!"expected {expected.text}"
  | tooLarge field =>
    s!"unhandled sequence: bad number in {Text.quoted field}: " ++
      "number too large to fit in target type"

end QuintupleMachine
