import QuintupleMachine.Direction
import QuintupleMachine.Symbol

/-! # Quintuples

One rule of a machine.  The notation has no sign for "any symbol": a quintuple that reads the blank
fires on every cell. -/

namespace QuintupleMachine

/-- A rule: in `state`, on `read`, write `write`, move, and enter `next`. -/
structure Quintuple where
  state : Nat
  read : Symbol
  write : Symbol
  direction : Direction
  next : Nat
deriving DecidableEq, Repr

/-- Whether a rule fires on a symbol. -/
def Quintuple.accepts (rule : Quintuple) (symbol : Symbol) : Bool :=
  rule.read = .blank || rule.read = symbol

theorem Quintuple.accepts_iff {rule : Quintuple} {symbol : Symbol} :
    rule.accepts symbol = true ↔ rule.read = .blank ∨ rule.read = symbol := by
  simp [accepts]

end QuintupleMachine
