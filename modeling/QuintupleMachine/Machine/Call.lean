import QuintupleMachine.Machine.Run

/-! # Calls on a machine

What can be asked of a machine, one request after another.  Every call leaves a machine behind, of
which the next call is made; only an unbounded run may leave none, when it never ends. -/

namespace QuintupleMachine

/-- A request to a machine. -/
inductive Call where
  | look
  | step
  | runFor (budget : Nat)
  | run
  | reset
deriving DecidableEq, Repr

/-- What a call has to say. -/
inductive Reply where
  | nothing
  | stepped (step : Step)
  | stopped (stop : Stop)
deriving DecidableEq, Repr

namespace Machine

/-- Carries out a call: the reply to it and the machine after it. -/
def perform (m : Machine) : Call → Option (Reply × Machine)
  | .look => some (.nothing, m)
  | .step => some (m.step.map .stepped id)
  | .runFor budget => some ((m.runFor budget).map .stopped id)
  | .run => m.run.map fun result => (.stopped (.halted result.1), result.2)
  | .reset => some (.nothing, m.reset)

/-- Carries out calls in turn, keeping the reply to each and the machine after it. -/
def performAll (m : Machine) : List Call → Option (List (Reply × Machine))
  | [] => some []
  | call :: calls =>
    (m.perform call).bind fun result => (result.2.performAll calls).map (result :: ·)

end Machine

end QuintupleMachine
