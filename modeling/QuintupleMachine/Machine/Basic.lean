import QuintupleMachine.Compiled

/-! # Machines

A machine is a compiled table with the configuration of a run: tape, state, head and the number of
firings so far.  It is halted when the head is off the tape or the table has no state under the
number that it is in, in this order; otherwise this state fires. -/

namespace QuintupleMachine

/-- Why a machine cannot fire. -/
inductive Halt where
  | offTape
  | undefinedState (state : Nat)
deriving DecidableEq, Repr

/-- What a single step did. -/
inductive Step where
  | fired
  | halted (halt : Halt)
deriving DecidableEq, Repr

/-- How a bounded run ended: for good, or because its budget was used up. -/
inductive Stop where
  | halted (halt : Halt)
  | stepLimit (budget : Nat)
deriving DecidableEq, Repr

/-- A compiled table at some point of a run. -/
structure Machine where
  table : CompiledTable
  /-- The tape that the run started on. -/
  initial : Tape
  tape : Tape
  state : Nat
  /-- Absent once the head has moved off to the left. -/
  head : Option Nat
  /-- The number of firings so far. -/
  steps : Nat
deriving DecidableEq

namespace Machine

/-- A machine about to run on a tape: in the entry state, with the head on the first cell. -/
def new (table : CompiledTable) (tape : Tape) : Machine :=
  ⟨table, tape, tape, entryState, some 0, 0⟩

/-- A machine about to run a table, which is compiled for it. -/
def start (table : Table) (tape : Tape) : Machine := new (.compile table) tape

/-- Back to the start of the run. -/
def reset (m : Machine) : Machine := new m.table m.initial

/-- Why the machine cannot fire, if it cannot. -/
def halt? (m : Machine) : Option Halt :=
  match m.head with
  | none => some .offTape
  | some head =>
    if head < m.tape.length then
      if (m.table.state? m.state).isSome then none else some (.undefinedState m.state)
    else some .offTape

/-- Whether the machine cannot fire. -/
def isHalted (m : Machine) : Bool := m.halt?.isSome

/-- What firing the current state leaves behind. -/
def firing? (m : Machine) : Option Firing :=
  m.head.bind fun head => (m.table.state? m.state).bind fun state => state.fire m.tape head

/-- The machine after a firing. -/
def after (m : Machine) (firing : Firing) : Machine :=
  { m with tape := firing.tape, state := firing.next, head := firing.head, steps := m.steps + 1 }

/-- The machine after its current state has fired; a machine that cannot fire stays as it is. -/
def fire (m : Machine) : Machine :=
  match m.firing? with
  | some firing => m.after firing
  | none => m

/-- Fires once, if the machine is not halted. -/
def step (m : Machine) : Step × Machine :=
  match m.halt? with
  | some halt => (.halted halt, m)
  | none => (.fired, m.fire)

/-- The machine after at most `n` firings. -/
def advance : Nat → Machine → Machine
  | 0, m => m
  | n + 1, m => if m.isHalted then m else advance n m.fire

/-- Runs for at most `n` firings.  A machine that halts on its last firing has halted. -/
def runFor (n : Nat) (m : Machine) : Stop × Machine :=
  let last := m.advance n
  match last.halt? with
  | some halt => (.halted halt, last)
  | none => (.stepLimit n, last)

/-- A machine can fire exactly when nothing halts it. -/
theorem firing?_eq_none {m : Machine} : m.firing? = none ↔ m.isHalted = true := by
  unfold firing? isHalted halt?
  cases m.head with
  | none => simp
  | some head =>
    cases hstate : m.table.state? m.state with
    | none =>
      simp only [Option.bind_some, Option.bind_none, true_iff]
      split <;> simp
    | some state =>
      simp only [Option.bind_some, CompiledState.fire, Quintuple.fire_eq_none]
      split <;> simp <;> omega

theorem isHalted_eq_false {m : Machine} :
    m.isHalted = false ↔ ∃ firing, m.firing? = some firing := by
  rw [← Bool.not_eq_true, ← firing?_eq_none, ← ne_eq, Option.ne_none_iff_exists']

@[simp] theorem table_fire (m : Machine) : m.fire.table = m.table := by
  unfold fire; split <;> rfl

@[simp] theorem initial_fire (m : Machine) : m.fire.initial = m.initial := by
  unfold fire; split <;> rfl

@[simp] theorem length_fire (m : Machine) : m.fire.tape.length = m.tape.length := by
  unfold fire
  split
  · next firing h =>
    obtain ⟨head, -, h⟩ := Option.bind_eq_some_iff.1 h
    obtain ⟨state, -, h⟩ := Option.bind_eq_some_iff.1 h
    exact Quintuple.length_of_fire h
  · rfl

end Machine

end QuintupleMachine
