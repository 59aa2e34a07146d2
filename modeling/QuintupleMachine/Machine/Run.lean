import QuintupleMachine.Machine.Basic

/-! # Unbounded and traced runs

A machine that can fire is in one of finitely many configurations: a defined state, a cell under
the head and one of three symbols in each cell.  So a run that outlasts `haltingBound` firings
repeats itself for ever, and whether a machine halts is decided by running it that far. -/

namespace QuintupleMachine.Machine

/-- The number of configurations of a machine on its tape from which it can fire. -/
def haltingBound (m : Machine) : Nat :=
  m.table.size * m.tape.length * Nat.pow 3 m.tape.length

/-- The machine after at most `rounds` rounds of at most `n` firings each. -/
def advanceRounds (n : Nat) : Nat → Machine → Machine
  | 0, m => m
  | rounds + 1, m => if m.isHalted then m else advanceRounds n rounds (m.advance n)

/-- The machine at the end of its run, or after as many firings as there are configurations.  The
firings are counted in rounds, which keeps the counters small. -/
def outlast (m : Machine) : Machine :=
  advanceRounds (m.table.size * m.tape.length) (Nat.pow 3 m.tape.length) m

/-- Runs until the machine halts; there is no result if it never does. -/
def run (m : Machine) : Option (Halt × Machine) :=
  let last := m.outlast
  last.halt?.map fun halt => (halt, last)

/-- The configurations of a run of at most `n` firings, the present one first. -/
def path : Nat → Machine → List Machine
  | 0, m => [m]
  | n + 1, m => if m.isHalted then [m] else m :: path n m.fire

/-- A run with all its configurations: how it ended, what it passed, and where it stands. -/
structure Trace where
  stop : Stop
  passed : List Machine
  last : Machine

/-- Runs on until `limit` firings have been made in all, keeping every configuration. -/
def traceTo (limit : Nat) (m : Machine) : Trace :=
  let passed := m.path (limit - m.steps)
  let last := passed.getLast?.getD m
  match last.halt? with
  | some halt => ⟨.halted halt, passed, last⟩
  | none => ⟨.stepLimit last.steps, passed, last⟩

/-- Runs until the machine halts, keeping every configuration; there is no result if it never
does. -/
def trace (m : Machine) : Option Trace :=
  let passed := m.path m.haltingBound
  let last := passed.getLast?.getD m
  last.halt?.map fun halt => ⟨.halted halt, passed, last⟩

theorem advance_of_isHalted {m : Machine} (h : m.isHalted = true) (n : Nat) : m.advance n = m := by
  cases n with
  | zero => rfl
  | succ n => simp [advance, h]

/-- Firing on is firing twice in a row. -/
theorem advance_add (a b : Nat) (m : Machine) : m.advance (a + b) = (m.advance a).advance b := by
  induction a generalizing m with
  | zero => simp [advance]
  | succ a ih =>
    rw [Nat.succ_add]
    by_cases h : m.isHalted = true
    · simp [advance, h, advance_of_isHalted h]
    · simp [advance, h, ih]

/-- Counting in rounds comes to the same as counting single firings. -/
theorem advanceRounds_eq (n rounds : Nat) (m : Machine) :
    advanceRounds n rounds m = m.advance (n * rounds) := by
  induction rounds generalizing m with
  | zero => rfl
  | succ rounds ih =>
    by_cases h : m.isHalted = true
    · simp [advanceRounds, h, advance_of_isHalted h]
    · rw [advanceRounds, if_neg h, ih, Nat.mul_succ, Nat.add_comm, advance_add]

theorem outlast_eq (m : Machine) : m.outlast = m.advance m.haltingBound :=
  advanceRounds_eq _ _ m

/-- The last configuration that a run passes is the one it stands at. -/
theorem getLast?_path (n : Nat) (m : Machine) : (m.path n).getLast? = some (m.advance n) := by
  induction n generalizing m with
  | zero => rfl
  | succ n ih =>
    by_cases h : m.isHalted = true
    · simp [path, advance, h]
    · simp [path, advance, h, List.getLast?_cons, ih]

end QuintupleMachine.Machine
