import QuintupleMachine.Proofs.Machine.Halting
import QuintupleMachine.Proofs.Runner

/-! # Calls on a machine

A machine is a runner.  Its calls are written with bounds that keep them computable, but they come
to the plain loops that every runner has (`performAll_eq`).  What can be told about a machine from
outside is an `Observation`. -/

namespace QuintupleMachine

/-- The cell under the head as an integer.  A head that has moved off to the left is at -1. -/
def signedPosition : Option Nat → Int
  | some head => head
  | none => -1

/-- What can be seen after a call. -/
structure Observation where
  reply : Reply
  state : Nat
  position : Int
  cells : List Symbol
  steps : Nat
  halted : Bool
deriving DecidableEq

/-- The states that runs can be in: the entry state, and those that rules hand over to. -/
def Table.Entered (table : Table) (state : Nat) : Prop :=
  state = entryState ∨ ∃ rule ∈ table.quintuples, rule.next = state

namespace Machine

/-- A machine fires until it is halted. -/
def runner : Runner Machine := ⟨halt?, fire, reset⟩

/-- What can be seen after a call of a machine. -/
def observe (result : Reply × Machine) : Observation :=
  ⟨result.1, result.2.state, signedPosition result.2.head, result.2.tape.cells.toList,
    result.2.steps, result.2.isHalted⟩

variable {m : Machine}

theorem advance_eq (n : Nat) (m : Machine) : m.advance n = runner.advance n m := by
  induction n generalizing m with
  | zero => rfl
  | succ n ih =>
    rw [advance, isHalted]
    cases hhalt : m.halt? with
    | some halt => exact (Runner.advance_of_halt hhalt (n + 1)).symm
    | none =>
      simp only [Option.isSome_none, Bool.false_eq_true, if_false]
      rw [Runner.advance_of_running hhalt, ih]
      rfl

theorem runFor_eq (budget : Nat) (m : Machine) : m.runFor budget = runner.runFor budget m := by
  simp only [runFor, Runner.runFor, advance_eq, runner]
  cases (Runner.advance _ budget m).halt? <;> rfl

theorem run_eq (m : Machine) : m.run = runner.run m := by
  apply Option.ext
  rintro ⟨halt, last⟩
  simp only [run_eq_some, Runner.run_eq_some, advance_eq, runner]

theorem perform_eq (m : Machine) (call : Call) : m.perform call = runner.perform m call := by
  cases call with
  | look | step | reset => rfl
  | runFor budget => rw [perform, runFor_eq]; rfl
  | run => rw [perform, run_eq]; rfl

theorem performAll_eq (m : Machine) (calls : List Call) :
    m.performAll calls = runner.performAll m calls := by
  induction calls generalizing m with
  | nil => rfl
  | cons call calls ih =>
    simp only [performAll, Runner.performAll, perform_eq, ih]

/-! ## Reachable machines -/

variable {table : Table} {tape : Tape}

/-- Calls change neither the table nor the tape to start from. -/
theorem table_of_reaches (h : runner.Reaches (start table tape) m) :
    m.table = .compile table ∧ m.initial = tape := by
  induction h with
  | refl => exact ⟨rfl, rfl⟩
  | @fire m _ _ ih => exact ⟨m.table_fire.trans ih.1, m.initial_fire.trans ih.2⟩
  | reset _ ih => exact ih

/-- A machine is in the entry state, or in a state that some rule handed over to. -/
theorem entered_of_reaches (h : runner.Reaches (start table tape) m) : table.Entered m.state := by
  induction h with
  | refl | reset _ _ => exact .inl rfl
  | @fire m hreaches hrunning ih =>
    obtain ⟨head, symbol, rule, hfires⟩ := halt?_eq_none.1 hrunning
    have hrule : rule ∈ table.quintuples := hfires.mem_quintuples (table_of_reaches hreaches).1
    change table.Entered m.fire.state
    rw [hfires.fire]
    dsimp only
    split
    · exact .inr ⟨rule, hrule, rfl⟩
    · exact ih

end Machine

end QuintupleMachine
