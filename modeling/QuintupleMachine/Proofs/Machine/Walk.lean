import QuintupleMachine.Proofs.Machine.Calls

/-! # Machines with a signed head

The plainest way to run a table is to take its rules as they are, to let the head walk over the
integers and to look, before each firing, whether it still is on the tape.  A machine over the
compiled table cannot be told from such a walk by any sequence of calls (`performAll_eq_walk`): what
is filed under a number is the state of the rule that the table has for it, an absent head is
position -1, and no head on a tape whose length is a 64-bit number ever stands at the greatest
number, from which it could not move on. -/

namespace QuintupleMachine

/-- How far a move takes the head. -/
def Direction.offset : Direction → Int
  | left => -1
  | right => 1
  | stay => 0

theorem Direction.signedPosition_apply (direction : Direction) {head : Nat}
    (h : head < Number.greatest) :
    signedPosition (direction.apply head) = head + direction.offset := by
  cases direction with
  | left =>
    cases head with
    | zero => rfl
    | succ head => simp only [apply, signedPosition, offset]; omega
  | right => simp only [apply, if_pos h, signedPosition, offset]; omega
  | stay => simp only [apply, signedPosition, offset]; omega

/-- A run of a table whose head stands on an integer. -/
structure Walk where
  table : Table
  /-- The cells that the run started on. -/
  initial : List Symbol
  cells : List Symbol
  state : Nat
  position : Int
  /-- The number of firings so far. -/
  steps : Nat

namespace Walk

/-- A walk starts in state 1 at position 0. -/
def start (table : Table) (cells : List Symbol) : Walk := ⟨table, cells, cells, 1, 0, 0⟩

/-- Back to the start of the walk. -/
def reset (w : Walk) : Walk := start w.table w.initial

/-- A walk halts off the tape, and otherwise in a state without a rule. -/
def halt? (w : Walk) : Option Halt :=
  if w.position < 0 ∨ w.cells.length ≤ w.position then some .offTape
  else if w.table.get? w.state = none then some (.undefinedState w.state)
  else none

/-- A rule that reads the blank or the symbol in the cell writes and hands over; any other keeps
tape and state.  Either way the head moves. -/
def fire (w : Walk) : Walk :=
  match w.table.get? w.state, w.cells[w.position.toNat]? with
  | some rule, some symbol =>
    let moved := { w with position := w.position + rule.direction.offset, steps := w.steps + 1 }
    if rule.read = .blank ∨ rule.read = symbol then
      { moved with cells := w.cells.set w.position.toNat rule.write, state := rule.next }
    else moved
  | _, _ => w

/-- A firing, of the rule and on the symbol that are there. -/
theorem fire_eq {w : Walk} {head : Nat} {rule : Quintuple} {symbol : Symbol}
    (hposition : w.position = head) (hrule : w.table.get? w.state = some rule)
    (hsymbol : w.cells[head]? = some symbol) :
    w.fire =
      { w with
        cells := if rule.accepts symbol then w.cells.set head rule.write else w.cells
        state := if rule.accepts symbol then rule.next else w.state
        position := head + rule.direction.offset
        steps := w.steps + 1 } := by
  unfold fire
  rw [hposition, hrule, Int.toNat_natCast, hsymbol]
  by_cases haccepts : rule.accepts symbol = true
  · simp only [if_pos (Quintuple.accepts_iff.1 haccepts), if_pos haccepts]
  · simp only [if_neg (haccepts ∘ Quintuple.accepts_iff.2), if_neg haccepts]

/-- A walk fires until it is halted. -/
def runner : Runner Walk := ⟨halt?, fire, reset⟩

/-- What can be seen after a call of a walk. -/
def observe (result : Reply × Walk) : Observation :=
  ⟨result.1, result.2.state, result.2.position, result.2.cells, result.2.steps,
    result.2.halt?.isSome⟩

/-- A walk and a machine at the same point of the same run. -/
structure Follows (w : Walk) (m : Machine) : Prop where
  table : m.table = .compile w.table
  initial : m.initial.cells.toList = w.initial
  cells : m.tape.cells.toList = w.cells
  state : m.state = w.state
  position : signedPosition m.head = w.position
  steps : m.steps = w.steps
  initial_le : m.initial.length ≤ Number.greatest
  length_le : m.tape.length ≤ Number.greatest

variable {w : Walk} {m : Machine}

theorem follows_start (table : Table) {tape : Tape} (h : tape.length ≤ Number.greatest) :
    (start table tape.cells.toList).Follows (.start table tape) where
  table := rfl
  initial := rfl
  cells := rfl
  state := rfl
  position := rfl
  steps := rfl
  initial_le := h
  length_le := h

namespace Follows

theorem length (h : w.Follows m) : w.cells.length = m.tape.length := by
  rw [← h.cells, Array.length_toList, Tape.length]

theorem reset (h : w.Follows m) : w.reset.Follows m.reset := by
  rw [Walk.reset, Machine.reset, h.table, ← h.initial]
  exact follows_start w.table h.initial_le

theorem halt? (h : w.Follows m) : w.halt? = m.halt? := by
  unfold Walk.halt? Machine.halt?
  rw [h.length, ← h.position, h.table, ← h.state, CompiledTable.state?_compile]
  cases m.head with
  | none => simp [signedPosition]
  | some head =>
    have hoff : (signedPosition (some head) < 0 ∨
        (m.tape.length : Int) ≤ signedPosition (some head)) ↔ ¬ head < m.tape.length := by
      simp only [signedPosition]
      omega
    by_cases hlt : head < m.tape.length
    · cases hrule : w.table.get? m.state <;> simp [hoff, hlt]
    · simp [hoff, hlt]

theorem fire (h : w.Follows m) (hrunning : m.halt? = none) : w.fire.Follows m.fire := by
  obtain ⟨head, symbol, rule, hfires⟩ := Machine.halt?_eq_none.1 hrunning
  have hposition : w.position = head := by
    rw [← h.position, hfires.head_eq, signedPosition]
  have hrule : w.table.get? w.state = some rule := by
    rw [← h.state, hfires.rule_eq h.table]
  have hsymbol : w.cells[head]? = some symbol := by
    rw [← h.cells, Array.getElem?_toList]
    exact hfires.symbol_eq
  -- The head is on the tape, so it is not at the greatest number and can move on to the right.
  have hmove : signedPosition (rule.direction.apply head) = head + rule.direction.offset :=
    rule.direction.signedPosition_apply (Nat.lt_of_lt_of_le hfires.lt_length h.length_le)
  have hlength : m.fire.tape.length ≤ Number.greatest := by
    rw [Machine.length_fire]
    exact h.length_le
  rw [fire_eq hposition hrule hsymbol]
  rw [hfires.fire] at hlength ⊢
  refine ⟨h.table, h.initial, ?_, ?_, hmove, congrArg (· + 1) h.steps, h.initial_le, hlength⟩
  · split
    · rw [← h.cells]
      exact Array.toList_setIfInBounds
    · exact h.cells
  · split
    · rfl
    · exact h.state

end Follows

/-- Walks are followed by machines for ever. -/
theorem simulates : Runner.Simulates runner Machine.runner Follows where
  halt h := h.halt?
  fire h hrunning := h.fire (h.halt? ▸ hrunning)
  reset h := h.reset

theorem Follows.observe {result : Reply × Walk} {result' : Reply × Machine}
    (h : Runner.Agree Follows result result') : Walk.observe result = Machine.observe result' := by
  obtain ⟨hreply, hfollows⟩ := h
  rw [Walk.observe, Machine.observe, hreply, hfollows.state, hfollows.position, hfollows.cells,
    hfollows.steps, hfollows.halt?]
  rfl

end Walk

namespace Machine

/-- On a tape whose length is a 64-bit number a machine over the compiled table shows, after any
calls, what a walk over the table itself shows.  Calls without unbounded runs are all answered, and
the compiled table has the states of the rules of the table, each under its number. -/
theorem performAll_eq_walk (table : Table) (tape : Tape) (hlength : tape.length ≤ Number.greatest)
    (calls : List Call) :
    ((new (.compile table) tape).performAll calls).map (List.map observe) =
      (Walk.runner.performAll (.start table tape.cells.toList) calls).map (List.map Walk.observe) ∧
    (.run ∉ calls → ((new (.compile table) tape).performAll calls).isSome) ∧
    (∀ number, (CompiledTable.compile table).state? number =
      (table.get? number).map CompiledState.mk) ∧
    (CompiledTable.compile table).size = table.size := by
  rw [performAll_eq]
  refine ⟨?_, fun hrun => Runner.isSome_performAll hrun _, CompiledTable.state?_compile table,
    CompiledTable.size_compile table⟩
  exact (Walk.simulates.performAll (fun _ _ => Walk.Follows.observe)
    (Walk.follows_start table hlength) calls).symm

/-- A machine that changes its state, keeps it on another symbol, moves off to the left, and starts
again. -/
theorem performAll_eq_walk_left :
    (Tape.blank 2).length ≤ Number.greatest ∧
      ((new (.compile (.ofList [⟨3, .one, .zero, .left, 1⟩, ⟨1, .blank, .one, .right, 3⟩]))
          (.blank 2)).performAll [.runFor 5, .reset, .step]).map (List.map observe) =
        some [⟨.stopped (.halted .offTape), 1, -1, [.zero, .blank], 3, true⟩,
          ⟨.nothing, 1, 0, [.blank, .blank], 0, false⟩,
          ⟨.stepped .fired, 3, 1, [.one, .blank], 1, false⟩] := by
  have hlength : (Tape.blank 2).length ≤ Number.greatest := by decide
  refine ⟨hlength, (performAll_eq_walk _ _ hlength _).1.trans ?_⟩
  decide

end Machine

end QuintupleMachine
