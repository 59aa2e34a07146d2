import QuintupleMachine.Table

/-! # Problems of a table

Three faults that a table can have without being unreadable: no rule for the entry state, rules
that hand over to states without one, and states that no run can enter.  A state hands over to one
other state at most, so the states that can be entered form a single chain from the entry state. -/

namespace QuintupleMachine

/-- A fault of a table. -/
inductive Problem where
  | missingEntry
  | undefinedNext (states : List Nat)
  | unreachable (states : List Nat)
deriving DecidableEq, Repr

/-- A list of numbers in brackets. -/
def listText (numbers : List Nat) : String :=
  "[" ++ ", ".intercalate (numbers.map Number.text) ++ "]"

namespace Problem

/-- A problem as a sentence. -/
def message : Problem → String
  | missingEntry => s!"Entry state {Number.text entryState} is not defined"
  | undefinedNext states => s!"Transitions reference undefined states: {listText states}"
  | unreachable states => s!"Unreachable states detected: {listText states}"

/-- The name of a problem. -/
def name : Problem → String
  | missingEntry => "MissingEntryState"
  | undefinedNext _ => "UndefinedNextStates"
  | unreachable _ => "UnreachableStates"

/-- The states that a problem is about. -/
def states : Problem → List Nat
  | missingEntry => []
  | undefinedNext states => states
  | unreachable states => states

/-- A problem in short: its name, with its states in parentheses. -/
def text : Problem → String
  | missingEntry => name missingEntry
  | problem => problem.name ++ "(" ++ listText problem.states ++ ")"

end Problem

namespace Table

/-- The state that a state hands over to. -/
def next? (table : Table) (state : Nat) : Option Nat := (table.get? state).map Quintuple.next

/-- The states that at most `n` hand-overs pass, from a state on. -/
def chain (table : Table) : Nat → Nat → List Nat
  | 0, state => [state]
  | n + 1, state =>
    match table.next? state with
    | none => [state]
    | some next => state :: chain table n next

/-- The states that runs can enter.  As many hand-overs as there are states pass all of them. -/
def reachable (table : Table) : List Nat := table.chain table.size entryState

/-- The states that are handed over to but not defined, ascending. -/
def undefinedNext (table : Table) : List Nat :=
  Ascending.ofList (fun state => state)
    ((table.quintuples.map Quintuple.next).filter fun state => !table.defines state)

/-- The defined states that a list leaves out, ascending. -/
def statesOutside (table : Table) (reached : List Nat) : List Nat :=
  table.states.filter fun state => !reached.contains state

/-- The defined states that no run can enter, ascending. -/
def unreachable (table : Table) : List Nat := table.statesOutside table.reachable

/-- The problems of a table, each kind at most once.  Without an entry state it is pointless to
ask what can be entered. -/
def problems (table : Table) : List Problem :=
  (if table.defines entryState then [] else [.missingEntry]) ++
  (if table.undefinedNext = [] then [] else [.undefinedNext table.undefinedNext]) ++
  (if table.defines entryState ∧ table.unreachable ≠ [] then [.unreachable table.unreachable]
    else [])

/-- Refuses a table for its first problem. -/
def check (table : Table) : Except Problem Unit :=
  match table.problems with
  | [] => .ok ()
  | problem :: _ => .error problem

end Table

end QuintupleMachine
