import QuintupleMachine.Ascending
import QuintupleMachine.Quintuple

/-! # Transition tables

A table holds at most one quintuple for each state, by ascending state.  It is a map from states:
`get?_insert` says what an insertion changes, and tables with the same look-ups are equal
(`ext_get?`). -/

namespace QuintupleMachine

/-- The quintuples of a machine, by ascending state. -/
structure Table where
  quintuples : List Quintuple
  ascends : Ascending.Ascends Quintuple.state quintuples
deriving DecidableEq

namespace Table

/-- The table that defines no state. -/
def empty : Table := ⟨[], .nil⟩

/-- The rule for a state. -/
def get? (table : Table) (state : Nat) : Option Quintuple :=
  table.quintuples.find? fun rule => rule.state = state

/-- Adds a rule, in place of the one for the same state, if any. -/
def insert (table : Table) (rule : Quintuple) : Table :=
  ⟨Ascending.insert Quintuple.state rule table.quintuples, table.ascends.insert rule⟩

/-- Adds a rule, and takes out the one for the same state, if any. -/
def exchange (table : Table) (rule : Quintuple) : Option Quintuple × Table :=
  ((Ascending.exchange Quintuple.state rule table.quintuples).1,
    ⟨(Ascending.exchange Quintuple.state rule table.quintuples).2,
      Ascending.exchange_snd rule table.quintuples ▸ table.ascends.insert rule⟩)

/-- The table of a list of rules: the last rule for a state wins. -/
def ofList (rules : List Quintuple) : Table := rules.foldl insert empty

/-- The defined states, ascending. -/
def states (table : Table) : List Nat := table.quintuples.map Quintuple.state

/-- The greatest defined state. -/
def maxState? (table : Table) : Option Nat := table.states.getLast?

/-- The number of defined states. -/
def size (table : Table) : Nat := table.quintuples.length

/-- Whether a state is defined. -/
def defines (table : Table) (state : Nat) : Bool := (table.get? state).isSome

theorem get?_empty (state : Nat) : empty.get? state = none := rfl

theorem get?_insert (table : Table) (rule : Quintuple) (state : Nat) :
    (table.insert rule).get? state = if rule.state = state then some rule else table.get? state :=
  Ascending.find?_insert rule state table.ascends

/-- The rule that is taken out is the one for the state of the new rule. -/
theorem exchange_eq (table : Table) (rule : Quintuple) :
    table.exchange rule = (table.get? rule.state, table.insert rule) := by
  rw [exchange, insert, get?, Ascending.exchange_fst rule table.ascends]
  simp only [Ascending.exchange_snd]

theorem get?_eq_some {table : Table} {state : Nat} {rule : Quintuple} :
    table.get? state = some rule ↔ rule ∈ table.quintuples ∧ rule.state = state :=
  table.ascends.find?_eq_some

/-- What a state looks up carries that state. -/
theorem state_of_get? {table : Table} {state : Nat} {rule : Quintuple}
    (h : table.get? state = some rule) : rule.state = state :=
  (get?_eq_some.1 h).2

/-- Tables with the same look-ups are equal. -/
theorem ext_get? {s t : Table} (h : ∀ state, s.get? state = t.get? state) : s = t := by
  have := s.ascends.eq_of_mem_iff t.ascends fun rule => by
    constructor <;> intro hr
    · exact (get?_eq_some.1 ((h rule.state) ▸ get?_eq_some.2 ⟨hr, rfl⟩)).1
    · exact (get?_eq_some.1 ((h rule.state).symm ▸ get?_eq_some.2 ⟨hr, rfl⟩)).1
  cases s; cases t; cases this; rfl

end Table

/-- The state every run starts in. -/
def entryState : Nat := 1

end QuintupleMachine
