import Mathlib.Data.Finset.Card
import QuintupleMachine.Table

/-! # Tables of lists

A table made from a list of rules holds the last rule for each state, so a table is made again from
its own rules. -/

namespace QuintupleMachine

/-- The last of some rules for a state. -/
def lastRule? (rules : List Quintuple) (state : Nat) : Option Quintuple :=
  rules.reverse.find? fun rule => rule.state = state

theorem lastRule?_cons (rule : Quintuple) (rules : List Quintuple) (state : Nat) :
    lastRule? (rule :: rules) state =
      (lastRule? rules state).or (if rule.state = state then some rule else none) := by
  unfold lastRule?
  rw [List.reverse_cons, List.find?_append, List.find?_singleton]
  simp only [decide_eq_true_eq]

/-- Later rules hide earlier ones. -/
theorem lastRule?_append (rules more : List Quintuple) (state : Nat) :
    lastRule? (rules ++ more) state = (lastRule? more state).or (lastRule? rules state) := by
  unfold lastRule?
  rw [List.reverse_append, List.find?_append]

theorem lastRule?_eq_none {rules : List Quintuple} {state : Nat} :
    lastRule? rules state = none ↔ ∀ rule ∈ rules, rule.state ≠ state := by
  simp [lastRule?]

theorem of_lastRule?_eq_some {rules : List Quintuple} {state : Nat} {rule : Quintuple}
    (h : lastRule? rules state = some rule) : rule ∈ rules ∧ rule.state = state :=
  ⟨List.mem_reverse.1 (List.mem_of_find?_eq_some h), by simpa using List.find?_some h⟩

namespace Table

/-- Rules that are added one after the other hide what the table held before. -/
theorem get?_foldl_insert (rules : List Quintuple) (table : Table) (state : Nat) :
    (rules.foldl insert table).get? state = (lastRule? rules state).or (table.get? state) := by
  induction rules generalizing table with
  | nil => rfl
  | cons rule rules ih =>
    rw [List.foldl_cons, ih, get?_insert, lastRule?_cons, Option.or_assoc]
    congr 1
    split <;> rfl

/-- The last rule for a state wins. -/
theorem get?_ofList (rules : List Quintuple) (state : Nat) :
    (ofList rules).get? state = lastRule? rules state := by
  rw [ofList, get?_foldl_insert, get?_empty, Option.or_none]

theorem defines_ofList {rules : List Quintuple} {state : Nat} :
    (ofList rules).defines state = true ↔ ∃ rule ∈ rules, rule.state = state := by
  rw [defines, get?_ofList, ← Option.not_isNone, Bool.not_eq_true', Option.isNone_eq_false_iff,
    Option.isSome_iff_ne_none, ne_eq, lastRule?_eq_none]
  simp

theorem mem_states {table : Table} {state : Nat} :
    state ∈ table.states ↔ table.defines state = true := by
  rw [states, List.mem_map, defines, Option.isSome_iff_exists]
  constructor
  · rintro ⟨rule, hrule, hstate⟩
    exact ⟨rule, get?_eq_some.2 ⟨hrule, hstate⟩⟩
  · rintro ⟨rule, hrule⟩
    exact ⟨rule, get?_eq_some.1 hrule⟩

theorem pairwise_states (table : Table) : table.states.Pairwise (· < ·) :=
  List.pairwise_map.2 table.ascends

theorem card_states (table : Table) : table.states.toFinset.card = table.size := by
  rw [List.toFinset_card_of_nodup (table.pairwise_states.imp Nat.ne_of_lt), states, List.length_map,
    size]

theorem mem_states_ofList {rules : List Quintuple} {state : Nat} :
    state ∈ (ofList rules).states ↔ state ∈ rules.map Quintuple.state := by
  rw [mem_states, defines_ofList, List.mem_map]

/-- Rules for one state count once. -/
theorem size_ofList (rules : List Quintuple) :
    (ofList rules).size = (rules.map Quintuple.state).toFinset.card := by
  have hstates : (ofList rules).states.toFinset = (rules.map Quintuple.state).toFinset := by
    ext state
    rw [List.mem_toFinset, List.mem_toFinset, mem_states_ofList]
  rw [← card_states, hstates]

/-- A table is made again from its own rules. -/
@[simp] theorem ofList_quintuples (table : Table) : ofList table.quintuples = table := by
  apply ext_get?
  intro state
  rw [get?_ofList]
  cases h : lastRule? table.quintuples state with
  | some rule => exact (get?_eq_some.2 (of_lastRule?_eq_some h)).symm
  | none =>
    cases hget : table.get? state with
    | none => rfl
    | some rule =>
      obtain ⟨hmem, hstate⟩ := get?_eq_some.1 hget
      exact absurd hstate (lastRule?_eq_none.1 h rule hmem)

theorem mem_of_mem_ofList {rules : List Quintuple} {rule : Quintuple}
    (h : rule ∈ (ofList rules).quintuples) : rule ∈ rules := by
  have hget : (ofList rules).get? rule.state = some rule := get?_eq_some.2 ⟨h, rfl⟩
  rw [get?_ofList] at hget
  exact (of_lastRule?_eq_some hget).1

/-- Ascending rules are kept as they are. -/
theorem quintuples_ofList {rules : List Quintuple} (h : Ascending.Ascends Quintuple.state rules) :
    (ofList rules).quintuples = rules :=
  congrArg quintuples (ofList_quintuples ⟨rules, h⟩)

end Table

end QuintupleMachine
