import QuintupleMachine.Firing
import QuintupleMachine.Table

/-! # Compiled tables

A machine does not fire the rules of a table but executable states, each of which is filed under its
number.  A table is compiled rule by rule.  What is then found under a number is the state of the
rule that the table has for it (`state?_compile`), and every state is found under its own number
(`number_of_state?`). -/

namespace QuintupleMachine

/-- An executable state: a rule that is ready to be fired. -/
structure CompiledState where
  rule : Quintuple
deriving DecidableEq, Repr

namespace CompiledState

/-- The number of a state is that of its rule. -/
def number (state : CompiledState) : Nat := state.rule.state

/-- Fires the rule of a state with the head at a position. -/
def fire (state : CompiledState) (tape : Tape) (head : Nat) : Option Firing :=
  state.rule.fire tape head

@[simp] theorem number_mk (rule : Quintuple) : number ⟨rule⟩ = rule.state := rfl

@[simp] theorem fire_mk (rule : Quintuple) (tape : Tape) (head : Nat) :
    fire ⟨rule⟩ tape head = rule.fire tape head := rfl

end CompiledState

/-- Executable states, filed in no particular order.  No two of them are filed under one number, and
each is filed under its own. -/
structure CompiledTable where
  entries : List (Nat × CompiledState)
  distinct : entries.Pairwise fun a b => a.1 ≠ b.1
  keyed : ∀ entry ∈ entries, entry.2.number = entry.1
deriving DecidableEq

namespace CompiledTable

/-- The table without states. -/
def empty : CompiledTable := ⟨[], .nil, List.forall_mem_nil _⟩

/-- The state that is filed under a number. -/
def state? (table : CompiledTable) (number : Nat) : Option CompiledState :=
  (table.entries.find? fun entry => entry.1 = number).map Prod.snd

/-- Files a state, in place of the one under its number, if any. -/
def insert (table : CompiledTable) (state : CompiledState) : CompiledTable where
  entries := (state.number, state) :: table.entries.filter fun entry => entry.1 ≠ state.number
  distinct := by
    refine List.pairwise_cons.2 ⟨?_, table.distinct.filter _⟩
    intro entry hentry
    exact Ne.symm (of_decide_eq_true (List.mem_filter.1 hentry).2)
  keyed := by
    refine List.forall_mem_cons.2 ⟨rfl, ?_⟩
    intro entry hentry
    exact table.keyed entry (List.mem_filter.1 hentry).1

/-- The number of states. -/
def size (table : CompiledTable) : Nat := table.entries.length

/-- The numbers that have a state. -/
def numbers (table : CompiledTable) : List Nat := table.entries.map Prod.fst

/-- Files the states of rules, one after the other. -/
def fileAll (table : CompiledTable) (rules : List Quintuple) : CompiledTable :=
  rules.foldl (fun table rule => table.insert ⟨rule⟩) table

/-- Compiles the rules of a table. -/
def compile (table : Table) : CompiledTable := empty.fileAll table.quintuples

theorem fileAll_cons (table : CompiledTable) (rule : Quintuple) (rules : List Quintuple) :
    table.fileAll (rule :: rules) = (table.insert ⟨rule⟩).fileAll rules := rfl

@[simp] theorem state?_empty (number : Nat) : empty.state? number = none := rfl

theorem state?_insert (table : CompiledTable) (state : CompiledState) (number : Nat) :
    (table.insert state).state? number =
      if state.number = number then some state else table.state? number := by
  unfold state? insert
  by_cases h : state.number = number
  · simp [h]
  · have hsame : (fun entry : Nat × CompiledState =>
        decide (decide (entry.1 ≠ state.number) = true ∧ decide (entry.1 = number) = true)) =
          fun entry => decide (entry.1 = number) := by
      funext entry
      by_cases hentry : entry.1 = number
      · simp [hentry, Ne.symm h]
      · simp [hentry]
    rw [List.find?_cons_of_neg (by simpa using h), List.find?_filter, hsame, if_neg h]

/-- What is found under a number is filed under it. -/
theorem mem_entries {table : CompiledTable} {number : Nat} {state : CompiledState}
    (h : table.state? number = some state) : (number, state) ∈ table.entries := by
  obtain ⟨entry, hentry, rfl⟩ := Option.map_eq_some_iff.1 h
  obtain rfl : entry.1 = number := by simpa using List.find?_some hentry
  exact List.mem_of_find?_eq_some hentry

/-- Every state is found under its own number. -/
theorem number_of_state? {table : CompiledTable} {number : Nat} {state : CompiledState}
    (h : table.state? number = some state) : state.number = number :=
  table.keyed _ (mem_entries h)

theorem mem_numbers {table : CompiledTable} {number : Nat} {state : CompiledState}
    (h : table.state? number = some state) : number ∈ table.numbers :=
  List.mem_map_of_mem (mem_entries h)

theorem size_insert {table : CompiledTable} {state : CompiledState}
    (h : table.state? state.number = none) : (table.insert state).size = table.size + 1 := by
  have hnew : ∀ entry ∈ table.entries, decide (entry.1 ≠ state.number) = true := by
    simpa [state?] using h
  rw [size, insert, List.length_cons, List.filter_eq_self.2 hnew, size]

/-- Rules for different states are all filed, beside what was filed before. -/
theorem state?_fileAll {rules : List Quintuple} (h : Ascending.Ascends Quintuple.state rules)
    (table : CompiledTable) (number : Nat) :
    (table.fileAll rules).state? number =
      ((rules.find? fun rule => rule.state = number).map CompiledState.mk).or
        (table.state? number) := by
  induction rules generalizing table with
  | nil => rfl
  | cons rule rules ih =>
    obtain ⟨hrule, hrules⟩ := List.pairwise_cons.1 h
    rw [fileAll_cons, ih hrules, state?_insert, CompiledState.number_mk]
    by_cases hnumber : rule.state = number
    · have hnone : (rules.find? fun rule => rule.state = number) = none := by
        rw [List.find?_eq_none]
        intro other hother
        have hlt := hrule other hother
        simp only [decide_eq_true_eq]
        omega
      rw [hnone, if_pos hnumber, List.find?_cons_of_pos (by simpa using hnumber)]
      rfl
    · rw [if_neg hnumber, List.find?_cons_of_neg (by simpa using hnumber)]

/-- A number has the state of the rule that the table has for it. -/
theorem state?_compile (table : Table) (number : Nat) :
    (compile table).state? number = (table.get? number).map CompiledState.mk := by
  rw [compile, state?_fileAll table.ascends, state?_empty, Option.or_none, Table.get?]

theorem state?_compile_eq_none {table : Table} {number : Nat} :
    (compile table).state? number = none ↔ table.get? number = none := by
  rw [state?_compile, Option.map_eq_none_iff]

theorem size_fileAll {rules : List Quintuple} (h : Ascending.Ascends Quintuple.state rules)
    {table : CompiledTable} (hnew : ∀ rule ∈ rules, table.state? rule.state = none) :
    (table.fileAll rules).size = table.size + rules.length := by
  induction rules generalizing table with
  | nil => rfl
  | cons rule rules ih =>
    obtain ⟨hrule, hrules⟩ := List.pairwise_cons.1 h
    obtain ⟨hfirst, hrest⟩ := List.forall_mem_cons.1 hnew
    have hafter : ∀ other ∈ rules, (table.insert ⟨rule⟩).state? other.state = none := by
      intro other hother
      rw [state?_insert, CompiledState.number_mk, if_neg (Nat.ne_of_lt (hrule other hother)),
        hrest other hother]
    rw [fileAll_cons, ih hrules hafter, size_insert hfirst, List.length_cons]
    omega

/-- There are as many states as the table has rules. -/
theorem size_compile (table : Table) : (compile table).size = table.size := by
  rw [compile, size_fileAll table.ascends fun _ _ => rfl]
  exact Nat.zero_add _

end CompiledTable

end QuintupleMachine
