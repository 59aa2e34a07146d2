import QuintupleMachine.Proofs.Diagnosis.Problems
import QuintupleMachine.Proofs.Machine.Calls

/-! # Unreachable states are dead

The states that a diagnosis lists as unreachable can be taken out of the table, and no call of any
machine shows that they are gone (`performAll_pruned`): a machine never leaves the reachable
states, and these keep their rules. -/

namespace QuintupleMachine

/-- The states that a problem calls unreachable. -/
def Problem.unreachableStates : Problem → List Nat
  | unreachable states => states
  | _ => []

namespace Table

/-- The table without the rules for some states. -/
def without (table : Table) (states : List Nat) : Table :=
  ⟨table.quintuples.filter fun rule => !states.contains rule.state,
    List.Pairwise.filter _ table.ascends⟩

/-- The table without the states that its diagnosis calls unreachable. -/
def pruned (table : Table) : Table :=
  table.without (table.problems.flatMap Problem.unreachableStates)

variable {table : Table} {q : Nat}

theorem get?_without (table : Table) (states : List Nat) (q : Nat) :
    (table.without states).get? q = if q ∈ states then none else table.get? q := by
  apply Option.ext
  intro rule
  rw [get?_eq_some, without, List.mem_filter]
  by_cases hq : q ∈ states
  · simp only [hq, if_true]
    grind
  · rw [if_neg hq, get?_eq_some]
    grind

theorem mem_unreachableStates :
    q ∈ table.problems.flatMap Problem.unreachableStates ↔
      ∃ l, .unreachable l ∈ table.problems ∧ q ∈ l := by
  rw [List.mem_flatMap]
  constructor
  · rintro ⟨problem, hproblem, hq⟩
    cases problem with
    | missingEntry | undefinedNext states => cases hq
    | unreachable states => exact ⟨states, hproblem, hq⟩
  · rintro ⟨l, hl, hq⟩
    exact ⟨.unreachable l, hl, hq⟩

/-- A table without unreachable states is left as it is. -/
theorem pruned_eq_self (h : ∀ l, .unreachable l ∉ table.problems) : table.pruned = table := by
  apply ext_get?
  intro q
  rw [pruned, get?_without, if_neg]
  intro hq
  obtain ⟨l, hl, -⟩ := mem_unreachableStates.1 hq
  exact h l hl

/-- With an entry state, the states that are taken out are the defined ones no run can enter. -/
theorem mem_unreachableStates_iff (hentry : table.defines entryState = true) :
    q ∈ table.problems.flatMap Problem.unreachableStates ↔ q ∈ table.unreachable := by
  rw [mem_unreachableStates]
  constructor
  · rintro ⟨l, hl, hq⟩
    exact (unreachable_mem_problems.1 hl).2.1 ▸ hq
  · intro hq
    exact ⟨_, unreachable_mem_problems.2 ⟨hentry, rfl, List.ne_nil_of_mem hq⟩, hq⟩

/-- The reachable states keep their rules, and no others do. -/
theorem get?_pruned (hentry : table.defines entryState = true) (q : Nat) :
    table.pruned.get? q = if q ∈ table.reachable then table.get? q else none := by
  rw [pruned, get?_without]
  simp only [mem_unreachableStates_iff hentry, mem_unreachable]
  by_cases hq : q ∈ table.reachable
  · simp [hq]
  · cases hdefines : table.defines q with
    | true => simp [hq]
    | false => simp [hq, get?_eq_none.2 hdefines]

theorem get?_pruned_of_reachable (hentry : table.defines entryState = true)
    (hq : q ∈ table.reachable) : table.pruned.get? q = table.get? q := by
  rw [get?_pruned hentry, if_pos hq]

end Table

namespace Machine

variable {table : Table} {m m' : Machine}

/-- Machines that differ in their tables, of which one is the other pruned. -/
structure Pruned (table : Table) (m m' : Machine) : Prop where
  table_eq : m.table = .compile table
  state_mem : m.state ∈ table.reachable
  eq : m' = { m with table := .compile table.pruned }

/-- The state that a machine is in is there before and after. -/
theorem Pruned.state?_eq (hentry : table.defines entryState = true) (h : Pruned table m m') :
    (CompiledTable.compile table.pruned).state? m.state = m.table.state? m.state := by
  rw [h.table_eq, CompiledTable.state?_compile, CompiledTable.state?_compile,
    Table.get?_pruned_of_reachable hentry h.state_mem]

namespace Pruned

theorem halt? (hentry : table.defines entryState = true) (h : Pruned table m m') :
    m.halt? = m'.halt? := by
  have hstate := h.state?_eq hentry
  obtain ⟨-, -, rfl⟩ := h
  unfold Machine.halt?
  dsimp only
  rw [hstate]

theorem fire (hentry : table.defines entryState = true) (h : Pruned table m m')
    (hrunning : m.halt? = none) : Pruned table m.fire m'.fire := by
  have hsame := h.state?_eq hentry
  obtain ⟨htable, hstate, rfl⟩ := h
  obtain ⟨head, symbol, rule, hfires⟩ := halt?_eq_none.1 hrunning
  have hfires' : Fires { m with table := .compile table.pruned } head symbol rule :=
    ⟨hfires.head_eq, hfires.symbol_eq, hsame.trans hfires.state_eq⟩
  refine ⟨m.table_fire.trans htable, ?_, ?_⟩
  · rw [hfires.fire]
    dsimp only
    split
    · exact Table.next_mem_reachable hstate (Table.next?_of_get? (hfires.rule_eq htable))
    · exact hstate
  · rw [hfires.fire, hfires'.fire]

theorem start (table : Table) (tape : Tape) :
    Pruned table (.start table tape) (.start table.pruned tape) :=
  ⟨rfl, Table.entryState_mem_reachable, rfl⟩

theorem reset (h : Pruned table m m') : Pruned table m.reset m'.reset := by
  obtain ⟨htable, -, rfl⟩ := h
  rw [Machine.reset, htable]
  exact start table m.initial

theorem observe (hentry : table.defines entryState = true) {result result' : Reply × Machine}
    (h : Runner.Agree (Pruned table) result result') :
    Machine.observe result = Machine.observe result' := by
  obtain ⟨hreply, hpruned⟩ := h
  have hhalted : result.2.isHalted = result'.2.isHalted :=
    congrArg Option.isSome (hpruned.halt? hentry)
  rw [Machine.observe, Machine.observe, hreply, hhalted, hpruned.eq]

end Pruned

/-- No halt and no firing shows that a table was pruned. -/
theorem simulates_pruned (hentry : table.defines entryState = true) :
    Runner.Simulates runner runner (Pruned table) where
  halt h := h.halt? hentry
  fire h hrunning := h.fire hentry hrunning
  reset h := h.reset

end Machine

namespace Table

variable {table : Table} {q : Nat}

/-! ## The diagnosis of a pruned table -/

theorem defines_pruned (hentry : table.defines entryState = true) :
    table.pruned.defines q = true ↔ q ∈ table.reachable ∧ table.defines q = true := by
  rw [defines, get?_pruned hentry, defines]
  split <;> simp [*]

/-- Pruning cuts no hand-over that runs can make. -/
theorem orbit_pruned (hentry : table.defines entryState = true) {k : Nat}
    (h : orbit table.next? k entryState = some q) :
    orbit table.pruned.next? k entryState = some q := by
  induction k generalizing q with
  | zero => exact h
  | succ k ih =>
    rw [orbit_succ] at h ⊢
    obtain ⟨b, hb, hnext⟩ := Option.bind_eq_some_iff.1 h
    rw [ih hb, Option.bind_some, next?, get?_pruned_of_reachable hentry (mem_reachable.2 ⟨k, hb⟩)]
    exact hnext

theorem unreachable_pruned (hentry : table.defines entryState = true) :
    table.pruned.unreachable = [] := by
  refine unreachable_eq_nil.2 fun q hdefines => ?_
  obtain ⟨k, hk⟩ := mem_reachable.1 ((defines_pruned hentry).1 hdefines).1
  exact ⟨k, orbit_pruned hentry hk⟩

/-- Pruning leaves no hand-over to an undefined state that was not there before. -/
theorem undefinedNext_pruned (hentry : table.defines entryState = true)
    (h : q ∈ table.pruned.undefinedNext) : q ∈ table.undefinedNext := by
  obtain ⟨⟨rule, hrule, rfl⟩, hundefined⟩ := mem_undefinedNext.1 h
  have hget := get?_eq_some.2 ⟨hrule, rfl⟩
  rw [get?_pruned hentry] at hget
  split at hget
  · next hstate =>
    have hnext := next_mem_reachable hstate (next?_of_get? hget)
    -- The next state can be entered, so it would have kept its rule if it had one.
    refine mem_undefinedNext.2 ⟨⟨rule, (get?_eq_some.1 hget).1, rfl⟩, ?_⟩
    rw [← Bool.not_eq_true] at hundefined ⊢
    intro hdefines
    exact hundefined ((defines_pruned hentry).2 ⟨hnext, hdefines⟩)
  · cases hget

end Table

namespace Machine

/-- The states that a diagnosis calls unreachable are never missed by a machine; and without them
a table has an entry state, no unreachable state, and no undefined state that it did not have
before. -/
theorem performAll_pruned (table : Table) (hentry : table.defines entryState = true) :
    ((∀ l, .unreachable l ∉ table.problems) → table.pruned = table) ∧
    (∀ tape calls,
      ((start table.pruned tape).performAll calls).map (List.map observe) =
        ((start table tape).performAll calls).map (List.map observe) ∧
      (.run ∉ calls → ((start table tape).performAll calls).isSome)) ∧
    .missingEntry ∉ table.pruned.problems ∧
    (∀ l, .unreachable l ∉ table.pruned.problems) ∧
    ∀ l, .undefinedNext l ∈ table.pruned.problems →
      ∃ l', .undefinedNext l' ∈ table.problems ∧ ∀ q ∈ l, q ∈ l' := by
  refine ⟨Table.pruned_eq_self, ?_, ?_, ?_, ?_⟩
  · intro tape calls
    rw [performAll_eq, performAll_eq]
    refine ⟨?_, fun hrun => Runner.isSome_performAll hrun _⟩
    exact ((simulates_pruned hentry).performAll (fun _ _ => Pruned.observe hentry)
      (Pruned.start table tape) calls).symm
  · rw [Table.missingEntry_mem_problems, Bool.not_eq_false, Table.defines_pruned hentry]
    exact ⟨Table.entryState_mem_reachable, hentry⟩
  · intro l h
    obtain ⟨-, rfl, hne⟩ := Table.unreachable_mem_problems.1 h
    exact hne (Table.unreachable_pruned hentry)
  · intro l h
    obtain ⟨rfl, hne⟩ := Table.undefinedNext_mem_problems.1 h
    obtain ⟨q, hq⟩ := List.exists_mem_of_ne_nil _ hne
    have hmem := Table.undefinedNext_pruned hentry hq
    exact ⟨_, Table.undefinedNext_mem_problems.2 ⟨rfl, List.ne_nil_of_mem hmem⟩,
      fun _ => Table.undefinedNext_pruned hentry⟩

/-- A table in which state 2 is dead, and state 3 is missing for state 2 alone. -/
theorem performAll_pruned_dead :
    (Table.ofList [⟨1, .blank, .zero, .right, 1⟩, ⟨2, .one, .one, .left, 3⟩]).defines entryState =
      true ∧
    .unreachable [2] ∈
      (Table.ofList [⟨1, .blank, .zero, .right, 1⟩, ⟨2, .one, .one, .left, 3⟩]).problems ∧
    ((start (Table.ofList [⟨1, .blank, .zero, .right, 1⟩, ⟨2, .one, .one, .left, 3⟩]).pruned
        (.blank 2)).performAll [.runFor 5]).map (List.map observe) =
      some [⟨.stopped (.halted .offTape), 1, 2, [.zero, .zero], 2, true⟩] := by
  have hentry : (Table.ofList [⟨1, .blank, .zero, .right, 1⟩,
      ⟨2, .one, .one, .left, 3⟩]).defines entryState = true := by
    decide
  refine ⟨hentry, by decide, (((performAll_pruned _ hentry).2.1 (.blank 2) [.runFor 5]).1).trans ?_⟩
  decide

end Machine

end QuintupleMachine
