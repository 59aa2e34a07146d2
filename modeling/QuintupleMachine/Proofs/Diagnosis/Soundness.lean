import QuintupleMachine.Proofs.Diagnosis.Problems
import QuintupleMachine.Proofs.Machine.Calls

/-! # Undefined states are diagnosed

A machine can only be in the entry state or in a state that some rule hands over to.  If it halts
there for want of a rule, the diagnosis of its table names that state.

Calls are answered together or not at all, but those before an unbounded run that never ends are
calls of their own, so what is said of all answered calls is said of them too. -/

namespace QuintupleMachine

namespace Table

/-- A state that runs can be in and that has no rule is among the problems. -/
theorem Entered.diagnosed {table : Table} {q : Nat} (h : table.Entered q)
    (hundefined : table.get? q = none) :
    (q = entryState ∧ .missingEntry ∈ table.problems) ∨
      ∃ l, .undefinedNext l ∈ table.problems ∧ q ∈ l := by
  rw [get?_eq_none] at hundefined
  rcases h with rfl | hrule
  · exact .inl ⟨rfl, missingEntry_mem_problems.2 hundefined⟩
  · have hmem : q ∈ table.undefinedNext := mem_undefinedNext.2 ⟨hrule, hundefined⟩
    exact .inr ⟨_, undefinedNext_mem_problems.2 ⟨rfl, List.ne_nil_of_mem hmem⟩, hmem⟩

end Table

namespace Machine

variable {table : Table} {tape : Tape}

/-- The state that a machine has halted in is named by the problems of its table. -/
theorem diagnosed_of_reaches {m : Machine} {q : Nat} (h : runner.Reaches (start table tape) m)
    (hhalt : m.halt? = some (.undefinedState q)) :
    (q = entryState ∧ .missingEntry ∈ table.problems) ∨
      ∃ l, .undefinedNext l ∈ table.problems ∧ q ∈ l := by
  obtain ⟨rfl, hundefined, -⟩ :=
    (halt?_eq_undefinedState_of_compile (table_of_reaches h).1).1 hhalt
  exact (entered_of_reaches h).diagnosed hundefined

/-- Whatever call reports an undefined state, the problems of the table name it. -/
theorem diagnosed_of_performAll {calls : List Call} {results : List (Reply × Machine)}
    (hresults : (start table tape).performAll calls = some results) {result : Reply × Machine}
    (hresult : result ∈ results) {q : Nat}
    (hreply : result.1.halt? = some (.undefinedState q)) :
    (q = entryState ∧ .missingEntry ∈ table.problems) ∨
      ∃ l, .undefinedNext l ∈ table.problems ∧ q ∈ l := by
  rw [performAll_eq] at hresults
  obtain ⟨m, call, hreaches, hcall⟩ := Runner.exists_perform_of_mem hresults hresult
  exact diagnosed_of_reaches (hreaches.perform hcall) (Runner.halt?_of_perform hcall hreply)

/-- Without an entry state a machine cannot fire at all. -/
theorem halt?_start_of_missingEntry (h : .missingEntry ∈ table.problems) (hne : 0 < tape.length) :
    (start table tape).halt? = some (.undefinedState entryState) :=
  (halt?_eq_undefinedState_of_compile rfl).2
    ⟨rfl, Table.get?_eq_none.2 (Table.missingEntry_mem_problems.1 h), 0, rfl, hne⟩

/-- The problems of a table name every state that a machine can report as undefined; a table
without problems never leads to one.  If the entry state is missing, every run on a tape with a
cell reports it without a firing. -/
theorem undefinedState_diagnosed (table : Table) (tape : Tape) :
    (∀ calls results, (start table tape).performAll calls = some results →
      ∀ result ∈ results, ∀ q, result.1.halt? = some (.undefinedState q) →
        (q = entryState ∧ .missingEntry ∈ table.problems) ∨
          ∃ l, .undefinedNext l ∈ table.problems ∧ q ∈ l) ∧
    (table.check = .ok () →
      ∀ calls results, (start table tape).performAll calls = some results →
        ∀ result ∈ results, ∀ q, result.1.halt? ≠ some (.undefinedState q)) ∧
    (.missingEntry ∈ table.problems → 0 < tape.length →
      (start table tape).run = some (.undefinedState entryState, start table tape) ∧
      ∀ budget, (start table tape).runFor budget =
        (.halted (.undefinedState entryState), start table tape)) := by
  refine ⟨?_, ?_, ?_⟩
  · intro calls results hresults result hresult q hreply
    exact diagnosed_of_performAll hresults hresult hreply
  · intro hcheck calls results hresults result hresult q hreply
    have hdiagnosed := diagnosed_of_performAll hresults hresult hreply
    rw [Table.check_eq_ok.1 hcheck] at hdiagnosed
    simp at hdiagnosed
  · intro hmissing hne
    have hhalt := halt?_start_of_missingEntry hmissing hne
    rw [run_eq]
    refine ⟨Runner.run_of_halt hhalt, ?_⟩
    intro budget
    rw [runFor_eq]
    exact Runner.runFor_of_halt hhalt budget

/-- A table that leads to the undefined state 2, one without problems, and one without rules. -/
theorem undefinedState_diagnosed_each :
    (((start (.ofList [⟨1, .blank, .zero, .right, 2⟩]) (.blank 2)).runFor 5).1 =
        .halted (.undefinedState 2) ∧
      ∃ l, .undefinedNext l ∈ (Table.ofList [⟨1, .blank, .zero, .right, 2⟩]).problems ∧ 2 ∈ l) ∧
    (∀ q, (Reply.stopped ((start (.ofList [⟨1, .blank, .zero, .right, 1⟩])
        (.blank 2)).runFor 5).1).halt? ≠ some (.undefinedState q)) ∧
    (start .empty (.blank 2)).run = some (.undefinedState 1, start .empty (.blank 2)) := by
  refine ⟨⟨by decide, ?_⟩, ?_, ?_⟩
  · rcases (undefinedState_diagnosed (.ofList [⟨1, .blank, .zero, .right, 2⟩]) (.blank 2)).1
      [.runFor 5] _ rfl _ List.mem_cons_self 2 (by decide) with ⟨h, -⟩ | h
    · cases h
    · exact h
  · exact (undefinedState_diagnosed (.ofList [⟨1, .blank, .zero, .right, 1⟩]) (.blank 2)).2.1
      rfl [.runFor 5] _ rfl _ List.mem_cons_self
  · exact ((undefinedState_diagnosed .empty (.blank 2)).2.2 (by decide) (by decide)).1

end Machine

end QuintupleMachine
