import QuintupleMachine.Proofs.Machine.Budget
import QuintupleMachine.Proofs.Machine.History

/-! # Halts are final

What halts a machine is asked in three places: before a firing, when a machine is looked at, and after
a run with a budget.  All three have the same answer, and it is exact: the head is off the tape, to
the left or on the cell behind the last, or else the state has no rule.  A halted machine is not
changed by any call but a reset, and gives the same reason each time (`step_of_reached`). -/

namespace QuintupleMachine.Machine

variable {table : Table} {tape : Tape} {past : List Machine} {m : Machine} {halt : Halt} {q : Nat}

theorem step_fst_eq_halted : m.step.1 = .halted halt ↔ m.halt? = some halt := by
  cases h : m.halt? with
  | none => simp [step_of_running h]
  | some first => simp [step_of_halt h]

theorem step_fst_eq_fired : m.step.1 = .fired ↔ m.halt? = none := by
  cases h : m.halt? with
  | none => simp [step_of_running h]
  | some first => simp [step_of_halt h]

/-- A machine is halted by its head or by its state. -/
theorem eq_offTape_or_eq_undefinedState (h : m.halt? = some halt) :
    halt = .offTape ∨ halt = .undefinedState m.state := by
  cases halt with
  | offTape => exact .inl rfl
  | undefinedState q => exact .inr (congrArg _ (halt?_eq_undefinedState.1 h).1.symm)

theorem performAll_of_halt (h : m.halt? = some halt) {calls : List Call} (hcalls : .reset ∉ calls) :
    m.performAll calls = some (calls.map fun call => (call.haltedReply halt, m)) := by
  rw [performAll_eq]
  exact Runner.performAll_of_halt h hcalls

/-- A head that is past the tape is on the cell behind it. -/
theorem Reached.halt?_eq_offTape (h : Reached table tape past m) :
    m.halt? = some .offTape ↔ m.head = none ∨ m.head = some tape.length := by
  rw [Machine.halt?_eq_offTape, h.length_eq]
  refine or_congr_right ⟨?_, ?_⟩
  · rintro ⟨head, hhead, hle⟩
    rw [hhead, Nat.le_antisymm (h.head_le hhead) hle]
  · intro hhead
    exact ⟨tape.length, hhead, Nat.le_refl _⟩

/-- Whatever was done with a machine, its next step fires if it is not halted, which is then counted.
If it is halted, the step says why: because the head is off the tape, even where the state is undefined
too, or because the state is undefined.  From then on every call but a reset leaves the machine as it
is, and whatever steps or runs says the same. -/
theorem step_of_reached (table : Table) (tape : Tape) :
    (∀ calls results, (start table tape).performAll calls = some results →
      ∀ result ∈ results, ∃ past, Reached table tape past result.2) ∧
    ∀ past m, Reached table tape past m →
      (m.step.1 = .fired ↔ m.isHalted = false) ∧
      (m.step.1 = .fired → m.step.2.steps = m.steps + 1) ∧
      ((∃ halt, m.step.1 = .halted halt) ↔ m.isHalted = true) ∧
      (∀ halt, m.step.1 = .halted halt →
        m.step.2 = m ∧ (halt = .offTape ∨ halt = .undefinedState m.state) ∧
        ∀ calls, .reset ∉ calls →
          m.performAll calls = some (calls.map fun call => (call.haltedReply halt, m))) ∧
      (m.step.1 = .halted .offTape ↔
        m.head = none ∨ ∃ head, m.head = some head ∧ tape.length ≤ head) ∧
      (m.step.1 = .halted .offTape ↔ m.head = none ∨ m.head = some tape.length) ∧
      ∀ q, m.step.1 = .halted (.undefinedState q) ↔
        m.state = q ∧ table.get? q = none ∧ ∃ head, m.head = some head ∧ head < tape.length := by
  constructor
  · intro calls results hresults result hresult
    exact exists_reached_of_mem hresults hresult
  · intro past m hreached
    simp only [step_fst_eq_fired, step_fst_eq_halted]
    refine ⟨isHalted_eq_false_iff.symm, ?_, ?_, ?_, ?_, hreached.halt?_eq_offTape, ?_⟩
    · intro hrunning
      rw [step_of_running hrunning, steps_fire hrunning]
    · rw [isHalted, Option.isSome_iff_exists]
    · intro halt hhalt
      refine ⟨?_, eq_offTape_or_eq_undefinedState hhalt, fun calls => performAll_of_halt hhalt⟩
      rw [step_of_halt hhalt]
    · rw [halt?_eq_offTape, hreached.length_eq]
    · intro q
      rw [halt?_eq_undefinedState_of_compile hreached.table_eq, hreached.length_eq]

/-- A machine that leaves its tape to the left in a state that is undefined as well. -/
theorem step_of_reached_left :
    Reached (.ofList [⟨1, .blank, .one, .left, 3⟩]) (.blank 2)
      [start (.ofList [⟨1, .blank, .one, .left, 3⟩]) (.blank 2)]
      (start (.ofList [⟨1, .blank, .one, .left, 3⟩]) (.blank 2)).fire ∧
    (start (.ofList [⟨1, .blank, .one, .left, 3⟩]) (.blank 2)).fire.step.1 = .halted .offTape ∧
    (start (.ofList [⟨1, .blank, .one, .left, 3⟩]) (.blank 2)).fire.performAll
        [.runFor 0, .look, .run, .step] =
      some [(.stopped (.halted .offTape),
          (start (.ofList [⟨1, .blank, .one, .left, 3⟩]) (.blank 2)).fire),
        (.nothing, (start (.ofList [⟨1, .blank, .one, .left, 3⟩]) (.blank 2)).fire),
        (.stopped (.halted .offTape),
          (start (.ofList [⟨1, .blank, .one, .left, 3⟩]) (.blank 2)).fire),
        (.stepped (.halted .offTape),
          (start (.ofList [⟨1, .blank, .one, .left, 3⟩]) (.blank 2)).fire)] := by
  have hreached := (Reached.nil (.ofList [⟨1, .blank, .one, .left, 3⟩]) (.blank 2)).fire rfl
  obtain ⟨-, -, -, hhalted, hoff, -⟩ := (step_of_reached _ _).2 _ _ hreached
  have hstep := hoff.2 (.inl rfl)
  exact ⟨hreached, hstep, (hhalted _ hstep).2.2 [.runFor 0, .look, .run, .step] (by decide)⟩

end QuintupleMachine.Machine
