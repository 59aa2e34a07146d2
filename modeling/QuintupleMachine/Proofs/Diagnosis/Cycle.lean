import QuintupleMachine.Proofs.Diagnosis.Problems

/-! # Tables without problems

Three separate checks leave only one shape for a table.  Its states are a single chain of hand-overs
from the entry state on: the chain never ends, because no state hands over to an undefined one; it
passes all states, because none is unreachable; and as there are only so many, it passes each once
before it comes back to one of them (`problems_eq_nil_iff`). -/

namespace QuintupleMachine.Table

variable {table : Table} {q next : Nat}

/-- The states of the table are a chain from the entry state on that leads back into itself. -/
structure ClosedChain (table : Table) : Prop where
  size_pos : 1 ≤ table.size
  /-- The chain is as long as there are states. -/
  defined : ∀ k < table.size,
    ∃ q, orbit table.next? k entryState = some q ∧ table.defines q = true
  /-- No state is in it twice. -/
  distinct : ∀ i < table.size, ∀ j < table.size,
    orbit table.next? i entryState = orbit table.next? j entryState → i = j
  /-- Every state is in it. -/
  complete : ∀ q, table.defines q = true → ∃ k < table.size, orbit table.next? k entryState = some q
  /-- Its last state hands over to one that is in it. -/
  closed : ∃ k < table.size,
    orbit table.next? table.size entryState = orbit table.next? k entryState

/-- Where nothing undefined is handed over to, the chain from a defined entry state never ends. -/
theorem exists_orbit_state (hentry : table.defines entryState = true)
    (hnext : ∀ q next, table.next? q = some next → table.defines next = true) (k : Nat) :
    ∃ q ∈ table.states.toFinset, orbit table.next? k entryState = some q := by
  simp only [List.mem_toFinset, mem_states]
  induction k with
  | zero => exact ⟨entryState, hentry, rfl⟩
  | succ k ih =>
    obtain ⟨q, hq, horbit⟩ := ih
    obtain ⟨rule, hrule⟩ := Option.isSome_iff_exists.1 hq
    have hstep := next?_of_get? hrule
    refine ⟨rule.next, hnext q rule.next hstep, ?_⟩
    rw [orbit_succ, horbit, Option.bind_some, hstep]

theorem closedChain_of_problems_eq_nil (h : table.problems = []) : table.ClosedChain := by
  obtain ⟨hentry, hundefined, hunreachable⟩ := problems_eq_nil.1 h
  have horbit := exists_orbit_state hentry (undefinedNext_eq_nil.1 hundefined)
  have hall : ∀ q ∈ table.states.toFinset, ∃ k, orbit table.next? k entryState = some q := by
    intro q hq
    exact unreachable_eq_nil.1 hunreachable q (mem_states.1 (List.mem_toFinset.1 hq))
  obtain ⟨hcomplete, hdistinct, hclosed⟩ := orbit_fills horbit hall
  rw [card_states] at hcomplete hdistinct hclosed
  refine ⟨?_, ?_, ?_, ?_, hclosed⟩
  · rw [← card_states, Nat.one_le_iff_ne_zero, Finset.card_ne_zero]
    exact ⟨entryState, List.mem_toFinset.2 (mem_states.2 hentry)⟩
  · intro k _
    obtain ⟨q, hq, hk⟩ := horbit k
    exact ⟨q, hk, mem_states.1 (List.mem_toFinset.1 hq)⟩
  · intro i hi j hj heq
    exact hdistinct (Finset.mem_coe.2 (Finset.mem_range.2 hi))
      (Finset.mem_coe.2 (Finset.mem_range.2 hj)) heq
  · intro q hq
    exact hcomplete q (List.mem_toFinset.2 (mem_states.2 hq))

namespace ClosedChain

theorem defines_entryState (h : table.ClosedChain) : table.defines entryState = true := by
  obtain ⟨q, hq, hdefined⟩ := h.defined 0 h.size_pos
  obtain rfl : entryState = q := Option.some.inj hq
  exact hdefined

/-- A hand-over within the chain leads on along it, and the last one leads back into it. -/
theorem defines_next (h : table.ClosedChain) (hnext : table.next? q = some next) :
    table.defines next = true := by
  have hdefines : table.defines q = true := by
    rw [← isSome_next?, hnext, Option.isSome_some]
  obtain ⟨k, hk, horbit⟩ := h.complete q hdefines
  have hstep : orbit table.next? (k + 1) entryState = some next := by
    rw [orbit_succ, horbit, Option.bind_some, hnext]
  obtain ⟨i, hi, heq⟩ : ∃ i < table.size,
      orbit table.next? (k + 1) entryState = orbit table.next? i entryState := by
    obtain hlt | hlast : k + 1 < table.size ∨ k + 1 = table.size := Nat.lt_or_eq_of_le hk
    · exact ⟨k + 1, hlt, rfl⟩
    · rw [hlast]
      exact h.closed
  obtain ⟨r, hr, hdefined⟩ := h.defined i hi
  rw [← heq, hstep] at hr
  exact Option.some.inj hr ▸ hdefined

theorem problems_eq_nil (h : table.ClosedChain) : table.problems = [] := by
  refine Table.problems_eq_nil.2 ⟨h.defines_entryState, undefinedNext_eq_nil.2 fun q next => ?_,
    unreachable_eq_nil.2 fun q hq => ?_⟩
  · exact h.defines_next
  · obtain ⟨k, -, hk⟩ := h.complete q hq
    exact ⟨k, hk⟩

end ClosedChain

/-- A table has no problems if and only if its states are one chain from the entry state on, each of
them in it once, whose last state hands over to one of them. -/
theorem problems_eq_nil_iff (table : Table) : table.problems = [] ↔ table.ClosedChain :=
  ⟨closedChain_of_problems_eq_nil, ClosedChain.problems_eq_nil⟩

/-- A chain of three states that comes back to its second. -/
theorem problems_eq_nil_iff_three :
    (ofList [⟨1, .blank, .zero, .right, 4⟩, ⟨2, .one, .one, .left, 4⟩,
      ⟨4, .zero, .one, .stay, 2⟩]).problems = [] ∧
    (ofList [⟨1, .blank, .zero, .right, 4⟩, ⟨2, .one, .one, .left, 4⟩,
      ⟨4, .zero, .one, .stay, 2⟩]).ClosedChain := by
  have hclean : (ofList [⟨1, .blank, .zero, .right, 4⟩, ⟨2, .one, .one, .left, 4⟩,
      ⟨4, .zero, .one, .stay, 2⟩]).problems = [] := by
    decide
  exact ⟨hclean, (problems_eq_nil_iff _).1 hclean⟩

end QuintupleMachine.Table
