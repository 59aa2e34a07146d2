import QuintupleMachine.Diagnosis
import QuintupleMachine.Proofs.Orbit
import QuintupleMachine.Proofs.Table

/-! # What a diagnosis lists

The chain of states that a diagnosis walks along stops after as many hand-overs as there are
states.  It nevertheless contains every state that any number of hand-overs leads to
(`mem_reachable`), so the lists of a diagnosis mean what they are called. -/

namespace QuintupleMachine

namespace Ascending

theorem mem_insert_self_key {a b : Nat} {l : List Nat} :
    b ∈ insert (fun n => n) a l ↔ b = a ∨ b ∈ l := by
  induction l with
  | nil => simp [insert]
  | cons c cs ih =>
    unfold insert
    split
    · simp
    · split
      · next heq => simp [heq]
      · rw [List.mem_cons, ih, List.mem_cons, or_left_comm]

/-- Ordering numbers neither loses nor adds any. -/
theorem mem_ofList_self_key {a : Nat} {l : List Nat} : a ∈ ofList (fun n => n) l ↔ a ∈ l := by
  suffices ∀ done : List Nat,
      a ∈ l.foldl (fun done a => insert (fun n => n) a done) done ↔ a ∈ done ∨ a ∈ l by
    simpa [ofList] using this []
  induction l with
  | nil => simp
  | cons b bs ih =>
    intro done
    rw [List.foldl_cons, ih, mem_insert_self_key, List.mem_cons]
    grind

end Ascending

namespace Table

variable {table : Table} {q next : Nat} {l : List Nat}

theorem get?_eq_none : table.get? q = none ↔ table.defines q = false := by
  rw [defines, Option.isSome_eq_false_iff, Option.isNone_iff_eq_none]

theorem mem_undefinedNext :
    q ∈ table.undefinedNext ↔
      (∃ rule ∈ table.quintuples, rule.next = q) ∧ table.defines q = false := by
  rw [undefinedNext, Ascending.mem_ofList_self_key, List.mem_filter, List.mem_map,
    Bool.not_eq_true']

/-! ## Reachable states -/

theorem next?_of_get? {rule : Quintuple} (h : table.get? q = some rule) :
    table.next? q = some rule.next := by
  rw [next?, h, Option.map_some]

/-- Only defined states hand over. -/
theorem isSome_next? (table : Table) (q : Nat) : (table.next? q).isSome = table.defines q :=
  Option.isSome_map

theorem exists_rule_of_next? (h : table.next? q = some next) :
    ∃ rule ∈ table.quintuples, rule.state = q ∧ rule.next = next := by
  obtain ⟨rule, hrule, hnext⟩ := Option.map_eq_some_iff.1 h
  obtain ⟨hmem, hstate⟩ := get?_eq_some.1 hrule
  exact ⟨rule, hmem, hstate, hnext⟩

/-- All hand-overs lead to defined states exactly if none is listed as undefined. -/
theorem undefinedNext_eq_nil :
    table.undefinedNext = [] ↔ ∀ q next, table.next? q = some next → table.defines next = true := by
  rw [List.eq_nil_iff_forall_not_mem]
  constructor
  · intro h q next hnext
    obtain ⟨rule, hmem, -, hrule⟩ := exists_rule_of_next? hnext
    rw [← Bool.not_eq_false]
    intro hundefined
    exact h next (mem_undefinedNext.2 ⟨⟨rule, hmem, hrule⟩, hundefined⟩)
  · intro h q hq
    obtain ⟨⟨rule, hmem, rfl⟩, hundefined⟩ := mem_undefinedNext.1 hq
    have hdefined := h rule.state rule.next (next?_of_get? (get?_eq_some.2 ⟨hmem, rfl⟩))
    rw [hundefined] at hdefined
    cases hdefined

/-- The states of a chain are those that its hand-overs lead to. -/
theorem mem_chain {n state : Nat} :
    q ∈ table.chain n state ↔ ∃ k, k ≤ n ∧ orbit table.next? k state = some q := by
  induction n generalizing state with
  | zero => simp [chain, orbit, eq_comm]
  | succ n ih =>
    rw [exists_orbit_succ, chain]
    cases table.next? state with
    | none => simp [eq_comm]
    | some next => simp [ih, eq_comm]

/-- No chain hands over in more places than there are states. -/
theorem mem_states_of_next? (n b : Nat) (_ : orbit table.next? n entryState = some b)
    (hb : (table.next? b).isSome) : b ∈ table.states.toFinset := by
  rw [isSome_next?] at hb
  exact List.mem_toFinset.2 (mem_states.2 hb)

/-- The reachable states are those that hand-overs lead to from the entry state. -/
theorem mem_reachable : q ∈ table.reachable ↔ ∃ k, orbit table.next? k entryState = some q := by
  rw [reachable, mem_chain]
  constructor
  · rintro ⟨k, -, h⟩
    exact ⟨k, h⟩
  · rintro ⟨k, h⟩
    obtain ⟨m, hm, h⟩ := exists_orbit_le_card mem_states_of_next? h
    exact ⟨m, hm.trans table.card_states.le, h⟩

theorem entryState_mem_reachable : entryState ∈ table.reachable := mem_reachable.2 ⟨0, rfl⟩

/-- What a reachable state hands over to is reachable. -/
theorem next_mem_reachable (h : q ∈ table.reachable)
    (hnext : table.next? q = some next) : next ∈ table.reachable := by
  obtain ⟨k, hk⟩ := mem_reachable.1 h
  refine mem_reachable.2 ⟨k + 1, ?_⟩
  rw [orbit_succ, hk, Option.bind_some, hnext]

theorem mem_unreachable :
    q ∈ table.unreachable ↔ table.defines q = true ∧ q ∉ table.reachable := by
  rw [unreachable, statesOutside, List.mem_filter, mem_states]
  simp

theorem unreachable_eq_nil :
    table.unreachable = [] ↔
      ∀ q, table.defines q = true → ∃ k, orbit table.next? k entryState = some q := by
  rw [List.eq_nil_iff_forall_not_mem]
  simp only [mem_unreachable, mem_reachable, not_and, not_not]

/-! ## Problems -/

theorem missingEntry_mem_problems :
    .missingEntry ∈ table.problems ↔ table.defines entryState = false := by
  unfold problems
  grind

theorem undefinedNext_mem_problems :
    .undefinedNext l ∈ table.problems ↔ l = table.undefinedNext ∧ l ≠ [] := by
  unfold problems
  grind

theorem unreachable_mem_problems :
    .unreachable l ∈ table.problems ↔
      table.defines entryState = true ∧ l = table.unreachable ∧ l ≠ [] := by
  unfold problems
  grind

theorem problems_eq_nil :
    table.problems = [] ↔
      table.defines entryState = true ∧ table.undefinedNext = [] ∧ table.unreachable = [] := by
  unfold problems
  grind

theorem check_eq_ok : table.check = .ok () ↔ table.problems = [] := by
  unfold check
  cases table.problems <;> simp

end Table

end QuintupleMachine
