import QuintupleMachine.Machine.Run

/-! # What one firing does

Everything that happens to a machine happens in firings.  `Fires` names the rule that fires and the
symbol under the head; `halt?_eq_none` says when there is such a rule, and `Fires.fire` says all
that a firing changes. -/

namespace QuintupleMachine

theorem Tape.lt_length_of_get? {tape : Tape} {i : Nat} {symbol : Symbol}
    (h : tape.get? i = some symbol) : i < tape.length := by
  refine Nat.lt_of_not_le fun hle => ?_
  rw [get?_eq_none.2 hle] at h
  cases h

namespace Direction

variable {head : Nat}

theorem apply_right (h : head < Number.greatest) : right.apply head = some (head + 1) := if_pos h

theorem apply_left (head : Nat) :
    left.apply head = if head = 0 then none else some (head - 1) := by
  cases head <;> rfl

theorem apply_left_of_pos (h : 0 < head) : left.apply head = some (head - 1) := by
  rw [apply_left, if_neg (Nat.pos_iff_ne_zero.1 h)]

end Direction

namespace Machine

variable {m : Machine} {table : Table} {halt : Halt} {head i q : Nat} {symbol : Symbol}
  {rule : Quintuple}

/-- The machine's rule is about to fire on the symbol under its head. -/
structure Fires (m : Machine) (head : Nat) (symbol : Symbol) (rule : Quintuple) : Prop where
  head_eq : m.head = some head
  symbol_eq : m.tape.get? head = some symbol
  state_eq : m.table.state? m.state = some ⟨rule⟩

theorem Fires.lt_length (h : m.Fires head symbol rule) : head < m.tape.length :=
  Tape.lt_length_of_get? h.symbol_eq

/-- A rule that fires is a rule for the machine's state. -/
theorem Fires.rule_state (h : m.Fires head symbol rule) : rule.state = m.state :=
  CompiledTable.number_of_state? h.state_eq

/-- A rule that fires is the one that the table has for the machine's state. -/
theorem Fires.rule_eq (h : m.Fires head symbol rule) (htable : m.table = .compile table) :
    table.get? m.state = some rule := by
  have hstate := h.state_eq
  rw [htable, CompiledTable.state?_compile] at hstate
  obtain ⟨found, hfound, hrule⟩ := Option.map_eq_some_iff.1 hstate
  cases hrule
  exact hfound

theorem Fires.mem_quintuples (h : m.Fires head symbol rule) (htable : m.table = .compile table) :
    rule ∈ table.quintuples :=
  (Table.get?_eq_some.1 (h.rule_eq htable)).1

/-- A firing writes and hands over if the rule accepts what it reads, and moves the head either
way. -/
theorem Fires.fire (h : m.Fires head symbol rule) :
    m.fire =
      { m with
        tape := if rule.accepts symbol then m.tape.set head rule.write else m.tape
        state := if rule.accepts symbol then rule.next else m.state
        head := rule.direction.apply head
        steps := m.steps + 1 } := by
  have hfiring : m.firing? = rule.fire m.tape head := by
    rw [firing?, h.head_eq, Option.bind_some, h.state_eq, Option.bind_some, CompiledState.fire_mk]
  rw [Machine.fire, hfiring, Quintuple.fire, h.symbol_eq]
  by_cases haccepts : rule.accepts symbol = true
  · simp only [haccepts, if_true, after]
  · -- A rule that does not accept goes back to its own state, which is the machine's.
    simp only [haccepts, after, h.rule_state]
    rfl

/-- A firing leaves all other cells as they are. -/
theorem Fires.get?_fire (h : m.Fires head symbol rule) (hi : i ≠ head) :
    m.fire.tape.get? i = m.tape.get? i := by
  rw [h.fire]
  split
  · rw [Tape.get?_set, if_neg fun h => hi h.1.symm]
  · rfl

theorem isHalted_eq_false_iff : m.isHalted = false ↔ m.halt? = none := by
  rw [isHalted, Option.isSome_eq_false_iff, Option.isNone_iff_eq_none]

theorem step_of_halt (h : m.halt? = some halt) : m.step = (.halted halt, m) := by
  simp only [step, h]

theorem step_of_running (h : m.halt? = none) : m.step = (.fired, m.fire) := by
  simp only [step, h]

theorem halt?_eq_none : m.halt? = none ↔ ∃ head symbol rule, m.Fires head symbol rule := by
  constructor
  · intro h
    obtain ⟨firing, hfiring⟩ := isHalted_eq_false.1 (isHalted_eq_false_iff.2 h)
    obtain ⟨head, hhead, hfiring⟩ := Option.bind_eq_some_iff.1 hfiring
    obtain ⟨⟨rule⟩, hstate, hfiring⟩ := Option.bind_eq_some_iff.1 hfiring
    cases hsymbol : m.tape.get? head with
    | none => rw [CompiledState.fire_mk, Quintuple.fire, hsymbol] at hfiring; cases hfiring
    | some symbol => exact ⟨head, symbol, rule, hhead, hsymbol, hstate⟩
  · rintro ⟨head, symbol, rule, h⟩
    simp only [halt?, h.head_eq, if_pos h.lt_length, h.state_eq, Option.isSome_some, if_true]

theorem halt?_eq_offTape :
    m.halt? = some .offTape ↔
      m.head = none ∨ ∃ head, m.head = some head ∧ m.tape.length ≤ head := by
  unfold halt?
  cases m.head with
  | none => simp
  | some head =>
    by_cases hlt : head < m.tape.length
    · cases hstate : m.table.state? m.state <;> simp [hlt]
    · simp [hlt, Nat.le_of_not_lt hlt]

theorem halt?_eq_undefinedState :
    m.halt? = some (.undefinedState q) ↔
      m.state = q ∧ m.table.state? q = none ∧ ∃ head, m.head = some head ∧ head < m.tape.length := by
  constructor
  · intro h
    unfold halt? at h
    split at h
    · cases h
    · next head hhead =>
      split at h
      · next hlt =>
        split at h
        · cases h
        · next hundefined =>
          cases h
          exact ⟨rfl, by simpa using hundefined, head, hhead, hlt⟩
      · cases h
  · rintro ⟨rfl, hstate, head, hhead, hlt⟩
    simp [halt?, hhead, hlt, hstate]

/-- Over a compiled table a state is undefined if the table has no rule for it. -/
theorem halt?_eq_undefinedState_of_compile (htable : m.table = .compile table) :
    m.halt? = some (.undefinedState q) ↔
      m.state = q ∧ table.get? q = none ∧ ∃ head, m.head = some head ∧ head < m.tape.length := by
  rw [halt?_eq_undefinedState, htable, CompiledTable.state?_compile_eq_none]

end Machine

end QuintupleMachine
