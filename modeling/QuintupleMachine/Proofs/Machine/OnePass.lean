import QuintupleMachine.Proofs.Machine.Locality

/-! # Tables that only move to the right

A table all of whose rules move the head to the right never comes back to a cell.  Each firing takes
the head one cell further, so a run comes to an end no later than at the end of the tape, and every
cell it has not come to is as it was (`Fired.swept`, by induction on the firings).

What such a run has done to a tape is therefore settled when the head leaves it: a longer tape that
begins with the same cells ends up with the same symbols in them (`one_pass`). -/

namespace QuintupleMachine

/-- All rules of the table move the head to the right. -/
def Table.MovesRight (table : Table) : Prop :=
  ∀ rule ∈ table.quintuples, rule.direction = .right

instance (table : Table) : Decidable table.MovesRight :=
  inferInstanceAs (Decidable (∀ rule ∈ table.quintuples, rule.direction = .right))

namespace Tape

variable {u v : Tape} {n : Nat}

/-- The first cells of a tape. -/
def take (tape : Tape) (n : Nat) : Tape := ⟨tape.cells.take n⟩

theorem get?_take (tape : Tape) (n i : Nat) :
    (tape.take n).get? i = if i < n then tape.get? i else none := by
  simp only [take, get?, Array.take_eq_extract, Array.getElem?_extract, Nat.sub_zero, Nat.zero_add]
  by_cases hi : i < tape.cells.size
  · simp [hi]
  · simp [hi]

/-- A tape is what another begins with, if its cells are those of the other. -/
theorem take_eq (hlength : u.length = n) (h : ∀ i < n, v.get? i = u.get? i) : v.take n = u := by
  apply ext_get?
  intro i
  rw [get?_take]
  by_cases hi : i < n
  · rw [if_pos hi, h i hi]
  · rw [if_neg hi, get?_eq_none.2 (hlength ▸ Nat.le_of_not_lt hi)]

end Tape

namespace Machine

variable {m m' last : Machine} {table : Table} {halt : Halt} {symbol : Symbol} {rule : Quintuple}
  {u v : Tape} {head k : Nat}

/-- The machine runs a table whose rules all move the head to the right, and there is a position for
the head on each of its cells and right after the last. -/
structure Sweeps (m : Machine) (table : Table) : Prop where
  table_eq : m.table = .compile table
  right : table.MovesRight
  length_le : m.tape.length ≤ Number.greatest

/-- The machine's head has moved from `head` over `k` cells, and no other cell has changed. -/
structure Swept (m : Machine) (head k : Nat) (last : Machine) : Prop where
  head_eq : last.head = some (head + k)
  le_length : head + k ≤ m.tape.length
  before : ∀ i < head, last.tape.get? i = m.tape.get? i
  behind : ∀ i, head + k ≤ i → last.tape.get? i = m.tape.get? i

/-- What a machine has on its tape does not matter, nor does its state. -/
theorem Sweeps.of_eq (h : m.Sweeps table) (htable : m'.table = m.table)
    (hlength : m'.tape.length = m.tape.length) : m'.Sweeps table :=
  ⟨htable.trans h.table_eq, h.right, hlength ▸ h.length_le⟩

/-- A firing moves the head over one cell. -/
theorem Sweeps.head_fire (h : m.Sweeps table) (hfires : m.Fires head symbol rule) :
    m.fire.head = some (head + 1) := by
  rw [hfires.fire]
  dsimp only
  rw [h.right rule (hfires.mem_quintuples h.table_eq)]
  exact Direction.apply_right (hfires.lt_length.trans_le h.length_le)

/-- Firings move the head over as many cells. -/
theorem Fired.swept (h : m.Fired k last) (hsweeps : m.Sweeps table) (hhead : m.head = some head)
    (hle : head ≤ m.tape.length) : Swept m head k last := by
  induction h generalizing head with
  | refl m => exact ⟨hhead, hle, fun _ _ => rfl, fun _ _ => rfl⟩
  | @step m next last k first rest ih =>
    obtain ⟨hrunning, rfl⟩ := step_eq_fired.1 first
    obtain ⟨position, symbol, rule, hfires⟩ := halt?_eq_none.1 hrunning
    obtain rfl : position = head := Option.some.inj (hfires.head_eq.symm.trans hhead)
    have hlength : m.fire.tape.length = m.tape.length := length_fire m
    have hnext := ih (hsweeps.of_eq (table_fire m) hlength) (hsweeps.head_fire hfires)
      (hlength ▸ hfires.lt_length)
    have hend : position + 1 + k = position + (k + 1) := Nat.add_right_comm position 1 k
    refine ⟨?_, ?_, ?_, ?_⟩
    · rw [hnext.head_eq, hend]
    · rw [← hend, ← hlength]
      exact hnext.le_length
    · intro i hi
      rw [hnext.before i (Nat.lt_succ_of_lt hi), hfires.get?_fire hi.ne]
    · intro i hi
      have hbehind : position < i := by omega
      rw [hnext.behind i (hend.le.trans hi), hfires.get?_fire hbehind.ne']

/-- The cells in front of the head bound the firings that are left. -/
theorem Sweeps.exists_halt (h : m.Sweeps table) (hhead : m.head = some head)
    (hle : head ≤ m.tape.length) :
    ∃ k halt last, m.Fired k last ∧ last.halt? = some halt ∧ Swept m head k last := by
  obtain ⟨k, -, hfired, hall⟩ := exists_fired (m.tape.length + 1) m
  have hswept := hfired.swept h hhead hle
  cases hhalt : (m.advance (m.tape.length + 1)).halt? with
  | some halt => exact ⟨k, halt, _, hfired, hhalt, hswept⟩
  | none =>
    have hlength := hswept.le_length
    rw [hall hhalt] at hlength
    omega

/-- A machine that has stopped has come to the end of the tape, or to a state without a rule before
that. -/
theorem Swept.halt_cases (h : Swept m head k last) (hlength : last.tape.length = m.tape.length)
    (hhalt : last.halt? = some halt) :
    (halt = .offTape ∧ head + k = m.tape.length) ∨
      ∃ q, halt = .undefinedState q ∧ head + k < m.tape.length := by
  cases halt with
  | offTape =>
    refine .inl ⟨rfl, Nat.le_antisymm h.le_length ?_⟩
    rcases halt?_eq_offTape.1 hhalt with hnone | ⟨position, hposition, hoff⟩
    · rw [h.head_eq] at hnone
      cases hnone
    · rw [h.head_eq] at hposition
      cases hposition
      exact hlength ▸ hoff
  | undefinedState q =>
    obtain ⟨-, -, position, hposition, hlt⟩ := halt?_eq_undefinedState.1 hhalt
    rw [h.head_eq] at hposition
    cases hposition
    exact .inr ⟨q, rfl, hlength ▸ hlt⟩

/-- With more cells at the end of the tape, a run does the same up to where it would stop without
them. -/
theorem alike_of_fired (h : (start table u).Fired k last) (v : Tape) :
    Alike u.length u (u ++ v) last ((start table (u ++ v)).stepped k) := by
  have hstart : Alike u.length u (u ++ v) (start table u) (start table (u ++ v)) := by
    refine alike_start table (Nat.le_refl _) ?_ ?_
    · rw [Tape.length_append]
      exact Nat.le_add_right _ _
    · intro i hi
      rw [Tape.get?_append, if_pos hi]
  have halike := (hstart.stepped fun i hi => h.exists_head hi).2
  rwa [stepped_eq_advance k (start table u), h.advance_eq] at halike

/-- A longer tape that begins with the cells of another ends up with the same symbols in them. -/
theorem exists_run_append (hright : table.MovesRight) (h : (start table u).Fired k last)
    (hhalt : last.halt? = some halt) (hlength : (u ++ v).length ≤ Number.greatest) :
    ∃ halt' last', (start table (u ++ v)).run = some (halt', last') ∧
      last'.tape.take u.length = last.tape := by
  have hle : u.length ≤ (u ++ v).length := by
    rw [Tape.length_append]
    exact Nat.le_add_right _ _
  have hswept : Swept (start table u) 0 k last :=
    h.swept ⟨rfl, hright, hle.trans hlength⟩ rfl (Nat.zero_le _)
  have halike := alike_of_fired h v
  have hhead : last.head = some k := by rw [hswept.head_eq, Nat.zero_add]
  rcases hswept.halt_cases h.length_eq hhalt with ⟨-, hend⟩ | ⟨q, -, hlt⟩
  · -- The head has left the shorter tape, and goes on from there on the longer one.
    have hk : k = u.length := (Nat.zero_add k).symm.trans hend
    have hstart : (start table (u ++ v)).Sweeps table := ⟨rfl, hright, hlength⟩
    have hsweeps : ((start table (u ++ v)).stepped k).Sweeps table :=
      hstart.of_eq (table_stepped k _) (length_stepped k _)
    obtain ⟨more, halt', last', hmore, hhalt', hrest⟩ :=
      hsweeps.exists_halt (halike.head.trans hhead) (hk.le.trans halike.le_length')
    refine ⟨halt', last', run_eq_some.2 ⟨k + more, ?_, hhalt'⟩, Tape.take_eq h.length_eq ?_⟩
    · rw [advance_add, ← stepped_eq_advance k, hmore.advance_eq]
    · intro i hi
      rw [hrest.before i (hk ▸ hi), halike.near i hi]
  · -- The head is on the shorter tape, so the state without a rule stops it on the longer one too.
    have hhalt' : ((start table (u ++ v)).stepped k).halt? = some halt := by
      rw [halike.halt?, hhalt]
      intro head hposition
      rw [hhead] at hposition
      cases hposition
      exact (Nat.zero_add k).symm.trans_lt hlt
    exact ⟨halt, _, run_eq_some.2 ⟨k, stepped_eq_advance k _, hhalt'⟩,
      Tape.take_eq h.length_eq halike.near⟩

/-- A table that only moves to the right makes one pass over any tape whose length is a 64-bit
number, and halts.  Either it fires once on each cell and leaves the tape at its end, or it comes to
a state without a rule before that, and the cells from there on are as they were.  The symbols that
it leaves in the cells of a tape do not depend on what cells come after them. -/
theorem one_pass (table : Table) (hright : table.MovesRight) (u : Tape)
    (hlength : u.length ≤ Number.greatest) :
    ∃ k halt last, (start table u).Fired k last ∧ (start table u).run = some (halt, last) ∧
      last.steps = k ∧ last.head = some k ∧
      ((halt = .offTape ∧ k = u.length) ∨
        ∃ q, halt = .undefinedState q ∧ k < u.length ∧
          ∀ i, k ≤ i → last.tape.get? i = u.get? i) ∧
      ∀ v, (u ++ v).length ≤ Number.greatest →
        ∃ halt' last', (start table (u ++ v)).run = some (halt', last') ∧
          last'.tape.take u.length = last.tape := by
  have hsweeps : (start table u).Sweeps table := ⟨rfl, hright, hlength⟩
  obtain ⟨k, halt, last, hfired, hhalt, hswept⟩ := hsweeps.exists_halt rfl (Nat.zero_le _)
  have hcases := hswept.halt_cases hfired.length_eq hhalt
  have hbehind := hswept.behind
  rw [Nat.zero_add] at hcases hbehind
  refine ⟨k, halt, last, hfired, hfired.run hhalt, ?_, ?_, ?_, ?_⟩
  · rw [hfired.steps_eq]
    exact Nat.zero_add k
  · rw [hswept.head_eq, Nat.zero_add]
  · rcases hcases with hend | ⟨q, hundefined, hlt⟩
    · exact .inl hend
    · exact .inr ⟨q, hundefined, hlt, hbehind⟩
  · intro v hv
    exact exists_run_append hright hfired hhalt hv

/-- A table that replaces a blank and then looks for a zero to replace.  It finds one in the longer
tape only. -/
theorem one_pass_blank :
    (Table.ofList [⟨1, .blank, .one, .right, 2⟩, ⟨2, .zero, .one, .right, 3⟩]).MovesRight ∧
    ∃ last halt' last',
      (start (.ofList [⟨1, .blank, .one, .right, 2⟩, ⟨2, .zero, .one, .right, 3⟩])
        (.blank 2)).run = some (.offTape, last) ∧
      last.tape = ⟨#[.one, .blank]⟩ ∧
      (start (.ofList [⟨1, .blank, .one, .right, 2⟩, ⟨2, .zero, .one, .right, 3⟩])
        (.blank 2 ++ ⟨#[.zero, .one]⟩)).run = some (halt', last') ∧
      last'.tape.take 2 = last.tape := by
  have hright :
      (Table.ofList [⟨1, .blank, .one, .right, 2⟩, ⟨2, .zero, .one, .right, 3⟩]).MovesRight := by
    decide
  obtain ⟨k, halt, last, -, hrun, -, -, -, hprefix⟩ :=
    one_pass _ hright (.blank 2) (by decide)
  obtain ⟨halt', last', hrun', htake⟩ := hprefix ⟨#[.zero, .one]⟩ (by decide)
  have hshort : (start (.ofList [⟨1, .blank, .one, .right, 2⟩, ⟨2, .zero, .one, .right, 3⟩])
      (.blank 2)).run = some (.offTape, _) := rfl
  cases hrun.symm.trans hshort
  exact ⟨hright, _, halt', last', rfl, rfl, hrun', htake⟩

end Machine

end QuintupleMachine
