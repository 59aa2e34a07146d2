import QuintupleMachine.Proofs.Machine.Budget

/-! # Cells that a run does not visit

A machine reads and writes the cell under its head and no other.  So on tapes that agree on their
first cells, a table runs alike for as long as the head stays on those cells, and leaves all others
as they were (`Alike.stepped`).  In particular, if a run ends before its head has left the tape to
the right, more cells at the end of the tape change nothing about it (`stepped_of_agree`). -/

namespace QuintupleMachine

namespace Tape

/-- A tape with the cells of another after its own. -/
instance : Append Tape where
  append u v := ⟨u.cells ++ v.cells⟩

variable {u v : Tape} {i j : Nat}

@[simp] theorem length_append (u v : Tape) : (u ++ v).length = u.length + v.length :=
  Array.size_append

theorem get?_append (u v : Tape) (i : Nat) :
    (u ++ v).get? i = if i < u.length then u.get? i else v.get? (i - u.length) :=
  Array.getElem?_append

/-- Tapes with the same cells are equal. -/
theorem ext_get? (h : ∀ i, u.get? i = v.get? i) : u = v := by
  cases u
  cases v
  exact congrArg mk (Array.ext_getElem? h)

theorem get?_set_of_ne (tape : Tape) (symbol : Symbol) (h : i ≠ j) :
    (tape.set i symbol).get? j = tape.get? j := by
  rw [get?_set, if_neg]
  rintro ⟨rfl, -⟩
  exact h rfl

end Tape

namespace Machine

variable {m m' last : Machine} {s t u : Tape} {head k p : Nat} {symbol : Symbol}
  {rule : Quintuple}

/-- Two machines at the same point of runs on the tapes `s` and `t`.  Their tapes agree on the first
`p` cells, and the cells from there on are those of `s` and of `t`. -/
structure Alike (p : Nat) (s t : Tape) (m m' : Machine) : Prop where
  table : m'.table = m.table
  state : m'.state = m.state
  head : m'.head = m.head
  steps : m'.steps = m.steps
  near : ∀ i < p, m'.tape.get? i = m.tape.get? i
  far : ∀ i, p ≤ i → m.tape.get? i = s.get? i
  far' : ∀ i, p ≤ i → m'.tape.get? i = t.get? i
  le_length : p ≤ m.tape.length
  le_length' : p ≤ m'.tape.length

theorem alike_start (table : Table) (hs : p ≤ s.length) (ht : p ≤ t.length)
    (hagree : ∀ i < p, s.get? i = t.get? i) : Alike p s t (start table s) (start table t) where
  table := rfl
  state := rfl
  head := rfl
  steps := rfl
  near i hi := (hagree i hi).symm
  far _ _ := rfl
  far' _ _ := rfl
  le_length := hs
  le_length' := ht

namespace Alike

/-- A head on the first cells is on both tapes, and a head that is on no tape has left both. -/
theorem halt? (h : Alike p s t m m') (hhead : ∀ head, m.head = some head → head < p) :
    m'.halt? = m.halt? := by
  unfold Machine.halt?
  rw [h.head, h.table, h.state]
  cases hposition : m.head with
  | none => rfl
  | some head =>
    have hlt : head < p := hhead head hposition
    simp only [if_pos (Nat.lt_of_lt_of_le hlt h.le_length),
      if_pos (Nat.lt_of_lt_of_le hlt h.le_length')]

theorem fires (h : Alike p s t m m') (hfires : m.Fires head symbol rule) (hlt : head < p) :
    m'.Fires head symbol rule where
  head_eq := h.head.trans hfires.head_eq
  symbol_eq := (h.near head hlt).trans hfires.symbol_eq
  state_eq := by rw [h.table, h.state, hfires.state_eq]

/-- A firing with the head on the first cells changes the same cell of both tapes, and no other. -/
theorem fire (h : Alike p s t m m') (hfires : m.Fires head symbol rule) (hlt : head < p) :
    Alike p s t m.fire m'.fire := by
  have hwrite : ∀ i < p,
      (m'.tape.set head rule.write).get? i = (m.tape.set head rule.write).get? i := by
    intro i hi
    have hon : i < m.tape.length := Nat.lt_of_lt_of_le hi h.le_length
    have hon' : i < m'.tape.length := Nat.lt_of_lt_of_le hi h.le_length'
    simp only [Tape.get?_set, hon, hon', h.near i hi]
  have hapart : ∀ i, p ≤ i → head ≠ i := fun i hi => Nat.ne_of_lt (Nat.lt_of_lt_of_le hlt hi)
  rw [hfires.fire, (h.fires hfires hlt).fire]
  by_cases haccepts : rule.accepts symbol = true
  · simp only [if_pos haccepts]
    have hlength : p ≤ (m.tape.set head rule.write).length := by
      rw [Tape.length_set]
      exact h.le_length
    have hlength' : p ≤ (m'.tape.set head rule.write).length := by
      rw [Tape.length_set]
      exact h.le_length'
    refine ⟨h.table, rfl, rfl, congrArg (· + 1) h.steps, hwrite, ?_, ?_, hlength, hlength'⟩
    · intro i hi
      exact (m.tape.get?_set_of_ne rule.write (hapart i hi)).trans (h.far i hi)
    · intro i hi
      exact (m'.tape.get?_set_of_ne rule.write (hapart i hi)).trans (h.far' i hi)
  · simp only [if_neg haccepts]
    exact ⟨h.table, h.state, rfl, congrArg (· + 1) h.steps, h.near, h.far, h.far', h.le_length,
      h.le_length'⟩

/-- A step with the head on the first cells does the same to both machines. -/
theorem step (h : Alike p s t m m') (hhead : m.head = some head) (hlt : head < p) :
    m.step.1 = m'.step.1 ∧ Alike p s t m.step.2 m'.step.2 := by
  have hhalt : m'.halt? = m.halt? := by
    refine h.halt? ?_
    intro position hposition
    rw [hhead] at hposition
    cases hposition
    exact hlt
  unfold Machine.step
  rw [hhalt]
  cases hm : m.halt? with
  | some halt => exact ⟨rfl, h⟩
  | none =>
    obtain ⟨position, symbol, rule, hfires⟩ := halt?_eq_none.1 hm
    have hposition : position = head := Option.some.inj (hfires.head_eq.symm.trans hhead)
    subst hposition
    exact ⟨rfl, h.fire hfires hlt⟩

/-- Steps do the same to both machines, as long as the head is on the first cells before each. -/
theorem stepped (h : Alike p s t m m')
    (hheads : ∀ i < k, ∃ head, (m.stepped i).head = some head ∧ head < p) :
    (∀ i < k, (m.stepped i).step.1 = (m'.stepped i).step.1) ∧
      Alike p s t (m.stepped k) (m'.stepped k) := by
  induction k generalizing m m' with
  | zero => exact ⟨fun _ hi => absurd hi (Nat.not_lt_zero _), h⟩
  | succ k ih =>
    obtain ⟨head, hhead, hlt⟩ := hheads 0 (Nat.succ_pos k)
    obtain ⟨hreply, hnext⟩ := h.step hhead hlt
    obtain ⟨hreplies, hlast⟩ := ih hnext fun i hi => hheads (i + 1) (Nat.succ_lt_succ hi)
    refine ⟨?_, hlast⟩
    intro i hi
    cases i with
    | zero => exact hreply
    | succ i => exact hreplies i (Nat.lt_of_succ_lt_succ hi)

/-- Where no cell of `u` is left out, the longer tape is the shorter one with the rest behind. -/
theorem tape_eq {v : Tape} (h : Alike u.length u (u ++ v) m m')
    (hlength : m.tape.length = u.length) : m'.tape = m.tape ++ v := by
  apply Tape.ext_get?
  intro i
  rw [Tape.get?_append, hlength]
  by_cases hi : i < u.length
  · rw [if_pos hi, h.near i hi]
  · rw [if_neg hi, h.far' i (Nat.le_of_not_lt hi), Tape.get?_append, if_neg hi]

end Alike

/-- Before each of its firings a machine has its head on the tape. -/
theorem Fired.exists_head (h : m.Fired k last) {i : Nat} (hi : i < k) :
    ∃ head, (m.stepped i).head = some head ∧ head < m.tape.length := by
  obtain ⟨hfired, hrunning⟩ := h.of_lt hi
  obtain ⟨head, symbol, rule, hfires⟩ := halt?_eq_none.1 hrunning
  rw [stepped_eq_advance]
  refine ⟨head, hfires.head_eq, ?_⟩
  rw [← hfired.length_eq]
  exact hfires.lt_length

/-- On tapes that agree on their first `p` cells, steps reply the same and do the same for as long
as the head is on these cells before each of them, and they leave the cells from there on as they
were.  In particular, a run that ends on its tape or to the left of it ends the same way on a longer
tape, after as many firings and with the added cells as they were. -/
theorem stepped_of_agree (table : Table) :
    (∀ (s t : Tape) (p k : Nat), p ≤ s.length → p ≤ t.length →
      (∀ i < p, s.get? i = t.get? i) →
      (∀ i < k, ∃ head, ((start table s).stepped i).head = some head ∧ head < p) →
      (∀ i < k, ((start table s).stepped i).step.1 = ((start table t).stepped i).step.1) ∧
        Alike p s t ((start table s).stepped k) ((start table t).stepped k)) ∧
    ∀ (u v : Tape) (halt : Halt) (last : Machine), (start table u).run = some (halt, last) →
      (∃ q, halt = .undefinedState q) ∨ last.head = none →
      ∃ last', (start table (u ++ v)).run = some (halt, last') ∧ last'.state = last.state ∧
        last'.head = last.head ∧ last'.steps = last.steps ∧ last'.tape = last.tape ++ v := by
  constructor
  · intro s t p k hs ht hst hheads
    exact (alike_start table hs ht hst).stepped hheads
  intro u v halt last hrun hend
  obtain ⟨n, rfl, hhalt⟩ := run_eq_some.1 hrun
  obtain ⟨k, -, hfired, -⟩ := exists_fired n (start table u)
  have hlength : ((start table u).advance n).tape.length = u.length := hfired.length_eq
  have hstart : Alike u.length u (u ++ v) (start table u) (start table (u ++ v)) := by
    refine alike_start table (Nat.le_refl _) ?_ ?_
    · rw [Tape.length_append]
      exact Nat.le_add_right _ _
    · intro i hi
      rw [Tape.get?_append, if_pos hi]
  obtain ⟨-, halike⟩ := hstart.stepped fun i hi => hfired.exists_head hi
  simp only [stepped_eq_advance, hfired.advance_eq] at halike
  -- Unless the run has left the tape to the left, it has ended in a state on one of its cells.
  have hhead : ∀ head, ((start table u).advance n).head = some head → head < u.length := by
    intro head hhead
    rcases hend with ⟨q, rfl⟩ | hnone
    · obtain ⟨-, -, position, hposition, hlt⟩ := halt?_eq_undefinedState.1 hhalt
      rw [hhead] at hposition
      cases hposition
      exact hlength ▸ hlt
    · rw [hnone] at hhead
      cases hhead
  refine ⟨(start table (u ++ v)).advance k, run_eq_some.2 ⟨k, rfl, ?_⟩, halike.state, halike.head,
    halike.steps, halike.tape_eq hlength⟩
  rw [halike.halt? hhead, hhalt]

/-- A machine that writes two cells and comes back to the first, where it has no rule. -/
theorem stepped_of_agree_back :
    (∀ i < 3, ∃ head, ((start (.ofList [⟨1, .blank, .one, .right, 2⟩, ⟨2, .blank, .zero, .left, 3⟩])
      (.blank 2)).stepped i).head = some head ∧ head < 2) ∧
    Alike 2 (.blank 2) (.blank 2 ++ ⟨#[.one]⟩)
      ((start (.ofList [⟨1, .blank, .one, .right, 2⟩, ⟨2, .blank, .zero, .left, 3⟩])
        (.blank 2)).stepped 3)
      ((start (.ofList [⟨1, .blank, .one, .right, 2⟩, ⟨2, .blank, .zero, .left, 3⟩])
        (.blank 2 ++ ⟨#[.one]⟩)).stepped 3) ∧
    ∃ last last',
      (start (.ofList [⟨1, .blank, .one, .right, 2⟩, ⟨2, .blank, .zero, .left, 3⟩])
        (.blank 2)).run = some (.undefinedState 3, last) ∧
      (start (.ofList [⟨1, .blank, .one, .right, 2⟩, ⟨2, .blank, .zero, .left, 3⟩])
        (.blank 2 ++ ⟨#[.one]⟩)).run = some (.undefinedState 3, last') ∧
      last'.steps = 2 ∧ last'.tape = ⟨#[.one, .zero, .one]⟩ := by
  have hheads : ∀ i < 3, ∃ head,
      ((start (.ofList [⟨1, .blank, .one, .right, 2⟩, ⟨2, .blank, .zero, .left, 3⟩])
        (.blank 2)).stepped i).head = some head ∧ head < 2 := by
    intro i hi
    obtain rfl | rfl | rfl : i = 0 ∨ i = 1 ∨ i = 2 := by omega
    · exact ⟨0, rfl, Nat.zero_lt_two⟩
    · exact ⟨1, rfl, Nat.one_lt_two⟩
    · exact ⟨0, rfl, Nat.zero_lt_two⟩
  have hagree : ∀ i < 2, (Tape.blank 2).get? i = (Tape.blank 2 ++ ⟨#[.one]⟩).get? i := by
    decide
  obtain ⟨last', hrun', -, -, hsteps, htape⟩ := (stepped_of_agree
    (.ofList [⟨1, .blank, .one, .right, 2⟩, ⟨2, .blank, .zero, .left, 3⟩])).2 (.blank 2)
      ⟨#[.one]⟩ (.undefinedState 3) _ rfl (.inl ⟨3, rfl⟩)
  exact ⟨hheads, ((stepped_of_agree _).1 _ _ 2 3 (by decide) (by decide) hagree hheads).2, _, last',
    rfl, hrun', hsteps, htape⟩

end Machine

end QuintupleMachine
