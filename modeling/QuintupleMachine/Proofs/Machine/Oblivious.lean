import QuintupleMachine.Proofs.Machine.Locality

/-! # Oblivious runs

The notation has no sign for "any symbol": a rule that reads the blank fires on every cell, the blank
cell among them.  So a table whose rules all read the blank never looks at its tape.  What is on the
tape decides neither where the head goes nor what is written, only how many cells there are does;
the cells that the head has fired on hold what was written there, and all others what they held at
the start (`stepped_of_reads_blank`). -/

namespace QuintupleMachine.Machine

variable {m m' : Machine} {s t : Tape} {head i k : Nat} {symbol : Symbol} {rule : Quintuple}
  {visited visited' : Nat → Prop}

/-- The machine fires with its head on a cell in one of its next `k` steps. -/
def FiresOn (m : Machine) (k i : Nat) : Prop :=
  ∃ n < k, ∃ symbol rule, (m.stepped n).Fires i symbol rule

theorem firesOn_succ :
    m.FiresOn (k + 1) i ↔ m.FiresOn k i ∨ ∃ symbol rule, (m.stepped k).Fires i symbol rule := by
  constructor
  · rintro ⟨n, hn, hfires⟩
    rcases Nat.lt_succ_iff_lt_or_eq.1 hn with hlt | rfl
    · exact .inl ⟨n, hlt, hfires⟩
    · exact .inr hfires
  · rintro (⟨n, hn, hfires⟩ | hfires)
    · exact ⟨n, Nat.lt_succ_of_lt hn, hfires⟩
    · exact ⟨k, Nat.lt_succ_self k, hfires⟩

/-- Only the cell under the head can be fired on. -/
theorem Fires.exists_iff (h : m.Fires head symbol rule) :
    (∃ symbol rule, m.Fires i symbol rule) ↔ i = head := by
  constructor
  · rintro ⟨_, _, hfires⟩
    exact Option.some.inj (hfires.head_eq.symm.trans h.head_eq)
  · rintro rfl
    exact ⟨symbol, rule, h⟩

/-- Two machines at the same point of runs on the tapes `s` and `t`, which have as many cells.  Their
tapes agree on the visited cells, and the other cells are those of `s` and of `t`. -/
structure InStep (visited : Nat → Prop) (s t : Tape) (m m' : Machine) : Prop where
  table : m'.table = m.table
  state : m'.state = m.state
  head : m'.head = m.head
  steps : m'.steps = m.steps
  length : m'.tape.length = m.tape.length
  seen : ∀ i, visited i → m'.tape.get? i = m.tape.get? i
  unseen : ∀ i, ¬ visited i → m.tape.get? i = s.get? i
  unseen' : ∀ i, ¬ visited i → m'.tape.get? i = t.get? i

theorem inStep_start (table : Table) (hlength : s.length = t.length) (h : ∀ i, ¬ visited i) :
    InStep visited s t (start table s) (start table t) where
  table := rfl
  state := rfl
  head := rfl
  steps := rfl
  length := hlength.symm
  seen i hi := absurd hi (h i)
  unseen _ _ := rfl
  unseen' _ _ := rfl

namespace InStep

theorem symm (h : InStep visited s t m m') : InStep visited t s m' m where
  table := h.table.symm
  state := h.state.symm
  head := h.head.symm
  steps := h.steps.symm
  length := h.length.symm
  seen i hi := (h.seen i hi).symm
  unseen := h.unseen'
  unseen' := h.unseen

theorem congr (h : InStep visited s t m m') (hiff : ∀ i, visited i ↔ visited' i) :
    InStep visited' s t m m' := by
  obtain rfl : visited = visited' := funext fun i => propext (hiff i)
  exact h

/-- What halts a machine can be told without its cells. -/
theorem halt? (h : InStep visited s t m m') : m'.halt? = m.halt? := by
  unfold Machine.halt?
  rw [h.head, h.length, h.table, h.state]

/-- Where one machine fires, the other fires the same rule, on whatever symbol is there. -/
theorem exists_fires (h : InStep visited s t m m') (hfires : m.Fires head symbol rule) :
    ∃ symbol', m'.Fires head symbol' rule := by
  have hrunning : m'.halt? = none := h.halt?.trans (halt?_eq_none.2 ⟨head, symbol, rule, hfires⟩)
  obtain ⟨head', symbol', rule', hfires'⟩ := halt?_eq_none.1 hrunning
  have hhead : head' = head :=
    Option.some.inj (hfires'.head_eq.symm.trans (h.head.trans hfires.head_eq))
  have hrule : rule' = rule := by
    have hstate := hfires'.state_eq
    rw [h.table, h.state, hfires.state_eq] at hstate
    cases hstate
    rfl
  subst hhead hrule
  exact ⟨symbol', hfires'⟩

/-- A rule that reads the blank writes on both tapes, and so they agree on one more cell. -/
theorem fire (h : InStep visited s t m m') (hfires : m.Fires head symbol rule)
    (hblank : rule.read = .blank) :
    InStep (fun i => visited i ∨ i = head) s t m.fire m'.fire := by
  have haccepts : ∀ symbol, rule.accepts symbol = true :=
    fun _ => Quintuple.accepts_iff.2 (.inl hblank)
  obtain ⟨symbol', hfires'⟩ := h.exists_fires hfires
  rw [hfires.fire, hfires'.fire]
  simp only [haccepts, if_true]
  refine ⟨h.table, rfl, rfl, congrArg (· + 1) h.steps, ?_, ?_, ?_, ?_⟩
  · rw [Tape.length_set, Tape.length_set, h.length]
  · intro i hi
    rw [Tape.get?_set, Tape.get?_set, h.length]
    by_cases hwritten : head = i ∧ i < m.tape.length
    · rw [if_pos hwritten, if_pos hwritten]
    · rw [if_neg hwritten, if_neg hwritten]
      rcases hi with hi | rfl
      · exact h.seen i hi
      · exact absurd ⟨rfl, hfires.lt_length⟩ hwritten
  · intro i hi
    rw [not_or] at hi
    exact (m.tape.get?_set_of_ne rule.write (Ne.symm hi.2)).trans (h.unseen i hi.1)
  · intro i hi
    rw [not_or] at hi
    exact (m'.tape.get?_set_of_ne rule.write (Ne.symm hi.2)).trans (h.unseen' i hi.1)

theorem step_fst (h : InStep visited s t m m') : m.step.1 = m'.step.1 := by
  cases hm : m.halt? with
  | some halt => rw [step_of_halt hm, step_of_halt (h.halt?.trans hm)]
  | none => rw [step_of_running hm, step_of_running (h.halt?.trans hm)]

/-- A step keeps two machines in step, and if it fires, the cell under their heads is visited. -/
theorem step {table : Table} (h : InStep visited s t m m') (htable : m.table = .compile table)
    (hblank : ∀ rule ∈ table.quintuples, rule.read = .blank) :
    InStep (fun i => visited i ∨ ∃ symbol rule, m.Fires i symbol rule) s t m.step.2 m'.step.2 := by
  cases hm : m.halt? with
  | some halt =>
    rw [step_of_halt hm, step_of_halt (h.halt?.trans hm)]
    refine h.congr fun i => ⟨.inl, ?_⟩
    rintro (hi | ⟨symbol, rule, hfires⟩)
    · exact hi
    · rw [halt?_eq_none.2 ⟨i, symbol, rule, hfires⟩] at hm
      cases hm
  | none =>
    obtain ⟨head, symbol, rule, hfires⟩ := halt?_eq_none.1 hm
    rw [step_of_running hm, step_of_running (h.halt?.trans hm)]
    refine (h.fire hfires (hblank rule (hfires.mem_quintuples htable))).congr fun i => ?_
    rw [hfires.exists_iff]

/-- Where two machines are in step and one has been on a cell, both hold the same symbol there. -/
theorem exists_symbol (h : InStep visited s t m m') (hi : visited i) (hlt : i < m.tape.length) :
    ∃ symbol, m.tape.get? i = some symbol ∧ m'.tape.get? i = some symbol := by
  have hcell : m.tape.get? i ≠ none := fun hnone =>
    absurd (Tape.get?_eq_none.1 hnone) (Nat.not_le_of_lt hlt)
  obtain ⟨symbol, hsymbol⟩ := Option.ne_none_iff_exists'.1 hcell
  exact ⟨symbol, hsymbol, (h.seen i hi).trans hsymbol⟩

end InStep

/-- Runs of a table whose rules all read the blank are in step for ever. -/
theorem inStep_stepped {table : Table} (hblank : ∀ rule ∈ table.quintuples, rule.read = .blank)
    (hlength : s.length = t.length) (k : Nat) :
    InStep ((start table s).FiresOn k) s t ((start table s).stepped k)
      ((start table t).stepped k) := by
  induction k with
  | zero =>
    refine inStep_start table hlength ?_
    rintro i ⟨n, hn, -⟩
    exact Nat.not_lt_zero n hn
  | succ k ih =>
    rw [stepped_succ, stepped_succ]
    exact (ih.step (table_stepped k _) hblank).congr fun i => firesOn_succ.symm

/-- If all rules of a table read the blank, its runs on tapes with as many cells cannot be told apart
by replies, states, heads, firings or halts.  They fire on the same cells, which then hold the same
symbols; every other cell holds what it held at the start. -/
theorem stepped_of_reads_blank (table : Table)
    (hblank : ∀ rule ∈ table.quintuples, rule.read = .blank) (s t : Tape)
    (hlength : s.length = t.length) (k : Nat) :
    (∀ n < k, ((start table s).stepped n).step.1 = ((start table t).stepped n).step.1) ∧
    ((start table s).stepped k).state = ((start table t).stepped k).state ∧
    ((start table s).stepped k).head = ((start table t).stepped k).head ∧
    ((start table s).stepped k).steps = ((start table t).stepped k).steps ∧
    ((start table s).stepped k).isHalted = ((start table t).stepped k).isHalted ∧
    ∀ i,
      ((start table s).FiresOn k i ↔ (start table t).FiresOn k i) ∧
      ((start table s).FiresOn k i → ∃ symbol,
        ((start table s).stepped k).tape.get? i = some symbol ∧
        ((start table t).stepped k).tape.get? i = some symbol) ∧
      (¬ (start table s).FiresOn k i →
        ((start table s).stepped k).tape.get? i = s.get? i ∧
        ((start table t).stepped k).tape.get? i = t.get? i) := by
  have hstep : ∀ n, InStep ((start table s).FiresOn n) s t ((start table s).stepped n)
      ((start table t).stepped n) :=
    inStep_stepped hblank hlength
  have hlast := hstep k
  refine ⟨fun n _ => (hstep n).step_fst, hlast.state.symm, hlast.head.symm, hlast.steps.symm,
    congrArg Option.isSome hlast.halt?.symm, fun i => ⟨⟨?_, ?_⟩, ?_, ?_⟩⟩
  · rintro ⟨n, hn, symbol, rule, hfires⟩
    obtain ⟨symbol', hfires'⟩ := (hstep n).exists_fires hfires
    exact ⟨n, hn, symbol', rule, hfires'⟩
  · rintro ⟨n, hn, symbol, rule, hfires⟩
    obtain ⟨symbol', hfires'⟩ := (hstep n).symm.exists_fires hfires
    exact ⟨n, hn, symbol', rule, hfires'⟩
  · intro hi
    refine hlast.exists_symbol hi ?_
    obtain ⟨n, -, symbol, rule, hfires⟩ := hi
    have hlt := hfires.lt_length
    rwa [length_stepped, ← length_stepped k] at hlt
  · intro hi
    exact ⟨hlast.unseen i hi, hlast.unseen' i hi⟩

/-- A machine that writes two cells and comes back to the first, on tapes that differ in every
cell. -/
theorem stepped_of_reads_blank_back :
    (∀ rule ∈ (Table.ofList [⟨1, .blank, .one, .right, 2⟩, ⟨2, .blank, .zero, .left, 3⟩]).quintuples,
      rule.read = .blank) ∧
    Tape.length ⟨#[.zero, .one, .blank]⟩ = Tape.length ⟨#[.one, .blank, .zero]⟩ ∧
    ((start (.ofList [⟨1, .blank, .one, .right, 2⟩, ⟨2, .blank, .zero, .left, 3⟩])
        ⟨#[.zero, .one, .blank]⟩).stepped 3).state =
      ((start (.ofList [⟨1, .blank, .one, .right, 2⟩, ⟨2, .blank, .zero, .left, 3⟩])
        ⟨#[.one, .blank, .zero]⟩).stepped 3).state ∧
    (start (.ofList [⟨1, .blank, .one, .right, 2⟩, ⟨2, .blank, .zero, .left, 3⟩])
        ⟨#[.zero, .one, .blank]⟩).FiresOn 3 1 ∧
    ∃ symbol,
      ((start (.ofList [⟨1, .blank, .one, .right, 2⟩, ⟨2, .blank, .zero, .left, 3⟩])
        ⟨#[.zero, .one, .blank]⟩).stepped 3).tape.get? 1 = some symbol ∧
      ((start (.ofList [⟨1, .blank, .one, .right, 2⟩, ⟨2, .blank, .zero, .left, 3⟩])
        ⟨#[.one, .blank, .zero]⟩).stepped 3).tape.get? 1 = some symbol := by
  have hblank : ∀ rule ∈ (Table.ofList
      [⟨1, .blank, .one, .right, 2⟩, ⟨2, .blank, .zero, .left, 3⟩]).quintuples,
      rule.read = .blank := by
    decide
  have hfires : (start (.ofList [⟨1, .blank, .one, .right, 2⟩, ⟨2, .blank, .zero, .left, 3⟩])
      ⟨#[.zero, .one, .blank]⟩).FiresOn 3 1 :=
    ⟨1, by decide, _, _, rfl, rfl, rfl⟩
  obtain ⟨-, hstate, -, -, -, hcells⟩ := stepped_of_reads_blank _ hblank
    ⟨#[.zero, .one, .blank]⟩ ⟨#[.one, .blank, .zero]⟩ rfl 3
  exact ⟨hblank, rfl, hstate, hfires, (hcells 1).2.1 hfires⟩

end QuintupleMachine.Machine
