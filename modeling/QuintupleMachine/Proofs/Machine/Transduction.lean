import QuintupleMachine.Proofs.Diagnosis.Soundness
import QuintupleMachine.Proofs.Machine.OnePass

/-! # Tables as transducers

A table that only moves to the right comes to each cell once, and the state is all that it knows of
the cells behind it.  So what it leaves in the cells can be told by going through them from left to
right, without a machine (`Table.transduce`), and a run that halts leaves just that
(`Fired.cells_eq`, by induction on the firings; the cells are cut at the head).

If the table has no problems either, no state stops the run before the head has left the tape, so
that every cell is rewritten (`exists_pass`). -/

namespace QuintupleMachine

/-- The cells that a table which only moves to the right leaves behind, from the state in which it
comes to the first of them. -/
def Table.transduce (table : Table) : Nat → List Symbol → List Symbol
  | _, [] => []
  | q, symbol :: ahead =>
    match table.get? q with
    | none => symbol :: ahead
    | some rule =>
      if rule.accepts symbol then rule.write :: table.transduce rule.next ahead
      else symbol :: table.transduce q ahead

namespace Table

variable {table : Table} {q : Nat} {symbol : Symbol} {rule : Quintuple} {ahead : List Symbol}

@[simp] theorem transduce_nil (table : Table) (q : Nat) : table.transduce q [] = [] := rfl

theorem transduce_of_undefined (h : table.get? q = none) (cells : List Symbol) :
    table.transduce q cells = cells := by
  cases cells with
  | nil => rfl
  | cons symbol ahead => simp only [transduce, h]

theorem transduce_cons (h : table.get? q = some rule) (symbol : Symbol) (ahead : List Symbol) :
    table.transduce q (symbol :: ahead) =
      (if rule.accepts symbol then rule.write else symbol) ::
        table.transduce (if rule.accepts symbol then rule.next else q) ahead := by
  simp only [transduce, h]
  split <;> rfl

end Table

theorem Tape.get?_eq_toList (tape : Tape) (i : Nat) : tape.get? i = tape.cells.toList[i]? :=
  Array.getElem?_toList.symm

namespace Machine

variable {m last : Machine} {table : Table} {u : Tape} {halt : Halt} {symbol : Symbol}
  {rule : Quintuple} {behind ahead : List Symbol} {k : Nat}

/-- The head is right behind some of the cells and on the first of the others, if there are any. -/
structure Between (m : Machine) (behind ahead : List Symbol) : Prop where
  head_eq : m.head = some behind.length
  cells_eq : m.tape.cells.toList = behind ++ ahead

namespace Between

theorem length_eq (h : m.Between behind ahead) :
    m.tape.length = behind.length + ahead.length := by
  rw [Tape.length, ← Array.length_toList, h.cells_eq, List.length_append]

theorem fires (h : m.Between behind (symbol :: ahead))
    (hstate : m.table.state? m.state = some ⟨rule⟩) :
    m.Fires behind.length symbol rule where
  head_eq := h.head_eq
  symbol_eq := by
    rw [Tape.get?_eq_toList, h.cells_eq, List.getElem?_append_right (Nat.le_refl _), Nat.sub_self,
      List.getElem?_cons_zero]
  state_eq := hstate

/-- A firing rewrites the cell under the head and leaves it behind. -/
theorem fire (h : m.Between behind (symbol :: ahead)) (hsweeps : m.Sweeps table)
    (hstate : m.table.state? m.state = some ⟨rule⟩) :
    m.fire.Between (behind ++ [if rule.accepts symbol then rule.write else symbol]) ahead := by
  have hfires := h.fires hstate
  refine ⟨?_, ?_⟩
  · rw [hsweeps.head_fire hfires, List.length_append, List.length_singleton]
  · rw [hfires.fire, List.append_assoc, List.singleton_append]
    split
    · rw [Tape.set, Array.toList_setIfInBounds, h.cells_eq,
        List.set_append_right _ _ (Nat.le_refl _), Nat.sub_self, List.set_cons_zero]
    · exact h.cells_eq

/-- Where a machine has halted there is nothing left to transduce. -/
theorem transduce_of_halt (h : m.Between behind ahead) (htable : m.table = .compile table)
    (hhalt : m.halt? = some halt) : table.transduce m.state ahead = ahead := by
  cases halt with
  | offTape =>
    have hend : ahead = [] := by
      rcases halt?_eq_offTape.1 hhalt with hnone | ⟨head, hhead, hle⟩
      · rw [h.head_eq] at hnone
        cases hnone
      · rw [h.head_eq] at hhead
        cases hhead
        rw [h.length_eq] at hle
        exact List.eq_nil_of_length_eq_zero (by omega)
    rw [hend, Table.transduce_nil]
  | undefinedState q =>
    obtain ⟨rfl, hundefined, -⟩ := (halt?_eq_undefinedState_of_compile htable).1 hhalt
    exact Table.transduce_of_undefined hundefined ahead

end Between

/-- Firings up to a halt leave the cells behind the head as they are and transduce the others. -/
theorem Fired.cells_eq (h : m.Fired k last) (hsweeps : m.Sweeps table)
    (hbetween : m.Between behind ahead) (hhalt : last.halt? = some halt) :
    last.tape.cells.toList = behind ++ table.transduce m.state ahead := by
  induction h generalizing behind ahead with
  | refl m => rw [hbetween.transduce_of_halt hsweeps.table_eq hhalt, hbetween.cells_eq]
  | @step m next last k first rest ih =>
    obtain ⟨hrunning, rfl⟩ := step_eq_fired.1 first
    obtain ⟨head, symbol, rule, hfires⟩ := halt?_eq_none.1 hrunning
    cases ahead with
    | nil =>
      have hlt := hfires.lt_length
      obtain rfl := Option.some.inj (hfires.head_eq.symm.trans hbetween.head_eq)
      rw [hbetween.length_eq] at hlt
      exact absurd hlt (Nat.lt_irrefl _)
    | cons found ahead =>
      have hrest := ih (hsweeps.of_eq (table_fire m) (length_fire m))
        (hbetween.fire hsweeps hfires.state_eq) hhalt
      rw [hrest, (hbetween.fires hfires.state_eq).fire,
        Table.transduce_cons (hfires.rule_eq hsweeps.table_eq), List.append_assoc,
        List.singleton_append]

/-- A table without problems stops in no state. -/
theorem Fired.not_undefinedState (h : (start table u).Fired k last) (hclean : table.problems = [])
    (q : Nat) : last.halt? ≠ some (.undefinedState q) := by
  intro hhalt
  have hreaches : runner.Reaches (start table u) last := by
    rw [← h.advance_eq, Machine.advance_eq]
    exact Runner.Reaches.refl.advance k
  have hdiagnosed := diagnosed_of_reaches hreaches hhalt
  rw [hclean] at hdiagnosed
  rcases hdiagnosed with ⟨-, hmissing⟩ | ⟨l, hundefined, -⟩
  · cases hmissing
  · cases hundefined

/-- A table without problems that only moves to the right fires once on each cell of the tape,
leaves the tape, and has then transduced all of it. -/
theorem exists_pass (hright : table.MovesRight) (hclean : table.problems = [])
    (hlength : u.length ≤ Number.greatest) :
    ∃ last, (start table u).Fired u.length last ∧ last.halt? = some .offTape ∧
      last.tape.cells.toList = table.transduce entryState u.cells.toList := by
  have hsweeps : (start table u).Sweeps table := ⟨rfl, hright, hlength⟩
  obtain ⟨k, halt, last, hfired, hhalt, hswept⟩ := hsweeps.exists_halt rfl (Nat.zero_le _)
  have hstart : (start table u).Between [] u.cells.toList := ⟨rfl, rfl⟩
  have hcells := hfired.cells_eq hsweeps hstart hhalt
  rcases hswept.halt_cases hfired.length_eq hhalt with ⟨rfl, hend⟩ | ⟨q, rfl, -⟩
  · obtain rfl : k = u.length := (Nat.zero_add k).symm.trans hend
    exact ⟨last, hfired, hhalt, hcells⟩
  · exact absurd hhalt (hfired.not_undefinedState hclean q)

end Machine

end QuintupleMachine
