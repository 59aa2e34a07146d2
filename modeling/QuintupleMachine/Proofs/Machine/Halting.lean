import Mathlib.Data.Fintype.BigOperators
import Mathlib.Data.Fintype.Prod
import QuintupleMachine.Proofs.Machine.Firing
import QuintupleMachine.Proofs.Orbit
import QuintupleMachine.Proofs.Table

/-! # How long a machine can run

What a machine does next depends on its tape, state and head alone.  There are only `haltingBound`
such configurations in which it can fire, so a machine that has fired more often has been in one of
them twice and never halts.  Hence running a machine for that long settles whether it halts
(`halted_iff_of_bound`), and an unbounded run is what some bounded run comes to (`run_eq_some`). -/

namespace QuintupleMachine

instance : Fintype Symbol where
  elems := {.blank, .zero, .one}
  complete symbol := by cases symbol <;> decide

@[simp] theorem Symbol.card : Fintype.card Symbol = 3 := by
  decide

/-- What decides how a machine goes on. -/
structure Configuration where
  tape : Tape
  state : Nat
  head : Option Nat
deriving DecidableEq

namespace CompiledTable

/-- What firing turns a configuration into, if a state fires. -/
def move? (table : CompiledTable) (c : Configuration) : Option Configuration :=
  (c.head.bind fun head => (table.state? c.state).bind fun state => state.fire c.tape head).map
    fun firing => ⟨firing.tape, firing.next, firing.head⟩

/-- The configurations on tapes of a given length in which a state can fire. -/
def ready (table : CompiledTable) (length : Nat) : Finset Configuration :=
  (table.numbers.toFinset ×ˢ Finset.range length ×ˢ
      (Finset.univ : Finset (Fin length → Symbol))).image
    fun place => ⟨⟨Array.ofFn place.2.2⟩, place.1, some place.2.1⟩

theorem card_numbers (table : CompiledTable) : table.numbers.toFinset.card ≤ table.size := by
  rw [size, ← List.length_map Prod.fst]
  exact List.toFinset_card_le _

theorem card_ready (table : CompiledTable) (length : Nat) :
    (table.ready length).card ≤ table.size * length * 3 ^ length := by
  calc
    (table.ready length).card
      ≤ (table.numbers.toFinset ×ˢ Finset.range length ×ˢ
          (Finset.univ : Finset (Fin length → Symbol))).card := Finset.card_image_le
    _ = table.numbers.toFinset.card * (length * 3 ^ length) := by
      simp [Finset.card_product]
    _ ≤ table.size * (length * 3 ^ length) := Nat.mul_le_mul_right _ table.card_numbers
    _ = table.size * length * 3 ^ length := (Nat.mul_assoc _ _ _).symm

/-- A move is a firing of the state on the cell under the head. -/
theorem exists_fire_of_move? {table : CompiledTable} {b c : Configuration}
    (h : table.move? b = some c) :
    ∃ head state firing, b.head = some head ∧ table.state? b.state = some state ∧
      state.fire b.tape head = some firing ∧ c = ⟨firing.tape, firing.next, firing.head⟩ := by
  obtain ⟨firing, hfiring, rfl⟩ := Option.map_eq_some_iff.1 h
  obtain ⟨head, hhead, hfiring⟩ := Option.bind_eq_some_iff.1 hfiring
  obtain ⟨state, hstate, hfiring⟩ := Option.bind_eq_some_iff.1 hfiring
  exact ⟨head, state, firing, hhead, hstate, hfiring, rfl⟩

theorem mem_ready {table : CompiledTable} {c : Configuration} (h : (table.move? c).isSome) :
    c ∈ table.ready c.tape.length := by
  obtain ⟨_, hmove⟩ := Option.isSome_iff_exists.1 h
  obtain ⟨head, state, firing, hhead, hstate, hfiring, -⟩ := exists_fire_of_move? hmove
  have hlt : head < c.tape.length := by
    refine Nat.lt_of_not_le fun hle => ?_
    rw [CompiledState.fire, Quintuple.fire_eq_none.2 hle] at hfiring
    cases hfiring
  have hnumber : c.state ∈ table.numbers := mem_numbers hstate
  refine Finset.mem_image.2 ⟨(c.state, head, fun i => c.tape.cells[i]), ?_, ?_⟩
  · simp [hnumber, hlt]
  · obtain ⟨⟨cells⟩, state, _⟩ := c
    cases hhead
    simp only [Tape.length, Fin.getElem_fin, Array.ofFn_getElem]

/-- A move changes what is in the cells, not how many there are. -/
theorem length_of_move? {table : CompiledTable} {b c : Configuration} (h : table.move? b = some c) :
    c.tape.length = b.tape.length := by
  obtain ⟨_, _, _, -, -, hfiring, rfl⟩ := exists_fire_of_move? h
  exact Quintuple.length_of_fire hfiring

/-- All along an orbit of moves, a rule fires only in one of finitely many configurations. -/
theorem mem_ready_of_orbit {table : CompiledTable} {c : Configuration} (n : Nat) (b : Configuration)
    (h : orbit table.move? n c = some b) (hb : (table.move? b).isSome) :
    b ∈ table.ready c.tape.length := by
  have hlength : b.tape.length = c.tape.length :=
    orbit_invariant (P := fun b => b.tape.length = c.tape.length)
      (fun _ _ hb h => (length_of_move? h).trans hb) rfl h
  rw [← hlength]
  exact mem_ready hb

end CompiledTable

namespace Machine

/-- What decides how the machine goes on. -/
def configuration (m : Machine) : Configuration := ⟨m.tape, m.state, m.head⟩

variable {m last : Machine} {halt : Halt} {n : Nat}

theorem move?_configuration (m : Machine) :
    m.table.move? m.configuration = if m.isHalted then none else some m.fire.configuration := by
  have hmove : m.table.move? m.configuration =
      m.firing?.map fun firing => ⟨firing.tape, firing.next, firing.head⟩ := rfl
  rw [hmove, fire]
  cases hfiring : m.firing? with
  | none => rw [firing?_eq_none.1 hfiring]; rfl
  | some firing => rw [isHalted_eq_false.2 ⟨firing, hfiring⟩]; rfl

/-- A machine that still runs after `n` firings can fire once more. -/
theorem isSome_orbit_configuration (n : Nat) (m : Machine) :
    (orbit m.table.move? (n + 1) m.configuration).isSome = !(m.advance n).isHalted := by
  induction n generalizing m with
  | zero =>
    rw [orbit, move?_configuration, advance]
    cases m.isHalted <;> rfl
  | succ n ih =>
    rw [orbit, move?_configuration, advance]
    cases hhalted : m.isHalted with
    | true => simp [hhalted]
    | false =>
      simp only [Bool.false_eq_true, if_false, Option.bind_some]
      rw [← ih m.fire, table_fire]

theorem haltingBound_eq (m : Machine) :
    m.haltingBound = m.table.size * m.tape.length * 3 ^ m.tape.length := rfl

/-- A machine that runs on for as many firings as there are configurations never halts. -/
theorem running_of_bound (h : (m.advance m.haltingBound).isHalted = false) (n : Nat) :
    (m.advance n).isHalted = false := by
  have hready : ∀ n b, orbit m.table.move? n m.configuration = some b →
      (m.table.move? b).isSome → b ∈ m.table.ready m.tape.length :=
    CompiledTable.mem_ready_of_orbit
  have hbound : (orbit m.table.move? ((m.table.ready m.tape.length).card + 1)
      m.configuration).isSome := by
    -- There are at most as many places to fire in as the bound says.
    refine isSome_orbit_of_le (Nat.succ_le_succ (CompiledTable.card_ready _ _)) ?_
    rw [← haltingBound_eq, isSome_orbit_configuration, h]
    rfl
  have hforever := isSome_orbit_of_card hready hbound (n + 1)
  rwa [isSome_orbit_configuration, Bool.not_eq_true'] at hforever

/-! ## Bounded runs -/

/-- Past a halt nothing happens. -/
theorem advance_eq_of_isHalted {k : Nat} (h : (m.advance k).isHalted = true) (hkn : k ≤ n) :
    m.advance n = m.advance k := by
  obtain ⟨d, rfl⟩ := Nat.exists_eq_add_of_le hkn
  rw [advance_add, advance_of_isHalted h]

/-- A machine that halts at all has halted within the bound. -/
theorem isHalted_bound (h : (m.advance n).isHalted = true) :
    (m.advance m.haltingBound).isHalted = true := by
  rw [← Bool.not_eq_false]
  intro hrunning
  rw [running_of_bound hrunning n] at h
  cases h

/-- Whenever a machine halts, it has come to what the bounded run comes to. -/
theorem advance_bound (h : (m.advance n).isHalted = true) :
    m.advance m.haltingBound = m.advance n := by
  rcases Nat.le_total n m.haltingBound with hle | hle
  · exact advance_eq_of_isHalted h hle
  · exact (advance_eq_of_isHalted (isHalted_bound h) hle).symm

theorem steps_fire_le (m : Machine) : m.fire.steps ≤ m.steps + 1 := by
  unfold fire
  split
  · exact Nat.le_refl _
  · exact Nat.le_succ _

/-- No more firings are counted than were allowed. -/
theorem steps_advance_le (n : Nat) (m : Machine) : (m.advance n).steps ≤ m.steps + n := by
  induction n generalizing m with
  | zero => exact Nat.le_refl _
  | succ n ih =>
    rw [advance]
    split
    · exact Nat.le_add_right _ _
    · have hrest := ih m.fire
      have hfirst := steps_fire_le m
      omega

/-- An unbounded run ends where some bounded run halts. -/
theorem run_eq_some :
    m.run = some (halt, last) ↔ ∃ n, last = m.advance n ∧ last.halt? = some halt := by
  rw [run, Option.map_eq_some_iff, outlast_eq]
  constructor
  · rintro ⟨first, hhalt, hlast⟩
    cases hlast
    exact ⟨_, rfl, hhalt⟩
  · rintro ⟨n, rfl, hhalt⟩
    rw [advance_bound (Option.isSome_of_eq_some hhalt)]
    exact ⟨halt, hhalt, rfl⟩

/-! ## Single steps -/

/-- The machine after as many calls of `step`. -/
def stepped (n : Nat) (m : Machine) : Machine := Nat.iterate (fun m => m.step.2) n m

theorem stepped_eq_advance (n : Nat) (m : Machine) : m.stepped n = m.advance n := by
  induction n generalizing m with
  | zero => rfl
  | succ n ih =>
    have hfirst : m.stepped (n + 1) = m.step.2.stepped n := rfl
    rw [hfirst, ih, step, advance, isHalted]
    cases hhalt : m.halt? with
    | none => rfl
    | some halt =>
      simp only [Option.isSome_some, if_true]
      exact advance_of_isHalted (Option.isSome_of_eq_some hhalt) n

theorem stepped_succ (k : Nat) (m : Machine) : m.stepped (k + 1) = (m.stepped k).step.2 :=
  Function.iterate_succ_apply' _ k m

theorem table_step (m : Machine) : m.step.2.table = m.table := by
  cases h : m.halt? with
  | some halt => rw [step_of_halt h]
  | none => rw [step_of_running h, table_fire]

theorem length_step (m : Machine) : m.step.2.tape.length = m.tape.length := by
  cases h : m.halt? with
  | some halt => rw [step_of_halt h]
  | none => rw [step_of_running h, length_fire]

theorem table_stepped (k : Nat) (m : Machine) : (m.stepped k).table = m.table := by
  induction k with
  | zero => rfl
  | succ k ih => rw [stepped_succ, table_step, ih]

theorem length_stepped (k : Nat) (m : Machine) : (m.stepped k).tape.length = m.tape.length := by
  induction k with
  | zero => rfl
  | succ k ih => rw [stepped_succ, length_step, ih]

/-- A machine halts exactly if it has halted after as many steps as it has states, cells and tape
contents to combine, and it never fires more often than that before it halts. -/
theorem halted_iff_of_bound (table : Table) (tape : Tape) :
    ((∃ n, ((start table tape).stepped n).isHalted = true) ↔
      ((start table tape).stepped
        (table.size * tape.length * 3 ^ tape.length)).isHalted = true) ∧
    (∀ n, ((start table tape).stepped n).isHalted = true →
      ((start table tape).stepped n).steps ≤ table.size * tape.length * 3 ^ tape.length) ∧
    (((start table tape).stepped
        (table.size * tape.length * 3 ^ tape.length)).isHalted = false →
      ∀ n, ((start table tape).stepped n).isHalted = false) := by
  have hbound : table.size * tape.length * 3 ^ tape.length = (start table tape).haltingBound := by
    rw [haltingBound_eq, ← CompiledTable.size_compile]
    rfl
  simp only [stepped_eq_advance, hbound]
  refine ⟨⟨?_, ?_⟩, ?_, running_of_bound⟩
  · rintro ⟨n, h⟩
    exact isHalted_bound h
  · intro h
    exact ⟨_, h⟩
  · intro n h
    have hsteps := steps_advance_le (start table tape).haltingBound (start table tape)
    rw [advance_bound h] at hsteps
    simpa [start, new] using hsteps

/-- A machine that leaves its tape, and one that stays where it is. -/
theorem halted_iff_of_bound_pair :
    (((start (.ofList [⟨1, .blank, .one, .right, 1⟩]) (.blank 2)).stepped 2).isHalted = true ∧
      ((start (.ofList [⟨1, .blank, .one, .right, 1⟩]) (.blank 2)).stepped 2).steps ≤ 18) ∧
    ((start (.ofList [⟨1, .blank, .one, .stay, 1⟩]) (.blank 2)).stepped 18).isHalted = false ∧
      ∀ n, ((start (.ofList [⟨1, .blank, .one, .stay, 1⟩]) (.blank 2)).stepped n).isHalted =
        false := by
  have hhalts : ((start (.ofList [⟨1, .blank, .one, .right, 1⟩]) (.blank 2)).stepped 2).isHalted =
      true := by
    decide
  have hruns : ((start (.ofList [⟨1, .blank, .one, .stay, 1⟩]) (.blank 2)).stepped 18).isHalted =
      false := by
    decide
  exact ⟨⟨hhalts, (halted_iff_of_bound _ _).2.1 2 hhalts⟩, hruns,
    (halted_iff_of_bound _ _).2.2 hruns⟩

end Machine

end QuintupleMachine
