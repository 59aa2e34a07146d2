import QuintupleMachine.Proofs.Machine.Budget

/-! # Scanning

A rule that reads a figure does not accept any other symbol.  It fires on them all the same: it
writes nothing, keeps its state and moves the head, so that the machine scans the tape for the
figure in the direction of the rule.

A scan is a way of the head over cells that do not hold the figure (`Seeks.fired_moved`), which is
the only induction here.  It ends on the first cell that does, where the rule writes and hands over,
or off the tape, with nothing changed but the head; a rule that keeps its head in place scans the
same cell for ever (`scan_nearest`). -/

namespace QuintupleMachine.Machine

variable {m next last : Machine} {rule : Quintuple} {head j k : Nat} {position : Option Nat}

/-- One more firing. -/
theorem Fired.concat (h : m.Fired k last) (hstep : last.step = (.fired, next)) :
    m.Fired (k + 1) next := by
  induction h with
  | refl m => exact .step hstep (.refl next)
  | step first rest ih => exact .step first (ih hstep)

/-- The machine is in the state of a rule that reads a figure. -/
structure Seeks (m : Machine) (rule : Quintuple) : Prop where
  state_eq : m.table.state? m.state = some ⟨rule⟩
  read_ne : rule.read ≠ .blank

/-- The machine after some firings that have done nothing but move its head. -/
def moved (m : Machine) (firings : Nat) (position : Option Nat) : Machine :=
  { m with head := position, steps := m.steps + firings }

/-- The machine has found in a cell what its rule reads: it has written there and nowhere else, and
handed over. -/
structure Found (m : Machine) (rule : Quintuple) (cell : Nat) (position : Option Nat)
    (last : Machine) : Prop where
  state : last.state = rule.next
  head : last.head = position
  written : last.tape.get? cell = some rule.write
  others : ∀ i, i ≠ cell → last.tape.get? i = m.tape.get? i

/-- The machine has left the tape and has changed nothing. -/
structure Missed (m : Machine) (position : Option Nat) (last : Machine) : Prop where
  halt : last.halt? = some .offTape
  state : last.state = m.state
  head : last.head = position
  tape : last.tape = m.tape

namespace Seeks

theorem accepts_iff (h : m.Seeks rule) {symbol : Symbol} :
    rule.accepts symbol = true ↔ rule.read = symbol := by
  rw [Quintuple.accepts_iff, or_iff_right h.read_ne]

theorem moved (h : m.Seeks rule) (k : Nat) (position : Option Nat) :
    (m.moved k position).Seeks rule :=
  ⟨h.state_eq, h.read_ne⟩

/-- On any other symbol the rule moves the head. -/
theorem step_of_ne (h : m.Seeks rule) (hhead : m.head = some head) (hlt : head < m.tape.length)
    (hne : m.tape.get? head ≠ some rule.read) :
    m.step = (.fired, m.moved 1 (rule.direction.apply head)) := by
  obtain ⟨symbol, hsymbol⟩ : ∃ symbol, m.tape.get? head = some symbol :=
    Option.ne_none_iff_exists'.1 fun hnone => Nat.not_le.2 hlt (Tape.get?_eq_none.1 hnone)
  have hfires : m.Fires head symbol rule := ⟨hhead, hsymbol, h.state_eq⟩
  have hrefuses : ¬ rule.accepts symbol = true := by
    rw [h.accepts_iff]
    rintro rfl
    exact hne hsymbol
  rw [step_of_running (halt?_eq_none.2 ⟨head, symbol, rule, hfires⟩), hfires.fire]
  simp only [if_neg hrefuses, Machine.moved]

/-- On the symbol that it reads the rule writes and hands over. -/
theorem step_of_eq (h : m.Seeks rule) (hhead : m.head = some head)
    (hfound : m.tape.get? head = some rule.read) :
    ∃ last, m.step = (.fired, last) ∧ Found m rule head (rule.direction.apply head) last := by
  have hfires : m.Fires head rule.read rule := ⟨hhead, hfound, h.state_eq⟩
  have haccepts : rule.accepts rule.read = true := h.accepts_iff.2 rfl
  have hrunning : m.halt? = none := halt?_eq_none.2 ⟨head, rule.read, rule, hfires⟩
  refine ⟨m.fire, step_of_running hrunning, ?_, ?_, ?_, fun i hi => hfires.get?_fire hi⟩
  all_goals rw [hfires.fire]
  · exact if_pos haccepts
  · simp only [if_pos haccepts, Tape.get?_set, hfires.lt_length, and_self, if_true]

/-- The head goes its way for as long as no cell on it holds what the rule reads. -/
theorem fired_moved (h : m.Seeks rule) (way : Nat → Nat) (hhead : m.head = some (way 0))
    (hmove : ∀ i < k, rule.direction.apply (way i) = some (way (i + 1)))
    (hpass : ∀ i < k, way i < m.tape.length ∧ m.tape.get? (way i) ≠ some rule.read) :
    m.Fired k (m.moved k (some (way k))) := by
  induction k with
  | zero =>
    rw [← hhead]
    exact .refl m
  | succ k ih =>
    have hbefore := ih (fun i hi => hmove i (Nat.lt_succ_of_lt hi))
      fun i hi => hpass i (Nat.lt_succ_of_lt hi)
    obtain ⟨hlt, hne⟩ := hpass k (Nat.lt_succ_self k)
    have hstep := (h.moved k (some (way k))).step_of_ne rfl hlt hne
    rw [hmove k (Nat.lt_succ_self k)] at hstep
    exact hbefore.concat hstep

/-- The way ends on the first cell that holds what the rule reads. -/
theorem exists_found (h : m.Seeks rule) (way : Nat → Nat) (hhead : m.head = some (way 0))
    (hmove : ∀ i < k, rule.direction.apply (way i) = some (way (i + 1)))
    (hpass : ∀ i < k, way i < m.tape.length ∧ m.tape.get? (way i) ≠ some rule.read)
    (hfound : m.tape.get? (way k) = some rule.read) :
    ∃ last, m.Fired (k + 1) last ∧
      Found m rule (way k) (rule.direction.apply (way k)) last := by
  obtain ⟨last, hstep, hlast⟩ := (h.moved k (some (way k))).step_of_eq rfl hfound
  exact ⟨last, (h.fired_moved way hhead hmove hpass).concat hstep, hlast.state, hlast.head,
    hlast.written, hlast.others⟩

/-- A way over cells none of which holds what the rule reads leads off the tape. -/
theorem exists_missed (h : m.Seeks rule) (way : Nat → Nat) (hhead : m.head = some (way 0))
    (hmove : ∀ i < k, rule.direction.apply (way i) = some (way (i + 1)))
    (hpass : ∀ i < k + 1, way i < m.tape.length ∧ m.tape.get? (way i) ≠ some rule.read)
    (hlast : rule.direction.apply (way k) = position)
    (hoff : position = none ∨ ∃ head, position = some head ∧ m.tape.length ≤ head) :
    ∃ last, m.Fired (k + 1) last ∧ Missed m position last := by
  have hbefore := h.fired_moved way hhead hmove fun i hi => hpass i (Nat.lt_succ_of_lt hi)
  obtain ⟨hlt, hne⟩ := hpass k (Nat.lt_succ_self k)
  have hstep := (h.moved k (some (way k))).step_of_ne rfl hlt hne
  rw [hlast] at hstep
  exact ⟨_, hbefore.concat hstep, halt?_eq_offTape.2 hoff, rfl, rfl, rfl⟩

/-! ### The three directions -/

theorem found_right (h : m.Seeks rule) (hright : rule.direction = .right)
    (hlength : m.tape.length ≤ Number.greatest) (hhead : m.head = some head) (hj : head ≤ j)
    (hfound : m.tape.get? j = some rule.read)
    (hfirst : ∀ i, head ≤ i → i < j → m.tape.get? i ≠ some rule.read) :
    ∃ last, m.Fired (j - head + 1) last ∧ Found m rule j (some (j + 1)) last := by
  have hlt : j < m.tape.length := Tape.lt_length_of_get? hfound
  obtain ⟨k, rfl⟩ := Nat.exists_eq_add_of_le hj
  have hmove : ∀ i < k, rule.direction.apply (head + i) = some (head + (i + 1)) := by
    intro i hi
    rw [hright]
    exact Direction.apply_right (by omega)
  have hpass : ∀ i < k, head + i < m.tape.length ∧ m.tape.get? (head + i) ≠ some rule.read :=
    fun i hi => ⟨by omega, hfirst (head + i) (by omega) (by omega)⟩
  have hscan := h.exists_found (fun i => head + i) hhead hmove hpass hfound
  rw [Nat.add_sub_cancel_left]
  rwa [hright, Direction.apply_right (hlt.trans_le hlength)] at hscan

theorem missed_right (h : m.Seeks rule) (hright : rule.direction = .right)
    (hlength : m.tape.length ≤ Number.greatest) (hhead : m.head = some head)
    (hlt : head < m.tape.length) (hnone : ∀ j, head ≤ j → m.tape.get? j ≠ some rule.read) :
    ∃ last, m.Fired (m.tape.length - head) last ∧ Missed m (some m.tape.length) last := by
  obtain ⟨k, hk⟩ : ∃ k, m.tape.length = head + k + 1 := Nat.exists_eq_add_of_lt hlt
  have hmove : ∀ i < k + 1, rule.direction.apply (head + i) = some (head + (i + 1)) := by
    intro i hi
    rw [hright]
    exact Direction.apply_right (by omega)
  have hpass : ∀ i < k + 1, head + i < m.tape.length ∧ m.tape.get? (head + i) ≠ some rule.read :=
    fun i hi => ⟨by omega, hnone (head + i) (Nat.le_add_right head i)⟩
  have hscan := h.exists_missed (fun i => head + i) hhead
    (fun i hi => hmove i (Nat.lt_succ_of_lt hi)) hpass (hmove k (Nat.lt_succ_self k))
    (.inr ⟨_, rfl, hk.le⟩)
  rwa [← Nat.add_assoc, ← hk, show k + 1 = m.tape.length - head by omega] at hscan

theorem found_left (h : m.Seeks rule) (hleft : rule.direction = .left) (hhead : m.head = some head)
    (hlt : head < m.tape.length) (hj : j ≤ head) (hfound : m.tape.get? j = some rule.read)
    (hfirst : ∀ i, j < i → i ≤ head → m.tape.get? i ≠ some rule.read) :
    ∃ last, m.Fired (head - j + 1) last ∧
      Found m rule j (if j = 0 then none else some (j - 1)) last := by
  have hmove : ∀ i < head - j, rule.direction.apply (head - i) = some (head - (i + 1)) := by
    intro i hi
    rw [hleft]
    exact Direction.apply_left_of_pos (by omega)
  have hpass : ∀ i < head - j, head - i < m.tape.length ∧ m.tape.get? (head - i) ≠ some rule.read :=
    fun i hi => ⟨by omega, hfirst (head - i) (by omega) (by omega)⟩
  have hend : head - (head - j) = j := Nat.sub_sub_self hj
  have hscan := h.exists_found (fun i => head - i) hhead hmove hpass (hend.symm ▸ hfound)
  rwa [hend, hleft, Direction.apply_left] at hscan

theorem missed_left (h : m.Seeks rule) (hleft : rule.direction = .left) (hhead : m.head = some head)
    (hlt : head < m.tape.length) (hnone : ∀ j, j ≤ head → m.tape.get? j ≠ some rule.read) :
    ∃ last, m.Fired (head + 1) last ∧ Missed m none last := by
  have hmove : ∀ i < head, rule.direction.apply (head - i) = some (head - (i + 1)) := by
    intro i hi
    rw [hleft]
    exact Direction.apply_left_of_pos (by omega)
  have hpass : ∀ i < head + 1, head - i < m.tape.length ∧ m.tape.get? (head - i) ≠ some rule.read :=
    fun i _ => ⟨by omega, hnone (head - i) (Nat.sub_le head i)⟩
  refine h.exists_missed (fun i => head - i) hhead hmove hpass ?_ (.inl rfl)
  rw [hleft, Nat.sub_self]
  rfl

/-- A way that does not leave its cell never ends. -/
theorem stays (h : m.Seeks rule) (hstay : rule.direction = .stay) (hhead : m.head = some head)
    (hlt : head < m.tape.length) (hne : m.tape.get? head ≠ some rule.read) (k : Nat) :
    m.Fired k (m.moved k m.head) := by
  rw [hhead]
  refine h.fired_moved (fun _ => head) hhead (fun i _ => ?_) fun i _ => ⟨hlt, hne⟩
  rw [hstay]
  rfl

end Seeks

/-- From a cell of a tape whose length is a 64-bit number, a rule that reads a figure takes its
machine to the nearest cell that holds the figure, in the direction of the rule.  It needs one
firing for each cell up to there; then it has written in that cell alone, and has handed over and
moved on.  Without such a cell the machine leaves the tape, after a firing for each cell that is
left, in the same state and with the same tape.  A rule that does not move the head never gets away
from a cell that holds another symbol. -/
theorem scan_nearest (m : Machine) (head : Nat) (rule : Quintuple)
    (hlength : m.tape.length ≤ Number.greatest) (hhead : m.head = some head)
    (hlt : head < m.tape.length) (hstate : m.table.state? m.state = some ⟨rule⟩)
    (hread : rule.read ≠ .blank) :
    (rule.direction = .right →
      (∀ j, head ≤ j → m.tape.get? j = some rule.read →
        (∀ i, head ≤ i → i < j → m.tape.get? i ≠ some rule.read) →
        ∃ last, m.Fired (j - head + 1) last ∧ Found m rule j (some (j + 1)) last) ∧
      ((∀ j, head ≤ j → m.tape.get? j ≠ some rule.read) →
        ∃ last, m.Fired (m.tape.length - head) last ∧ Missed m (some m.tape.length) last)) ∧
    (rule.direction = .left →
      (∀ j, j ≤ head → m.tape.get? j = some rule.read →
        (∀ i, j < i → i ≤ head → m.tape.get? i ≠ some rule.read) →
        ∃ last, m.Fired (head - j + 1) last ∧
          Found m rule j (if j = 0 then none else some (j - 1)) last) ∧
      ((∀ j, j ≤ head → m.tape.get? j ≠ some rule.read) →
        ∃ last, m.Fired (head + 1) last ∧ Missed m none last)) ∧
    (rule.direction = .stay → m.tape.get? head ≠ some rule.read →
      m.run = none ∧
      ∀ k, (m.stepped k).isHalted = false ∧ m.stepped k = { m with steps := m.steps + k }) := by
  have hseeks : m.Seeks rule := ⟨hstate, hread⟩
  refine ⟨fun hright => ⟨?_, ?_⟩, fun hleft => ⟨?_, ?_⟩, fun hstay hne => ?_⟩
  · intro j hj hfound hfirst
    exact hseeks.found_right hright hlength hhead hj hfound hfirst
  · intro hnone
    exact hseeks.missed_right hright hlength hhead hlt hnone
  · intro j hj hfound hfirst
    exact hseeks.found_left hleft hhead hlt hj hfound hfirst
  · intro hnone
    exact hseeks.missed_left hleft hhead hlt hnone
  · have hforever : ∀ k, (m.advance k).halt? = none ∧ m.advance k = m.moved k m.head := by
      intro k
      have hfired := hseeks.stays hstay hhead hlt hne
      exact ⟨((hfired (k + 1)).of_lt (Nat.lt_succ_self k)).2, (hfired k).advance_eq⟩
    refine ⟨?_, fun k => ?_⟩
    · rw [Option.eq_none_iff_forall_ne_some]
      rintro ⟨halt, last⟩ hrun
      obtain ⟨k, rfl, hhalt⟩ := run_eq_some.1 hrun
      rw [(hforever k).1] at hhalt
      cases hhalt
    · rw [stepped_eq_advance]
      exact ⟨isHalted_eq_false_iff.2 (hforever k).1, (hforever k).2⟩

/-- A machine that finds its figure in the first cell, moving to the left, and one that looks for
its figure to the right of where the figure is. -/
theorem scan_nearest_ends :
    (∃ m last : Machine, m.tape = ⟨#[.zero, .blank, .one]⟩ ∧ m.head = some 2 ∧
      m.table.state? m.state = some ⟨⟨1, .zero, .one, .left, 2⟩⟩ ∧ m.Fired 3 last ∧
      Found m ⟨1, .zero, .one, .left, 2⟩ 0 none last) ∧
    ∃ m last : Machine, m.tape = ⟨#[.zero, .blank, .one]⟩ ∧ m.head = some 1 ∧
      m.table.state? m.state = some ⟨⟨1, .zero, .one, .right, 2⟩⟩ ∧ m.Fired 2 last ∧
      Missed m (some 3) last := by
  constructor
  · obtain ⟨-, hleft, -⟩ := scan_nearest
      ⟨.compile (.ofList [⟨1, .zero, .one, .left, 2⟩]), .blank 3, ⟨#[.zero, .blank, .one]⟩, 1,
        some 2, 4⟩ 2
      ⟨1, .zero, .one, .left, 2⟩ (by decide) rfl (by decide) rfl (by decide)
    have hfirst : ∀ i ≤ 2, 0 < i →
        Tape.get? ⟨#[.zero, .blank, .one]⟩ i ≠ some Symbol.zero := by
      decide
    obtain ⟨last, hfired, hfound⟩ :=
      (hleft rfl).1 0 (by decide) rfl fun i hi hle => hfirst i hle hi
    exact ⟨_, last, rfl, rfl, rfl, hfired, hfound⟩
  · obtain ⟨hright, -⟩ := scan_nearest
      ⟨.compile (.ofList [⟨1, .zero, .one, .right, 2⟩]), .blank 3, ⟨#[.zero, .blank, .one]⟩, 1,
        some 1, 4⟩ 1
      ⟨1, .zero, .one, .right, 2⟩ (by decide) rfl (by decide) rfl (by decide)
    have hnone : ∀ j, 1 ≤ j → Tape.get? ⟨#[.zero, .blank, .one]⟩ j ≠ some Symbol.zero := by
      intro j hj hzero
      have hlt : j < 3 := Tape.lt_length_of_get? hzero
      obtain rfl | rfl : j = 1 ∨ j = 2 := by omega
      · cases hzero
      · cases hzero
    obtain ⟨last, hfired, hmissed⟩ := (hright rfl).2 hnone
    exact ⟨_, last, rfl, rfl, rfl, hfired, hmissed⟩

end QuintupleMachine.Machine
