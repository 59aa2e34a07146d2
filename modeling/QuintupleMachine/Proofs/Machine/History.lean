import QuintupleMachine.Proofs.Machine.Calls

/-! # What a machine has fired from

A machine counts its firings and forgets them.  It can be made to keep the configurations that it
has fired from since it last started, and then does everything else as before
(`Runner.performAll_recording`).  What is said about the past of a machine is said about this
record.

Whatever is done with a machine, it has as many cells as at the start, its head is on the tape or
one cell behind it, and if it has no head, it has just moved to the left from the first cell
(`Sound`).  So a step that finds nothing to halt the machine finds a head, a rule and a cell as well,
and none of its other ways out is ever taken (`sound_of_performAll`). -/

namespace QuintupleMachine

namespace Direction

variable {direction : Direction} {head next : Nat}

/-- Below the greatest number, only a move to the left from the first cell leads nowhere. -/
theorem apply_eq_none (h : head < Number.greatest) :
    direction.apply head = none ↔ direction = left ∧ head = 0 := by
  cases direction with
  | left => cases head <;> simp [apply]
  | right => simp [apply, h]
  | stay => simp [apply]

theorem le_of_apply (h : direction.apply head = some next) : next ≤ head + 1 := by
  cases direction with
  | left =>
    cases head with
    | zero => cases h
    | succ head =>
      cases h
      omega
  | right =>
    rw [apply] at h
    split at h
    · cases h
      exact Nat.le_refl _
    · cases h
  | stay =>
    cases h
    exact Nat.le_succ _

end Direction

/-! ## Records -/

namespace Runner

variable {σ : Type} {r : Runner σ} {s t : σ} {past : List σ}

/-- A runner that keeps what it has fired from since it last started, the latest first. -/
def recording (r : Runner σ) : Runner (σ × List σ) where
  halt? s := r.halt? s.1
  fire s := (r.fire s.1, s.1 :: s.2)
  reset s := (r.reset s.1, [])

/-- No halt and no firing shows that a record is kept. -/
theorem simulates_recording (r : Runner σ) :
    Simulates r.recording r fun recorded s => recorded.1 = s where
  halt h := congrArg r.halt? h
  fire h _ := congrArg r.fire h
  reset h := congrArg r.reset h

/-- A result without the record that comes with it. -/
def withoutRecord (result : Reply × σ × List σ) : Reply × σ := (result.1, result.2.1)

theorem performAll_recording (s : σ) (past : List σ) (calls : List Call) :
    (r.recording.performAll (s, past) calls).map (List.map withoutRecord) =
      r.performAll s calls := by
  have hsee : ∀ (result : Reply × σ × List σ) (result' : Reply × σ),
      Agree (fun recorded s => recorded.1 = s) result result' →
        withoutRecord result = id result' := by
    rintro ⟨reply, t, past⟩ ⟨reply', t'⟩ ⟨hreply, ht⟩
    exact Prod.ext hreply ht
  have h := (simulates_recording r).performAll hsee (s := (s, past)) rfl calls
  rwa [List.map_id_fun, Option.map_id_fun, id_eq] at h

theorem Reaches.withoutRecord {recorded : σ × List σ} (h : r.recording.Reaches (s, past) recorded) :
    r.Reaches s recorded.1 := by
  induction h with
  | refl => exact .refl
  | fire _ hrunning ih => exact ih.fire hrunning
  | reset _ ih => exact ih.reset

/-- Whatever calls leave behind can be reached. -/
theorem reaches_of_mem {calls : List Call} {results : List (Reply × σ)}
    (hresults : r.performAll s calls = some results) {result : Reply × σ} (h : result ∈ results) :
    r.Reaches s result.2 := by
  obtain ⟨t, call, ht, hcall⟩ := exists_perform_of_mem hresults h
  exact ht.perform hcall

end Runner

namespace Machine

variable {table : Table} {tape : Tape} {past : List Machine} {m : Machine} {head : Nat}

/-- `Reached table tape past m`: firings and resets can bring a machine for the table that starts on
the tape to `m`, and `past` is what it has fired from since it last started, the latest first. -/
def Reached (table : Table) (tape : Tape) (past : List Machine) (m : Machine) : Prop :=
  runner.recording.Reaches (start table tape, []) (m, past)

namespace Reached

theorem table_eq (h : Reached table tape past m) : m.table = .compile table :=
  (table_of_reaches (Runner.Reaches.withoutRecord h)).1

theorem reset_eq (h : Reached table tape past m) : m.reset = start table tape := by
  obtain ⟨htable, hinitial⟩ := table_of_reaches (Runner.Reaches.withoutRecord h)
  rw [reset, htable, hinitial, Machine.start]

theorem entered (h : Reached table tape past m) : table.Entered m.state :=
  entered_of_reaches (Runner.Reaches.withoutRecord h)

theorem nil (table : Table) (tape : Tape) : Reached table tape [] (start table tape) := .refl

theorem fire (h : Reached table tape past m) (hrunning : m.halt? = none) :
    Reached table tape (m :: past) m.fire :=
  Runner.Reaches.fire h hrunning

/-- What holds at the start and is kept by firings holds of all that is reached, because a reset
leads back to the start. -/
@[elab_as_elim]
theorem induction {motive : ∀ past m, Reached table tape past m → Prop}
    (start : motive [] (start table tape) (nil table tape))
    (fire : ∀ {past m} (h : Reached table tape past m) (hrunning : m.halt? = none),
      motive past m h → motive (m :: past) m.fire (h.fire hrunning))
    (h : Reached table tape past m) : motive past m h := by
  suffices ∀ recorded (hrecorded : runner.recording.Reaches (Machine.start table tape, []) recorded),
      motive recorded.2 recorded.1 hrecorded from this _ h
  intro recorded hrecorded
  induction hrecorded with
  | refl => exact start
  | fire hreached hrunning ih => exact fire hreached hrunning ih
  | @reset recorded hreached _ =>
    have hreset : runner.recording.reset recorded = (Machine.start table tape, []) :=
      Prod.ext (reset_eq hreached) rfl
    simp only [hreset]
    exact start

end Reached

/-- Calls of a machine are calls of one that keeps a record, and what they leave behind is
reached. -/
theorem exists_records {calls : List Call} {results : List (Reply × Machine)}
    (h : (start table tape).performAll calls = some results) :
    ∃ records, runner.recording.performAll (start table tape, []) calls = some records ∧
      results = records.map Runner.withoutRecord ∧
      ∀ record ∈ records, Reached table tape record.2.2 record.2.1 := by
  rw [performAll_eq, ← Runner.performAll_recording _ []] at h
  obtain ⟨records, hrecords, rfl⟩ := Option.map_eq_some_iff.1 h
  exact ⟨records, hrecords, rfl, fun _ => Runner.reaches_of_mem hrecords⟩

theorem exists_reached_of_mem {calls : List Call} {results : List (Reply × Machine)}
    (h : (start table tape).performAll calls = some results) {result : Reply × Machine}
    (hresult : result ∈ results) : ∃ past, Reached table tape past result.2 := by
  obtain ⟨records, -, rfl, hreached⟩ := exists_records h
  obtain ⟨record, hrecord, rfl⟩ := List.mem_map.1 hresult
  exact ⟨record.2.2, hreached record hrecord⟩

/-! ## Invariants -/

/-- What holds of a machine that was started on a tape and has fired from `past` since then. -/
structure Sound (table : Table) (tape : Tape) (past : List Machine) (m : Machine) : Prop where
  length_eq : m.tape.length = tape.length
  head_le : ∀ head, m.head = some head → head ≤ tape.length
  /-- A head is only ever lost by a move to the left, and never by one to the right. -/
  left_of_no_head : m.head = none → ∃ before earlier symbol rule, past = before :: earlier ∧
    before.Fires 0 symbol rule ∧ rule.direction = .left ∧ m = before.fire
  state : m.state = entryState ∨ ∃ rule ∈ table.quintuples, rule.next = m.state
  steps_eq : m.steps = past.length

theorem Reached.length_eq (h : Reached table tape past m) : m.tape.length = tape.length := by
  induction h using Reached.induction with
  | start => rfl
  | fire _ _ ih => rw [length_fire, ih]

theorem Reached.steps_eq (h : Reached table tape past m) : m.steps = past.length := by
  induction h using Reached.induction with
  | start => rfl
  | fire _ hrunning ih =>
    obtain ⟨head, symbol, rule, hfires⟩ := halt?_eq_none.1 hrunning
    rw [hfires.fire, List.length_cons, ← ih]

/-- The move that a firing makes, with the head on the tape before it. -/
theorem Reached.head_fire (h : Reached table tape past m) (hrunning : m.halt? = none) :
    ∃ head symbol rule, m.Fires head symbol rule ∧ head < tape.length ∧
      m.fire.head = rule.direction.apply head := by
  obtain ⟨head, symbol, rule, hfires⟩ := halt?_eq_none.1 hrunning
  refine ⟨head, symbol, rule, hfires, ?_, ?_⟩
  · rw [← h.length_eq]
    exact hfires.lt_length
  · rw [hfires.fire]

theorem Reached.head_le (h : Reached table tape past m) (hhead : m.head = some head) :
    head ≤ tape.length := by
  induction h using Reached.induction with
  | start =>
    cases hhead
    exact Nat.zero_le _
  | fire h hrunning _ =>
    obtain ⟨before, symbol, rule, -, hlt, hmove⟩ := h.head_fire hrunning
    rw [hmove] at hhead
    exact (Direction.le_of_apply hhead).trans hlt

theorem Reached.left_of_no_head (hlength : tape.length ≤ Number.greatest)
    (h : Reached table tape past m) (hhead : m.head = none) :
    ∃ before earlier symbol rule, past = before :: earlier ∧ before.Fires 0 symbol rule ∧
      rule.direction = .left ∧ m = before.fire := by
  induction h using Reached.induction with
  | start => cases hhead
  | @fire past m h hrunning _ =>
    obtain ⟨before, symbol, rule, hfires, hlt, hmove⟩ := h.head_fire hrunning
    rw [hmove, Direction.apply_eq_none (hlt.trans_le hlength)] at hhead
    obtain ⟨hleft, rfl⟩ := hhead
    exact ⟨m, past, symbol, rule, rfl, hfires, hleft, rfl⟩

theorem Reached.sound (hlength : tape.length ≤ Number.greatest) (h : Reached table tape past m) :
    Sound table tape past m where
  length_eq := h.length_eq
  head_le _ := h.head_le
  left_of_no_head := h.left_of_no_head hlength
  state := h.entered
  steps_eq := h.steps_eq

/-! ## The ways out of a step -/

/-- Where a step that tests everything on its way may end. -/
inductive Exit where
  | halted (halt : Halt)
  /-- There is no head, although nothing halts the machine. -/
  | noHead
  /-- There is no state under the number, although nothing halts the machine. -/
  | noState
  /-- There is no cell to fire on, although nothing halts the machine. -/
  | noCell
  | fired (firing : Firing)
deriving DecidableEq

/-- Where a step of the machine ends: it asks what halts the machine, and then looks for the head,
the state and the cell all the same. -/
def exit (m : Machine) : Exit :=
  match m.halt? with
  | some halt => .halted halt
  | none =>
    match m.head with
    | none => .noHead
    | some head =>
      match m.table.state? m.state with
      | none => .noState
      | some state =>
        match state.fire m.tape head with
        | none => .noCell
        | some firing => .fired firing

/-- What a step that ends there has to say, and the machine after it. -/
def Exit.outcome (m : Machine) : Exit → Step × Machine
  | halted halt => (.halted halt, m)
  | noHead => (.halted .offTape, m)
  | noState => (.halted (.undefinedState m.state), m)
  | noCell => (.halted .offTape, m)
  | fired firing => (.fired, m.after firing)

theorem exit_of_halt {halt : Halt} (h : m.halt? = some halt) : m.exit = .halted halt := by
  simp only [exit, h]

/-- Where nothing halts the machine, its rule fires on the cell under its head. -/
theorem exists_exit_fired (h : m.halt? = none) :
    ∃ head symbol rule firing, m.Fires head symbol rule ∧ rule.fire m.tape head = some firing ∧
      m.exit = .fired firing ∧ m.fire = m.after firing := by
  obtain ⟨head, symbol, rule, hfires⟩ := halt?_eq_none.1 h
  have hcell : rule.fire m.tape head ≠ none := fun hnone =>
    absurd hfires.lt_length (Nat.not_lt.2 (Quintuple.fire_eq_none.1 hnone))
  obtain ⟨firing, hfiring⟩ := Option.ne_none_iff_exists'.1 hcell
  refine ⟨head, symbol, rule, firing, hfires, hfiring, ?_, ?_⟩
  · simp only [exit, h, hfires.head_eq, hfires.state_eq, CompiledState.fire_mk, hfiring]
  · simp only [fire, firing?, hfires.head_eq, hfires.state_eq, Option.bind_some,
      CompiledState.fire_mk, hfiring]

theorem step_eq_outcome (m : Machine) : m.step = m.exit.outcome m := by
  cases h : m.halt? with
  | some halt => rw [step_of_halt h, exit_of_halt h, Exit.outcome]
  | none =>
    obtain ⟨head, symbol, rule, firing, -, -, hexit, hfire⟩ := exists_exit_fired h
    rw [step_of_running h, hexit, hfire, Exit.outcome]

/-- After any calls, a machine that started on a tape whose length is a 64-bit number is sound for
the firings since it last started, and so are all machines on the way.  Each of their steps ends in
a halt that was there before, or in a firing of the rule for the state on the cell under the
head. -/
theorem sound_of_performAll (table : Table) (tape : Tape) (hlength : tape.length ≤ Number.greatest) :
    (∀ calls results, (start table tape).performAll calls = some results →
      ∃ records, runner.recording.performAll (start table tape, []) calls = some records ∧
        results = records.map Runner.withoutRecord ∧
        ∀ record ∈ records, Sound table tape record.2.2 record.2.1) ∧
    ∀ past m, Reached table tape past m →
      Sound table tape past m ∧ m.step = m.exit.outcome m ∧
      ((∃ halt, m.halt? = some halt ∧ m.exit = .halted halt) ∨
        ∃ head symbol rule firing, m.halt? = none ∧ m.Fires head symbol rule ∧
          rule.fire m.tape head = some firing ∧ m.exit = .fired firing) := by
  constructor
  · intro calls results hresults
    obtain ⟨records, hrecords, hsame, hreached⟩ := exists_records hresults
    exact ⟨records, hrecords, hsame, fun record hrecord => (hreached record hrecord).sound hlength⟩
  · intro past m hreached
    refine ⟨hreached.sound hlength, step_eq_outcome m, ?_⟩
    cases hhalt : m.halt? with
    | some halt => exact .inl ⟨halt, rfl, exit_of_halt hhalt⟩
    | none =>
      obtain ⟨head, symbol, rule, firing, hfires, hfiring, hexit, -⟩ := exists_exit_fired hhalt
      exact .inr ⟨head, symbol, rule, firing, rfl, hfires, hfiring, hexit⟩

/-- A machine that moves off to the left, and starts again. -/
theorem sound_of_performAll_left :
    (Tape.blank 2).length ≤ Number.greatest ∧
    (∃ records : List (Reply × Machine × List Machine),
      records.map (fun record => (record.2.1.head, record.2.1.steps)) = [(none, 1), (some 0, 0)] ∧
      ∀ record ∈ records, Sound (.ofList [⟨1, .blank, .one, .left, 3⟩]) (.blank 2) record.2.2
        record.2.1) ∧
    (∃ halt, (start (.ofList [⟨1, .blank, .one, .left, 3⟩]) (.blank 2)).fire.exit = .halted halt) := by
  have hlength : (Tape.blank 2).length ≤ Number.greatest := by decide
  obtain ⟨hcalls, hreached⟩ :=
    sound_of_performAll (.ofList [⟨1, .blank, .one, .left, 3⟩]) (.blank 2) hlength
  refine ⟨hlength, ?_, ?_⟩
  · obtain ⟨records, -, hrecords, hsound⟩ := hcalls [.runFor 5, .reset] _ rfl
    have hseen := congrArg (List.map fun result : Reply × Machine => (result.2.head, result.2.steps))
      hrecords
    rw [List.map_map] at hseen
    exact ⟨records, hseen.symm, hsound⟩
  · obtain ⟨-, -, hexit⟩ := hreached _ _ ((Reached.nil _ _).fire rfl)
    rcases hexit with ⟨halt, -, hexit⟩ | ⟨_, _, _, _, hrunning, -⟩
    · exact ⟨halt, hexit⟩
    · cases hrunning

end Machine

end QuintupleMachine
