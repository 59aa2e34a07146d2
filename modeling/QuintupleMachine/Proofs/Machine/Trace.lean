import QuintupleMachine.Proofs.Machine.Budget

/-! # Traced runs

A traced run keeps every configuration that it passes.  Its limit counts all firings of the machine
and is tested before each of them, where a budget counts the firings of one run and is used up at
its end.  From the start of a run both come to the same (`traceTo_start`), and a traced run without
a limit ends as an unbounded run does, or not at all (`trace_eq_run`).  What is kept is the
configuration after each number of firings (`Trace.Records`). -/

namespace QuintupleMachine.Machine

variable {m next last : Machine} {halt : Halt} {limit : Nat}

/-! ## The loop -/

/-- A trace with one more configuration in front. -/
def Trace.after (m : Machine) (trace : Trace) : Trace :=
  { trace with passed := m :: trace.passed }

theorem traceTo_eq (limit : Nat) (m : Machine) :
    m.traceTo limit =
      ⟨(m.advance (limit - m.steps)).halt?.elim
          (.stepLimit (m.advance (limit - m.steps)).steps) .halted,
        m.path (limit - m.steps), m.advance (limit - m.steps)⟩ := by
  rw [traceTo, getLast?_path]
  simp only [Option.getD_some]
  cases (m.advance (limit - m.steps)).halt? <;> rfl

/-- A halted machine is traced where it stands. -/
theorem traceTo_of_halted (h : m.halt? = some halt) (limit : Nat) :
    m.traceTo limit = ⟨.halted halt, [m], m⟩ := by
  have hhalted : m.isHalted = true := Option.isSome_of_eq_some h
  have hpath : m.path (limit - m.steps) = [m] := by
    cases limit - m.steps with
    | zero => rfl
    | succ n => rw [path, if_pos hhalted]
  rw [traceTo_eq, advance_of_isHalted hhalted, hpath, h]
  rfl

/-- A running machine that has reached the limit stops, and reports what it has counted. -/
theorem traceTo_of_le (h : m.halt? = none) (hlimit : limit ≤ m.steps) :
    m.traceTo limit = ⟨.stepLimit m.steps, [m], m⟩ := by
  rw [traceTo_eq, Nat.sub_eq_zero_of_le hlimit, advance, path, h]
  rfl

/-- A running machine below the limit fires, and is traced from there. -/
theorem traceTo_of_lt (h : m.halt? = none) (hlimit : m.steps < limit) :
    m.traceTo limit = (m.fire.traceTo limit).after m := by
  have hrest : limit - m.steps = (limit - m.fire.steps) + 1 := by
    rw [steps_fire h]
    omega
  have hpath : m.path (limit - m.steps) = m :: m.fire.path (limit - m.fire.steps) := by
    rw [hrest, path, isHalted, h]
    rfl
  rw [traceTo_eq, traceTo_eq, hpath, hrest, advance_of_running h]
  rfl

/-! ## What is kept -/

/-- A trace of a run holds the configuration after each number of firings, up to the last one. -/
def Trace.Records (trace : Trace) (m : Machine) : Prop :=
  ∃ k, m.Fired k trace.last ∧ trace.passed = (List.range (k + 1)).map m.stepped

theorem Trace.Records.singleton (stop : Stop) (m : Machine) : Records ⟨stop, [m], m⟩ m :=
  ⟨0, .refl m, rfl⟩

theorem Trace.Records.after {trace : Trace} (h : trace.Records next)
    (hstep : m.step = (.fired, next)) : (trace.after m).Records m := by
  obtain ⟨k, hfired, hpassed⟩ := h
  refine ⟨k + 1, .step hstep hfired, ?_⟩
  have hnext : ∀ i, m.stepped (i + 1) = next.stepped i := by
    intro i
    rw [stepped, Function.iterate_succ_apply, hstep]
    rfl
  calc
    m :: trace.passed = m :: (List.range (k + 1)).map next.stepped := by rw [hpassed]
    _ = m.stepped 0 :: (List.range (k + 1)).map (fun i => m.stepped (i + 1)) := by
      simp only [hnext]
      rfl
    _ = (List.range (k + 1 + 1)).map m.stepped := by
      rw [List.range_succ_eq_map (n := k + 1), List.map_cons, List.map_map]
      rfl

/-- A traced run makes the firings that are left up to its limit, unless the machine halts. -/
theorem traceTo_spec (d : Nat) (h : m.steps + d = limit) :
    (m.traceTo limit).Records m ∧ (m.traceTo limit).last = m.advance d ∧
      (m.traceTo limit).stop = (m.advance d).halt?.elim (.stepLimit limit) .halted := by
  induction d generalizing m with
  | zero =>
    cases hm : m.halt? with
    | some halt =>
      rw [traceTo_of_halted hm, advance, hm]
      exact ⟨.singleton _ m, rfl, rfl⟩
    | none =>
      rw [traceTo_of_le hm (Nat.le_of_eq h.symm), advance, hm, ← h]
      exact ⟨.singleton _ m, rfl, rfl⟩
  | succ d ih =>
    cases hm : m.halt? with
    | some halt =>
      rw [traceTo_of_halted hm, advance_of_isHalted (Option.isSome_of_eq_some hm), hm]
      exact ⟨.singleton _ m, rfl, rfl⟩
    | none =>
      have hnext : m.fire.steps + d = limit := by
        rw [steps_fire hm]
        omega
      obtain ⟨hrecords, hlast, hstop⟩ := ih hnext
      rw [traceTo_of_lt hm (by omega), advance_of_running hm]
      exact ⟨hrecords.after (step_eq_fired.2 ⟨hm, rfl⟩), hlast, hstop⟩

/-! ## Traced and plain runs -/

/-- From the start of a run, a limit is a budget. -/
theorem traceTo_start (table : Table) (tape : Tape) (limit : Nat) :
    (((start table tape).traceTo limit).stop, ((start table tape).traceTo limit).last) =
      (start table tape).runFor limit := by
  obtain ⟨-, hlast, hstop⟩ := traceTo_spec (m := start table tape) limit (Nat.zero_add limit)
  rw [hlast, hstop]
  cases hhalt : ((start table tape).advance limit).halt? with
  | none => rw [runFor_of_running hhalt]; rfl
  | some halt => rw [runFor_of_halted hhalt]; rfl

/-- A traced run without a limit is one whose limit is not reached. -/
theorem trace_eq (m : Machine) :
    m.trace = (m.advance m.haltingBound).halt?.map
      fun _ => m.traceTo (m.steps + m.haltingBound) := by
  rw [trace, getLast?_path, traceTo_eq, Nat.add_sub_cancel_left]
  simp only [Option.getD_some]
  cases (m.advance m.haltingBound).halt? <;> rfl

/-- A traced run without a limit ends as the unbounded run does, or neither ends. -/
theorem trace_eq_run (m : Machine) :
    m.trace.map (fun trace => (trace.stop, trace.last)) =
      m.run.map fun result => (.halted result.1, result.2) := by
  obtain ⟨-, hlast, hstop⟩ := traceTo_spec (m := m) m.haltingBound rfl
  rw [trace_eq, run, outlast_eq]
  simp only [Option.map_map]
  cases hhalt : (m.advance m.haltingBound).halt? with
  | none => rfl
  | some halt => simp [hlast, hstop, hhalt]

/-- Every traced run records all that it passes. -/
theorem records_traceTo (h : m.steps ≤ limit) : (m.traceTo limit).Records m :=
  (traceTo_spec (limit - m.steps) (Nat.add_sub_cancel' h)).1

theorem records_of_trace {trace : Trace} (h : m.trace = some trace) : trace.Records m := by
  rw [trace_eq, Option.map_eq_some_iff] at h
  obtain ⟨_, -, rfl⟩ := h
  exact records_traceTo (Nat.le_add_right _ _)

end QuintupleMachine.Machine
