import QuintupleMachine.Proofs.Machine.Halting

/-! # Runs with a budget

Calls of `step` that all fire take a machine from one configuration to a later one, and they can be
counted (`Fired`).  A run with a budget makes as many of them as the budget allows, unless the
machine halts first.  So a budget cuts an unbounded run short or leaves it alone
(`runFor_of_run`): if the run needs more firings than the budget has, the budget is reported, and
otherwise the halt is, even if it comes with the last firing allowed. -/

namespace QuintupleMachine.Machine

variable {m next last : Machine} {halt : Halt} {k n : Nat}

/-! ## Counted firings -/

theorem step_eq_fired : m.step = (.fired, next) ↔ m.halt? = none ∧ next = m.fire := by
  unfold step
  cases m.halt? with
  | none =>
    rw [Prod.mk.injEq]
    exact and_congr (by simp) eq_comm
  | some halt => simp

/-- `m.Fired n last`: the machine fires `n` times in a row, in as many calls of `step`, and then it
is `last`. -/
inductive Fired : Machine → Nat → Machine → Prop
  | refl (m : Machine) : Fired m 0 m
  | step {m next last : Machine} {n : Nat} (first : m.step = (.fired, next))
      (rest : Fired next n last) : Fired m (n + 1) last

theorem steps_fire (h : m.halt? = none) : m.fire.steps = m.steps + 1 := by
  obtain ⟨head, symbol, rule, hfires⟩ := halt?_eq_none.1 h
  rw [hfires.fire]

theorem advance_of_running (h : m.halt? = none) (n : Nat) :
    m.advance (n + 1) = m.fire.advance n := by
  rw [advance, isHalted, h]
  rfl

namespace Fired

/-- Every firing is counted by the machine. -/
theorem steps_eq (h : m.Fired n last) : last.steps = m.steps + n := by
  induction h with
  | refl m => rfl
  | @step m next last n first rest ih =>
    obtain ⟨hrunning, rfl⟩ := step_eq_fired.1 first
    rw [ih, steps_fire hrunning, Nat.add_right_comm]
    rfl

/-- Firings write in the cells of a tape and leave as many of them. -/
theorem length_eq (h : m.Fired n last) : last.tape.length = m.tape.length := by
  induction h with
  | refl m => rfl
  | step first rest ih =>
    obtain ⟨-, rfl⟩ := step_eq_fired.1 first
    rw [ih, length_fire]

/-- Firings are what a run is made of. -/
theorem advance_eq (h : m.Fired n last) : m.advance n = last := by
  induction h with
  | refl m => rfl
  | step first rest ih =>
    obtain ⟨hrunning, rfl⟩ := step_eq_fired.1 first
    rw [advance_of_running hrunning, ih]

/-- On the way to a later configuration a machine is running. -/
theorem of_lt (h : m.Fired k last) (hn : n < k) :
    m.Fired n (m.advance n) ∧ (m.advance n).halt? = none := by
  induction h generalizing n with
  | refl m => cases hn
  | step first rest ih =>
    obtain ⟨hrunning, rfl⟩ := step_eq_fired.1 first
    cases n with
    | zero => exact ⟨.refl _, hrunning⟩
    | succ n =>
      obtain ⟨hfired, hnext⟩ := ih (Nat.lt_of_succ_lt_succ hn)
      rw [advance_of_running hrunning]
      exact ⟨.step first hfired, hnext⟩

theorem of_le (h : m.Fired k last) (hn : n ≤ k) : m.Fired n (m.advance n) := by
  rcases Nat.lt_or_eq_of_le hn with hlt | rfl
  · exact (h.of_lt hlt).1
  · rwa [h.advance_eq]

end Fired

/-- A run makes all the firings that it may make, unless the machine halts. -/
theorem exists_fired (n : Nat) (m : Machine) :
    ∃ k, k ≤ n ∧ m.Fired k (m.advance n) ∧ ((m.advance n).halt? = none → k = n) := by
  induction n generalizing m with
  | zero => exact ⟨0, Nat.le_refl 0, .refl m, fun _ => rfl⟩
  | succ n ih =>
    cases hm : m.halt? with
    | some halt =>
      have hstay : m.advance (n + 1) = m := advance_of_isHalted (Option.isSome_of_eq_some hm) _
      refine ⟨0, Nat.zero_le _, ?_, ?_⟩
      · rw [hstay]
        exact .refl m
      · intro hrunning
        rw [hstay, hm] at hrunning
        cases hrunning
    | none =>
      obtain ⟨k, hk, hfired, hall⟩ := ih m.fire
      rw [advance_of_running hm]
      refine ⟨k + 1, Nat.succ_le_succ hk, .step (step_eq_fired.2 ⟨hm, rfl⟩) hfired, ?_⟩
      intro hrunning
      rw [hall hrunning]

theorem fired_of_running (h : (m.advance n).halt? = none) : m.Fired n (m.advance n) := by
  obtain ⟨k, -, hfired, hall⟩ := exists_fired n m
  rwa [hall h] at hfired

/-! ## Budgets -/

theorem runFor_of_running (h : (m.advance n).halt? = none) :
    m.runFor n = (.stepLimit n, m.advance n) := by
  simp only [runFor, h]

theorem runFor_of_halted (h : (m.advance n).halt? = some halt) :
    m.runFor n = (.halted halt, m.advance n) := by
  simp only [runFor, h]

/-- A run without end is running after any number of firings. -/
theorem running_of_run_eq_none (h : m.run = none) (n : Nat) : (m.advance n).halt? = none := by
  cases hlast : (m.advance n).halt? with
  | none => rfl
  | some halt =>
    rw [run_eq_some.2 ⟨n, rfl, hlast⟩] at h
    cases h

/-- Where firings lead to a halt, an unbounded run ends there. -/
theorem Fired.run (h : m.Fired k last) (hhalt : last.halt? = some halt) :
    m.run = some (halt, last) :=
  run_eq_some.2 ⟨k, h.advance_eq.symm, hhalt⟩

/-- A budget for all firings up to a halt changes nothing about the run. -/
theorem Fired.runFor_of_le (h : m.Fired k last) (hhalt : last.halt? = some halt) (hk : k ≤ n) :
    m.runFor n = (.halted halt, last) := by
  have hlast : m.advance n = last := by
    rw [← h.advance_eq] at hhalt ⊢
    exact advance_eq_of_isHalted (Option.isSome_of_eq_some hhalt) hk
  rw [← hlast] at hhalt ⊢
  exact runFor_of_halted hhalt

/-- If a machine stops for good after `k` further firings, a run with a budget of at least `k`
firings ends in the same halt and in the same place, and a run with a smaller budget makes as many
firings as it may and reports its budget.  If the machine never stops, every budget is used up.  So
whatever halt a run with a budget reports is that of the unbounded run. -/
theorem runFor_of_run (m : Machine) :
    (∀ k halt last, m.Fired k last → last.halt? = some halt →
      m.run = some (halt, last) ∧
      (∀ n, k ≤ n → m.runFor n = (.halted halt, last)) ∧
      ∀ n, n < k → ∃ stopped, m.Fired n stopped ∧ stopped.steps = m.steps + n ∧
        m.runFor n = (.stepLimit n, stopped)) ∧
    (∀ halt last, m.run = some (halt, last) →
      ∃ k, m.Fired k last ∧ last.halt? = some halt) ∧
    (m.run = none → ∀ n, ∃ stopped, m.Fired n stopped ∧ stopped.steps = m.steps + n ∧
      m.runFor n = (.stepLimit n, stopped)) ∧
    ∀ n halt last, m.runFor n = (.halted halt, last) → m.run = some (halt, last) := by
  have hcut : ∀ n, (m.advance n).halt? = none → ∃ stopped, m.Fired n stopped ∧
      stopped.steps = m.steps + n ∧ m.runFor n = (.stepLimit n, stopped) := by
    intro n hrunning
    have hfired := fired_of_running hrunning
    exact ⟨_, hfired, hfired.steps_eq, runFor_of_running hrunning⟩
  refine ⟨?_, ?_, ?_, ?_⟩
  · intro k halt last hfired hhalt
    refine ⟨hfired.run hhalt, ?_, ?_⟩
    · intro n hk
      exact hfired.runFor_of_le hhalt hk
    · intro n hn
      exact hcut n (hfired.of_lt hn).2
  · intro halt last hrun
    obtain ⟨n, rfl, hhalt⟩ := run_eq_some.1 hrun
    obtain ⟨k, -, hfired, -⟩ := exists_fired n m
    exact ⟨k, hfired, hhalt⟩
  · intro hnever n
    exact hcut n (running_of_run_eq_none hnever n)
  · intro n halt last hlast
    cases hhalt : (m.advance n).halt? with
    | none =>
      rw [runFor_of_running hhalt] at hlast
      cases hlast
    | some first =>
      rw [runFor_of_halted hhalt] at hlast
      cases hlast
      exact run_eq_some.2 ⟨n, rfl, hhalt⟩

/-- A machine that leaves its tape with its second firing, and one that stays where it is. -/
theorem runFor_of_run_second :
    (∃ last stopped,
      (start (.ofList [⟨1, .blank, .one, .right, 1⟩]) (.blank 2)).run = some (.offTape, last) ∧
      (start (.ofList [⟨1, .blank, .one, .right, 1⟩]) (.blank 2)).runFor 2 =
        (.halted .offTape, last) ∧
      (start (.ofList [⟨1, .blank, .one, .right, 1⟩]) (.blank 2)).Fired 1 stopped ∧
      (start (.ofList [⟨1, .blank, .one, .right, 1⟩]) (.blank 2)).runFor 1 =
        (.stepLimit 1, stopped)) ∧
    (start (.ofList [⟨1, .blank, .one, .stay, 1⟩]) (.blank 2)).run = none ∧
    ∃ stopped, (start (.ofList [⟨1, .blank, .one, .stay, 1⟩]) (.blank 2)).Fired 7 stopped ∧
      (start (.ofList [⟨1, .blank, .one, .stay, 1⟩]) (.blank 2)).runFor 7 =
        (.stepLimit 7, stopped) := by
  have hfired : (start (.ofList [⟨1, .blank, .one, .right, 1⟩]) (.blank 2)).Fired 2 _ :=
    .step rfl (.step rfl (.refl _))
  have hnever : (start (.ofList [⟨1, .blank, .one, .stay, 1⟩]) (.blank 2)).run = none := by
    decide
  obtain ⟨hrun, hwhole, hcut⟩ := (runFor_of_run _).1 2 .offTape _ hfired rfl
  obtain ⟨stopped, hstopped, -, hlimit⟩ := hcut 1 (by decide)
  obtain ⟨stayed, hstayed, -, hseven⟩ := (runFor_of_run _).2.2.1 hnever 7
  exact ⟨⟨_, stopped, hrun, hwhole 2 (by decide), hstopped, hlimit⟩, hnever, stayed, hstayed,
    hseven⟩

end QuintupleMachine.Machine
