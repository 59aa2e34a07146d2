import QuintupleMachine.Proofs.Machine.Budget
import QuintupleMachine.Proofs.Machine.Calls

/-! # Sequences of calls

Calls are carried out one after the other, each on the machine that the last one has left behind, so
a sequence of calls can be cut anywhere (`performAll_append`).

Two cuts have a meaning of their own.  A run with a budget may be cut into slices: as long as they
allow as many firings in all, it makes no difference how many slices there are and whether the
machine halts before, in or right after one of them (`final_of_slices`).  And a sequence is cut by
its resets: no call changes the table or the tape to start from, so that nothing that was done
before a reset can be told from what is done after it (`performAll_resets`). -/

namespace QuintupleMachine.Machine

variable {table : Table} {tape : Tape} {total : Nat} {calls : List Call}

/-- The machine that calls have left behind, given their results.  Without any calls it is the one
that they were made of. -/
def final (m : Machine) (results : List (Reply × Machine)) : Machine :=
  (results.getLast?.map Prod.snd).getD m

@[simp] theorem final_nil (m : Machine) : m.final [] = m := by
  simp [final]

@[simp] theorem final_cons (m : Machine) (result : Reply × Machine)
    (results : List (Reply × Machine)) : m.final (result :: results) = result.2.final results := by
  rw [final, final, List.getLast?_cons]
  cases results.getLast? <;> rfl

/-- Calls are made of the machine that the calls before them have left behind. -/
theorem performAll_append (m : Machine) (calls more : List Call) :
    m.performAll (calls ++ more) =
      (m.performAll calls).bind fun results =>
        ((m.final results).performAll more).map (results ++ ·) := by
  induction calls generalizing m with
  | nil => simp [performAll]
  | cons call calls ih =>
    simp only [List.cons_append, performAll, Option.bind_assoc]
    congr 1
    funext result
    rw [ih]
    cases result.2.performAll calls with
    | none => rfl
    | some results => simp [Function.comp_def]

/-! ## Slices -/

/-- `Slices calls total`: the calls only step or run with a budget, and allow `total` firings in
all. -/
inductive Slices : List Call → Nat → Prop
  | nil : Slices [] 0
  | step {calls : List Call} {total : Nat} (rest : Slices calls total) :
      Slices (.step :: calls) (1 + total)
  | runFor {calls : List Call} {total : Nat} (budget : Nat) (rest : Slices calls total) :
      Slices (.runFor budget :: calls) (budget + total)

theorem step_snd (m : Machine) : m.step.2 = m.advance 1 := stepped_eq_advance 1 m

theorem runFor_snd (n : Nat) (m : Machine) : (m.runFor n).2 = m.advance n := by
  cases h : (m.advance n).halt? with
  | none => rw [runFor_of_running h]
  | some halt => rw [runFor_of_halted h]

/-- However a run is cut into slices, it comes as far as their budgets come to in all. -/
theorem final_of_slices (h : Slices calls total) (m : Machine) :
    ∃ results, m.performAll calls = some results ∧ m.final results = m.advance total := by
  induction h generalizing m with
  | nil => exact ⟨[], rfl, rfl⟩
  | step rest ih =>
    obtain ⟨results, hresults, hfinal⟩ := ih m.step.2
    refine ⟨(.stepped m.step.1, m.step.2) :: results, ?_, ?_⟩
    · simp only [performAll, perform, Prod.map, id, Option.bind_some, hresults, Option.map_some]
    · rw [final_cons, hfinal, step_snd, ← advance_add]
  | runFor budget rest ih =>
    obtain ⟨results, hresults, hfinal⟩ := ih (m.runFor budget).2
    refine ⟨(.stopped (m.runFor budget).1, (m.runFor budget).2) :: results, ?_, ?_⟩
    · simp only [performAll, perform, Prod.map, id, Option.bind_some, hresults, Option.map_some]
    · rw [final_cons, hfinal, runFor_snd, ← advance_add]

/-- A machine that goes on with a second budget ends where it would have ended with both in one. -/
theorem advance_runFor (a b : Nat) (m : Machine) :
    (m.runFor a).2.advance b = m.advance (a + b) := by
  rw [runFor_snd, advance_add]

/-- Calls of `step` and `runFor` that allow as many firings in all leave the same machine behind,
halted or not.  Where a run is cut in two, the second slice halts as the whole run does, and if the
whole run uses up its budget, the second slice uses up its own. -/
theorem performAll_of_slices (m : Machine) :
    (∀ calls calls' total, Slices calls total → Slices calls' total →
      ∃ results results', m.performAll calls = some results ∧
        m.performAll calls' = some results' ∧ m.final results = m.final results') ∧
    ∀ a b,
      (∀ halt, (m.runFor (a + b)).1 = .halted halt → ((m.runFor a).2.runFor b).1 = .halted halt) ∧
      ((m.runFor (a + b)).1 = .stepLimit (a + b) →
        ((m.runFor a).2.runFor b).1 = .stepLimit b) ∧
      ((m.runFor (a + b)).1 = .stepLimit (a + b) ∨ ∃ halt, (m.runFor (a + b)).1 = .halted halt) ∧
      ((m.runFor a).2.runFor b).2 = (m.runFor (a + b)).2 := by
  constructor
  · intro calls calls' total hcalls hcalls'
    obtain ⟨results, hresults, hfinal⟩ := final_of_slices hcalls m
    obtain ⟨results', hresults', hfinal'⟩ := final_of_slices hcalls' m
    exact ⟨results, results', hresults, hresults', hfinal.trans hfinal'.symm⟩
  · intro a b
    have hlast := advance_runFor a b m
    cases h : (m.advance (a + b)).halt? with
    | none =>
      rw [runFor_of_running h, runFor_of_running (hlast ▸ h), hlast]
      exact ⟨nofun, fun _ => rfl, .inl rfl, rfl⟩
    | some halt =>
      rw [runFor_of_halted h, runFor_of_halted (hlast ▸ h), hlast]
      exact ⟨fun _ => id, nofun, .inr ⟨halt, rfl⟩, rfl⟩

/-- A machine that leaves its tape with its second firing, asked for three firings in two ways, and
cut right at the halt. -/
theorem performAll_of_slices_halt :
    Slices [.step, .runFor 2] 3 ∧ Slices [.runFor 1, .runFor 0, .runFor 2] 3 ∧
    (∃ results results',
      (start (.ofList [⟨1, .blank, .one, .right, 1⟩]) (.blank 2)).performAll [.step, .runFor 2] =
        some results ∧
      (start (.ofList [⟨1, .blank, .one, .right, 1⟩]) (.blank 2)).performAll
        [.runFor 1, .runFor 0, .runFor 2] = some results' ∧
      (start (.ofList [⟨1, .blank, .one, .right, 1⟩]) (.blank 2)).final results =
        (start (.ofList [⟨1, .blank, .one, .right, 1⟩]) (.blank 2)).final results') ∧
    (((start (.ofList [⟨1, .blank, .one, .right, 1⟩]) (.blank 2)).runFor 2).2.runFor 0).1 =
      .halted .offTape := by
  have hslices : Slices [.step, .runFor 2] 3 := .step (.runFor 2 .nil)
  have hslices' : Slices [.runFor 1, .runFor 0, .runFor 2] 3 :=
    .runFor 1 (.runFor 0 (.runFor 2 .nil))
  obtain ⟨hsame, hcut⟩ :=
    performAll_of_slices (start (.ofList [⟨1, .blank, .one, .right, 1⟩]) (.blank 2))
  exact ⟨hslices, hslices', hsame _ _ _ hslices hslices', (hcut 2 0).1 .offTape rfl⟩

/-! ## Resets -/

/-- Whatever was done with a machine, a reset brings it back to the start. -/
theorem reset_final {results : List (Reply × Machine)}
    (h : (start table tape).performAll calls = some results) :
    ((start table tape).final results).reset = start table tape := by
  rw [final]
  cases hlast : results.getLast? with
  | none => rfl
  | some last =>
    rw [performAll_eq] at h
    obtain ⟨call, m, hm, hcall⟩ : ∃ t call, runner.Reaches (start table tape) t ∧
        runner.perform t call = some last :=
      Runner.exists_perform_of_mem h (List.mem_of_getLast? hlast)
    obtain ⟨htable, hinitial⟩ := table_of_reaches (hm.perform hcall)
    rw [Option.map_some, Option.getD_some, reset, htable, hinitial, start]

/-- The calls after a reset are answered as those of a machine that has just been started. -/
theorem performAll_append_reset (table : Table) (tape : Tape) (calls later : List Call) :
    (start table tape).performAll (calls ++ .reset :: later) =
      ((start table tape).performAll calls).bind fun results =>
        ((start table tape).performAll later).map fun more =>
          results ++ (.nothing, start table tape) :: more := by
  rw [performAll_append]
  cases h : (start table tape).performAll calls with
  | none => rfl
  | some results =>
    simp only [Option.bind_some, performAll, perform, reset_final h, Option.map_map]
    rfl

/-- Nothing that was done with a machine before a reset can be told from what is done with it
afterwards: the later calls give the results that they give on a new machine for the same table and
tape, or no result where they give none there.  With any number of resets, every stretch of calls
between two of them is carried out as if it stood alone. -/
theorem performAll_resets (table : Table) (tape : Tape) :
    (∀ calls later, (start table tape).performAll (calls ++ .reset :: later) =
      ((start table tape).performAll calls).bind fun results =>
        ((start table tape).performAll later).map fun more =>
          results ++ (.nothing, start table tape) :: more) ∧
    ∀ (stretches : List (List Call)) (later : List Call),
      (start table tape).performAll (stretches.flatMap (· ++ [.reset]) ++ later) =
        (stretches.mapM (start table tape).performAll).bind fun done =>
          ((start table tape).performAll later).map fun more =>
            done.flatMap (· ++ [(.nothing, start table tape)]) ++ more := by
  refine ⟨performAll_append_reset table tape, fun stretches later => ?_⟩
  induction stretches with
  | nil => simp
  | cons calls stretches ih =>
    rw [List.flatMap_cons, List.append_assoc, List.append_assoc, List.singleton_append,
      performAll_append_reset, ih, List.mapM_cons]
    cases (start table tape).performAll calls with
    | none => rfl
    | some results =>
      cases stretches.mapM (start table tape).performAll with
      | none => rfl
      | some done =>
        cases (start table tape).performAll later with
        | none => rfl
        | some more => simp

end QuintupleMachine.Machine
