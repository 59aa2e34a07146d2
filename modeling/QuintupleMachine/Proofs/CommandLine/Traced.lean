import QuintupleMachine.CommandLine.Outcome
import QuintupleMachine.Proofs.CommandLine.Flags
import QuintupleMachine.Proofs.Machine.Trace

/-! # Traced commands

Asking `run` for a trace changes what it says on standard error and nothing else
(`outcome_traced`).  The trace has a line for each number of firings, from none to all of them,
which shows the configuration that they lead to (`traceText_of_records`). -/

namespace QuintupleMachine.CommandLine

open Machine

/-! ## The text of a trace -/

/-- The line for the configuration after a number of firings. -/
def lineAfter (firings : Nat) (m : Machine) : String :=
  let head := match m.head with
    | some head => Number.text head
    | none => "-"
  "Step: " ++ Number.text firings ++ ", State: " ++ Number.text m.state ++ ", Head: " ++ head ++
    ", Tape: " ++ m.tape.text ++ "\n"

/-- What comes after the lines of a trace. -/
def closingText : Stop → String
  | .halted halt => "\nMachine halted: " ++ halt.text ++ "\n"
  | .stepLimit _ => ""

theorem configurationText_eq (m : Machine) : configurationText m = lineAfter m.steps m := by
  unfold configurationText lineAfter
  cases m.head <;> rfl

theorem traceText_eq (trace : Trace) :
    traceText trace =
      String.join (trace.passed.map configurationText) ++ closingText trace.stop := by
  unfold traceText closingText
  cases trace.stop <;> rfl

/-- A trace from the start has a line for each number of firings, and the last one is for all of
them. -/
theorem traceText_of_records {trace : Trace} {table : Table} {tape : Tape}
    (h : trace.Records (start table tape)) :
    (start table tape).Fired trace.last.steps trace.last ∧
      traceText trace =
        String.join ((List.range (trace.last.steps + 1)).map fun i =>
          lineAfter i ((start table tape).stepped i)) ++ closingText trace.stop := by
  obtain ⟨k, hfired, hpassed⟩ := h
  have hsteps : trace.last.steps = k := by
    rw [hfired.steps_eq]
    exact Nat.zero_add k
  have hline : ∀ i ∈ List.range (k + 1),
      configurationText ((start table tape).stepped i) =
        lineAfter i ((start table tape).stepped i) := by
    intro i hi
    have hi : i ≤ k := Nat.le_of_lt_succ (List.mem_range.1 hi)
    have hcount : ((start table tape).advance i).steps = i := by
      rw [(hfired.of_le hi).steps_eq]
      exact Nat.zero_add i
    rw [configurationText_eq, stepped_eq_advance, hcount]
  rw [traceText_eq, hpassed, List.map_map, hsteps]
  exact ⟨hfired, congrArg (String.join · ++ closingText trace.stop) (List.map_congr_left hline)⟩

/-! ## Running with and without a trace -/

/-- What a run comes to, traced or not. -/
theorem runMachine_traced (limit : Option Nat) (table : Table) (tape : Tape) :
    (runMachine limit true (start table tape)).map (fun result => (result.1, result.2.1)) =
      (runMachine limit false (start table tape)).map fun result => (result.1, result.2.1) := by
  cases limit with
  | some limit => exact congrArg some (traceTo_start table tape limit)
  | none =>
    have h := trace_eq_run (start table tape)
    simp only [runMachine, Option.map_map]
    exact h

/-- The trace that a run prints records the run. -/
theorem records_of_runMachine {limit : Option Nat} {table : Table} {tape : Tape} {stop : Stop}
    {last : Machine} {text : String}
    (h : runMachine limit true (start table tape) = some (stop, last, text)) :
    ∃ trace, trace.Records (start table tape) ∧ trace.stop = stop ∧ trace.last = last ∧
      traceText trace = text := by
  cases limit with
  | some limit =>
    cases h
    exact ⟨_, records_traceTo (Nat.zero_le limit), rfl, rfl, rfl⟩
  | none =>
    obtain ⟨trace, htrace, h⟩ := Option.map_eq_some_iff.1 h
    cases h
    exact ⟨trace, records_of_trace htrace, rfl, rfl, rfl⟩

/-- A trace changes neither how a command exits nor what it prints on standard output. -/
theorem outcome_traced (inputs : Inputs) (source : Source) (choice : TapeChoice)
    (limit : Option Nat) (json : Bool) :
    ((Command.run source choice limit true json).outcome inputs).exit =
        ((Command.run source choice limit false json).outcome inputs).exit ∧
      ((Command.run source choice limit true json).outcome inputs).stdout =
        ((Command.run source choice limit false json).outcome inputs).stdout := by
  simp only [Command.outcome, Command.output]
  cases source.load inputs with
  | error e => exact ⟨rfl, rfl⟩
  | ok program =>
    simp only [bind, Except.bind]
    cases choice.tape program with
    | error e => exact ⟨rfl, rfl⟩
    | ok tape =>
      dsimp only
      have hruns := runMachine_traced limit program.table tape
      generalize runMachine limit true (start program.table tape) = traced at hruns ⊢
      generalize runMachine limit false (start program.table tape) = plain at hruns ⊢
      cases traced with
      | none =>
        obtain rfl := Option.map_eq_none_iff.1 hruns.symm
        exact ⟨rfl, rfl⟩
      | some result =>
        obtain ⟨result', rfl, hresult⟩ := Option.map_eq_some_iff.1 hruns.symm
        obtain ⟨stop, last, text⟩ := result
        obtain ⟨stop', last', text'⟩ := result'
        cases hresult
        cases json <;> exact ⟨rfl, rfl⟩

/-! ## Asking for a trace -/

theorem ofArguments_run (arguments : List String) :
    Command.ofArguments ("run" :: arguments) =
      match readArguments Command.runOptions 1 none .none arguments with
      | .error e => .error e
      | .ok given => (Command.ofRunArguments given).mapError .usage :=
  Command.ofArguments_of_byName? (by decide) (by decide) rfl arguments

theorem readArguments_debug (rest : List String) :
    readArguments Command.runOptions 1 none .none ("--debug" :: rest) =
      readArguments Command.runOptions 1 none ⟨[("debug", "")], []⟩ rest := by
  have hword : Word.ofArgument "--debug" = .long "debug".toList none := by decide
  have hread : readLong Command.runOptions .none "debug".toList none =
      .ok (⟨[("debug", "")], []⟩, none) := rfl
  rw [readArguments_of_long rest hword, hread]

theorem kind_debug : ∀ spec ∈ Command.runOptions, spec.name = "debug" → spec.kind = .flag := by
  simp [Command.runOptions, Command.sourceOptions, Command.commonOptions, Command.option,
    Command.numberOption, Command.flag]

/-- With a flag for traces the same run is asked for, and a trace of it. -/
theorem ofRunArguments_of_adds {plain given : Given} (h : Adds "debug" plain given)
    {command : Command} (hcommand : Command.ofRunArguments given = .ok command) :
    ∃ source choice limit json, command = .run source choice limit true json ∧
      Command.ofRunArguments plain = .ok (.run source choice limit false json) := by
  have hsource : Command.sourceOf given = Command.sourceOf plain := by
    unfold Command.sourceOf
    rw [h.value?_of_ne (by decide), h.value?_of_ne (by decide), h.positionals]
  have htape : Command.tapeOf given = Command.tapeOf plain := by
    unfold Command.tapeOf
    rw [h.value?_of_ne (by decide), h.value?_of_ne (by decide)]
  unfold Command.ofRunArguments at hcommand ⊢
  rw [hsource, htape, h.has_self, h.value?_of_ne (by decide), h.has_of_ne (by decide)] at hcommand
  rw [h.lacks]
  cases hs : Command.sourceOf plain with
  | error e => rw [hs] at hcommand; cases hcommand
  | ok source =>
    cases ht : Command.tapeOf plain with
    | error e => rw [hs, ht] at hcommand; cases hcommand
    | ok choice =>
      rw [hs, ht] at hcommand
      cases hcommand
      exact ⟨source, choice, _, _, rfl, rfl⟩

/-- `--debug` in front of the other arguments of `run` asks for a trace of the same run. -/
theorem ofArguments_debug {rest : List String} {command : Command}
    (h : Command.ofArguments ("run" :: "--debug" :: rest) = .ok command) :
    ∃ source choice limit json, command = .run source choice limit true json ∧
      Command.ofArguments ("run" :: rest) = .ok (.run source choice limit false json) := by
  rw [ofArguments_run, readArguments_debug] at h
  cases hread : readArguments Command.runOptions 1 none ⟨[("debug", "")], []⟩ rest with
  | error e => rw [hread] at h; cases h
  | ok given =>
    rw [hread] at h
    have hdebug : Adds "debug" .none ⟨[("debug", "")], []⟩ := ⟨rfl, rfl, rfl⟩
    obtain ⟨plain, hplain, hadds⟩ := hdebug.readArguments kind_debug (by simp) hread
    cases hrun : Command.ofRunArguments given with
    | error e => simp [hrun, Except.mapError] at h
    | ok ran =>
      obtain ⟨source, choice, limit, json, rfl, hsame⟩ := ofRunArguments_of_adds hadds hrun
      simp only [hrun, Except.mapError, Except.ok.injEq] at h
      refine ⟨source, choice, limit, json, h.symm, ?_⟩
      rw [ofArguments_run, hplain]
      simp only [hsame, Except.mapError]

/-- A traced run ends where a plain one does, with a limit and without, and its trace has one line
more than there were firings: the `i`-th shows the configuration after `i` firings.  So `--debug`
changes neither how `run` exits nor what it prints on standard output. -/
theorem traced_run_agrees (table : Table) (tape : Tape) :
    (∀ limit, (((start table tape).traceTo limit).stop, ((start table tape).traceTo limit).last) =
      (start table tape).runFor limit) ∧
    ((start table tape).trace.map fun trace => (trace.stop, trace.last)) =
      ((start table tape).run.map fun result => (.halted result.1, result.2)) ∧
    (∀ limit stop last text,
      runMachine limit true (start table tape) = some (stop, last, text) →
        (start table tape).Fired last.steps last ∧
        (∀ i, i ≤ last.steps → (start table tape).Fired i ((start table tape).stepped i)) ∧
        text = String.join ((List.range (last.steps + 1)).map fun i =>
          lineAfter i ((start table tape).stepped i)) ++ closingText stop) ∧
    (∀ inputs source choice limit json,
      ((Command.run source choice limit true json).outcome inputs).exit =
          ((Command.run source choice limit false json).outcome inputs).exit ∧
        ((Command.run source choice limit true json).outcome inputs).stdout =
          ((Command.run source choice limit false json).outcome inputs).stdout) ∧
    ∀ inputs rest command, Command.ofArguments ("run" :: "--debug" :: rest) = .ok command →
      (outcomeOf inputs ("run" :: "--debug" :: rest)).exit =
          (outcomeOf inputs ("run" :: rest)).exit ∧
        (outcomeOf inputs ("run" :: "--debug" :: rest)).stdout =
          (outcomeOf inputs ("run" :: rest)).stdout := by
  refine ⟨traceTo_start table tape, trace_eq_run _, ?_, outcome_traced, ?_⟩
  · intro limit stop last text h
    obtain ⟨trace, hrecords, rfl, rfl, rfl⟩ := records_of_runMachine h
    obtain ⟨hfired, htext⟩ := traceText_of_records hrecords
    refine ⟨hfired, ?_, htext⟩
    intro i hi
    rw [stepped_eq_advance]
    exact hfired.of_le hi
  · intro inputs rest command h
    obtain ⟨source, choice, limit, json, rfl, hplain⟩ := ofArguments_debug h
    simp only [outcomeOf, h, hplain]
    exact outcome_traced inputs source choice limit json

/-- A machine that moves off to the left with its first firing. -/
theorem traced_run_agrees_left :
    (∃ last text,
      runMachine (some 5) true (start (.ofList [⟨1, .blank, .one, .left, 1⟩]) (.blank 2)) =
        some (.halted .offTape, last, text) ∧
      (start (.ofList [⟨1, .blank, .one, .left, 1⟩]) (.blank 2)).Fired 1 last ∧
      text = "Step: 0, State: 1, Head: 0, Tape: __\nStep: 1, State: 1, Head: -, Tape: 1_\n" ++
        "\nMachine halted: OffTape\n") ∧
    ∃ command, Command.ofArguments ["run", "--debug", "DADDCCLDA;", "--blanks", "2"] = .ok command ∧
      (outcomeOf .nothing ["run", "--debug", "DADDCCLDA;", "--blanks", "2"]).exit =
        (outcomeOf .nothing ["run", "DADDCCLDA;", "--blanks", "2"]).exit ∧
      (outcomeOf .nothing ["run", "--debug", "DADDCCLDA;", "--blanks", "2"]).stdout =
        (outcomeOf .nothing ["run", "DADDCCLDA;", "--blanks", "2"]).stdout := by
  have hcommand : Command.ofArguments ["run", "--debug", "DADDCCLDA;", "--blanks", "2"] =
      .ok (.run (.text "DADDCCLDA;") (.blank 2) none true false) := by
    rfl
  obtain ⟨-, -, htext, -, hdebug⟩ :=
    traced_run_agrees (.ofList [⟨1, .blank, .one, .left, 1⟩]) (.blank 2)
  obtain ⟨hfired, -, htext⟩ := htext (some 5) _ _ _ rfl
  exact ⟨⟨_, _, rfl, hfired, htext.trans (by decide)⟩, _, hcommand, hdebug .nothing _ _ hcommand⟩

end QuintupleMachine.CommandLine
