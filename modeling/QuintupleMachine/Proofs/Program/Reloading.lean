import QuintupleMachine.CommandLine.Outcome
import QuintupleMachine.Proofs.Description.Language
import QuintupleMachine.Proofs.Program.Layout

/-! # Programs that have been read

A program comes from a file only if its letters stand for its table and its tape can be read
(`consistent_of_read`).  Then there is nothing but letters in its description, so the description is
itself a file that is read as the same program, except that the tape is gone
(`Consistent.reload`).

All sources of the command line are files in the end, the catalogue included.  The tape of a program
was read when the program was, so it can be read once more to run the program on it
(`reload_of_read`). -/

namespace QuintupleMachine

/-- Only letters of the alphabet stand for a table. -/
theorem Description.mem_alphabet_of_decode {letters : String} {table : Table}
    (h : decode letters = .ok table) : ∀ c ∈ letters.toList, c ∈ alphabet := by
  obtain ⟨tokens, htokens⟩ := tokens_of_decode h
  have hcanonical : canonical letters = .ok (String.ofList (canonicalOf tokens)) := by
    rw [canonical, htokens]
    rfl
  intro c hc
  obtain ⟨front, rest, hletters⟩ := List.append_of_mem hc
  exact (legal_of_canonical hcanonical front c rest hletters).mem

namespace Program

variable {name content : String} {p : Program}

/-! ## What a program is made of -/

/-- The description of a program stands for its table, and its tape can be read. -/
structure Consistent (p : Program) : Prop where
  decode_eq : Description.decode p.description = .ok p.table
  written : ∀ text, p.tape = some text → Tape.Written text.toList

/-- A program is read only where all tapes can be, also those that another one replaces. -/
theorem written_of_read (h : (read name content).result = .ok p) :
    ∀ value ∈ headers tapeWord content, Tape.Written value := by
  by_contra hno
  obtain ⟨before, value, after, htapes, hbefore, hvalue⟩ := exists_first_not hno
  obtain ⟨front, c, rest, rfl, hfront, hc⟩ := exists_first_not hvalue
  rw [result_of_tape_error htapes hbefore (Tape.parse_of_not_mem hfront hc rest)] at h
  cases h

theorem consistent_of_read (h : (read name content).result = .ok p) : p.Consistent := by
  have hwritten := written_of_read h
  rw [result_of_written name hwritten] at h
  cases hdecode : Description.decode (String.ofList (letters content)) with
  | error e =>
    rw [hdecode] at h
    cases h
  | ok table =>
    rw [hdecode] at h
    cases h
    refine ⟨hdecode, ?_⟩
    intro text htext
    obtain ⟨value, hlast, rfl⟩ := Option.map_eq_some_iff.1 htext
    rw [String.toList_ofList]
    exact hwritten value (List.mem_of_getLast? hlast)

namespace Consistent

theorem letters (h : p.Consistent) : ∀ c ∈ p.description.toList, c ∈ Description.alphabet :=
  Description.mem_alphabet_of_decode h.decode_eq

/-- The tape that a program brings along can be read again. -/
theorem exists_tape (h : p.Consistent) {text : String} (htext : p.tape = some text) :
    ∃ tape, Tape.parse text = .ok tape ∧ CommandLine.TapeChoice.ofProgram.tape p = .ok tape := by
  obtain ⟨tape, htape⟩ := Tape.exists_parse (h.written text htext)
  refine ⟨tape, htape, ?_⟩
  rw [CommandLine.TapeChoice.tape, htext]
  dsimp only
  rw [htape]
  rfl

/-- A description is a file of the program without its tape. -/
theorem reload (h : p.Consistent) :
    (read p.name p.description).result = .ok { p with tape := none } := by
  rw [result_of_spaced p.name h.letters (Spaced.refl _), h.decode_eq]
  rfl

end Consistent

/-! ## Where programs come from -/

theorem exists_read_of_load {path : String} {bytes : Except String ByteArray}
    (h : (load path bytes).result = .ok p) :
    ∃ name content, (read name content).result = .ok p := by
  cases bytes with
  | error reason => cases h
  | ok bytes =>
    rw [load] at h
    split at h
    · cases h
    · next content _ => exact ⟨_, content, h⟩

theorem exists_read_of_mem_programs (h : p ∈ Catalogue.programs) :
    ∃ name content, (read name content).result = .ok p := by
  obtain ⟨⟨name, content⟩, -, hread⟩ := List.mem_filterMap.1 h
  refine ⟨name, content, ?_⟩
  cases hresult : (read name content).result with
  | error e =>
    rw [hresult] at hread
    cases hread
  | ok q =>
    rw [hresult] at hread
    exact congrArg Except.ok (Option.some.inj hread)

theorem mem_programs_of_byName (h : Catalogue.byName name = .ok p) : p ∈ Catalogue.programs := by
  -- the programs become a variable before the search is opened, or else all of them are read here
  obtain ⟨find, hfind, h⟩ : ∃ find, find = Catalogue.byName ∧ find name = .ok p := ⟨_, rfl, h⟩
  delta Catalogue.byName at hfind
  subst hfind
  generalize Catalogue.programs = programs at h ⊢
  dsimp only at h
  split at h
  · next q hq =>
    cases h
    exact List.mem_of_find?_eq_some hq
  · cases h

/-- Whatever the source, a program that is loaded has been read from a text. -/
theorem exists_read_of_source {inputs : CommandLine.Inputs} {source : CommandLine.Source}
    (h : source.load inputs = .ok p) : ∃ name content, (read name content).result = .ok p := by
  have hok : ∀ {result : Except Failure Program},
      result.mapError CommandLine.CommandError.failure = .ok p → result = .ok p := by
    intro result hresult
    cases result with
    | error e => cases hresult
    | ok q => exact congrArg Except.ok (Except.ok.inj hresult)
  cases source
  all_goals rw [CommandLine.Source.load] at h
  case program name => exact exists_read_of_mem_programs (mem_programs_of_byName (hok h))
  case file path => exact exists_read_of_load (hok h)
  case text description => exact ⟨_, _, hok h⟩
  case absent => cases h
  case standardInput =>
    split at h
    · exact ⟨_, _, hok h⟩
    · cases h

/-- A program that is read has a description of letters that stands for its table, and a tape, if
it has one, that can be read again.  Its description is read as the same program without the tape.
Wherever the command line gets a program from, a tape that comes with it can be run on. -/
theorem reload_of_read :
    (∀ name content p, (read name content).result = .ok p →
      Description.decode p.description = .ok p.table ∧
      (∀ c ∈ p.description.toList, c ∈ Description.alphabet) ∧
      (∀ text, p.tape = some text → ∃ tape, Tape.parse text = .ok tape) ∧
      (read p.name p.description).result = .ok { p with tape := none }) ∧
    ∀ inputs (source : CommandLine.Source) p, source.load inputs = .ok p →
      ∀ text, p.tape = some text → ∃ tape, Tape.parse text = .ok tape ∧
        CommandLine.TapeChoice.ofProgram.tape p = .ok tape := by
  constructor
  · intro name content p h
    have hp := consistent_of_read h
    refine ⟨hp.decode_eq, hp.letters, ?_, hp.reload⟩
    intro text htext
    obtain ⟨tape, htape, -⟩ := hp.exists_tape htext
    exact ⟨tape, htape⟩
  · intro inputs source p h text htext
    obtain ⟨name, content, hread⟩ := exists_read_of_source h
    exact (consistent_of_read hread).exists_tape htext

/-- A program with a name and a tape of its own, from a file and from the command line. -/
theorem reload_of_read_named :
    (read "file" "name: a\ntape: 01\nDADDR\n DA;").result =
      .ok ⟨"a", "DADDRDA;", some "01", .ofList [⟨1, .blank, .blank, .right, 1⟩]⟩ ∧
    (read "a" "DADDRDA;").result =
      .ok ⟨"a", "DADDRDA;", none, .ofList [⟨1, .blank, .blank, .right, 1⟩]⟩ ∧
    ∃ p tape, (CommandLine.Source.text "tape: 01\nDADDRDA;").load .nothing = .ok p ∧
      p.tape = some "01" ∧ CommandLine.TapeChoice.ofProgram.tape p = .ok tape := by
  obtain ⟨hread, hload⟩ := reload_of_read
  have hfile : (read "file" "name: a\ntape: 01\nDADDR\n DA;").result =
      .ok ⟨"a", "DADDRDA;", some "01", .ofList [⟨1, .blank, .blank, .right, 1⟩]⟩ := rfl
  obtain ⟨-, -, -, hreload⟩ := hread _ _ _ hfile
  have htext : (CommandLine.Source.text "tape: 01\nDADDRDA;").load .nothing =
      .ok ⟨"command line", "DADDRDA;", some "01",
        .ofList [⟨1, .blank, .blank, .right, 1⟩]⟩ := rfl
  obtain ⟨tape, -, htape⟩ := hload _ _ _ htext "01" rfl
  exact ⟨hfile, hreload, _, tape, htext, rfl, htape⟩

end Program

end QuintupleMachine
