import QuintupleMachine.Program.Basic
import QuintupleMachine.Proofs.Machine.Budget
import QuintupleMachine.Proofs.Tape

/-! # Runs on written tapes

A run on a written tape can only fail where the tape is read, so its failures are those of reading,
whatever the table (`Table.runText_of_not_mem`).  Otherwise the run is that of the machine on the
tape that was read.  Its firings change no cell but those they write in and leave as many cells as
there were, so what it writes down in the end is a tape of the same length
(`Table.runText_of_fired`). -/

namespace QuintupleMachine.Table

variable {table : Table} {text : String} {tape : Tape}

theorem runText_of_parse (h : Tape.parse text = .ok tape) :
    table.runText text =
      .ok ((Machine.start table tape).run.map fun result => result.2.tape.text) := by
  rw [runText, h]
  rfl

/-- A tape that cannot be read is refused before the table is looked at. -/
theorem runText_of_not_mem (table : Table) {front rest : List Char} {c : Char}
    (htext : text.toList = front ++ c :: rest) (hfront : Tape.Written front)
    (hc : c ∉ Tape.alphabet) : table.runText text = .error ⟨c, front.length⟩ := by
  rw [runText, ← @String.ofList_toList text, htext, Tape.parse_of_not_mem hfront hc]
  rfl

theorem runText_eq_error :
    (∃ e, table.runText text = .error e) ↔ ∃ c ∈ text.toList, c ∉ Tape.alphabet := by
  constructor
  · rintro ⟨e, he⟩
    by_contra hno
    push Not at hno
    obtain ⟨tape, htape⟩ := Tape.exists_parse hno
    rw [runText_of_parse htape] at he
    cases he
  · rintro ⟨c, hmem, hc⟩
    obtain ⟨front, c, rest, htext, hfront, hc⟩ :=
      exists_first_not fun hall => hc (hall c hmem)
    exact ⟨_, runText_of_not_mem table htext hfront hc⟩

/-- The tape that is left when the machine halts is written with as many characters. -/
theorem runText_of_fired {last : Machine} {halt : Halt} {k : Nat}
    (h : Tape.parse text = .ok tape) (hfired : (Machine.start table tape).Fired k last)
    (hhalt : last.halt? = some halt) :
    table.runText text = .ok (some last.tape.text) ∧ last.tape.text.length = text.length := by
  constructor
  · rw [runText_of_parse h, hfired.run hhalt]
    rfl
  · rw [← Tape.parse_eq_ok.1 h, Tape.length_text, Tape.length_text, hfired.length_eq]
    rfl

theorem runText_of_running (h : Tape.parse text = .ok tape)
    (hrunning : ∀ n, ((Machine.start table tape).advance n).halt? = none) :
    table.runText text = .ok none := by
  rw [runText_of_parse h]
  cases hrun : (Machine.start table tape).run with
  | none => rfl
  | some result =>
    obtain ⟨n, hlast, hhalt⟩ := Machine.run_eq_some.1 hrun
    rw [hlast, hrunning n] at hhalt
    cases hhalt

/-- A run on a text fails if and only if the text has a character other than `_`, `0` and `1`, and
it reports the first one with the number of characters before it, which no table can change.  Any
other text is that of a tape.  If the machine that starts there halts, the result of the run has as
many characters as the text, is written with `_`, `0` and `1` again, and is read as the last tape of
the machine; there is no result if it never halts.  Reading tapes and writing them down undo each
other. -/
theorem runText_spec (table : Table) (text : String) :
    ((∃ e, table.runText text = .error e) ↔ ∃ c ∈ text.toList, c ∉ Tape.alphabet) ∧
    (∀ front c rest, text.toList = front ++ c :: rest → Tape.Written front → c ∉ Tape.alphabet →
      table.runText text = .error ⟨c, front.length⟩) ∧
    (Tape.Written text.toList → ∃ tape, Tape.parse text = .ok tape ∧
      (∀ k halt last, (Machine.start table tape).Fired k last → last.halt? = some halt →
        ∃ out, table.runText text = .ok (some out) ∧ out.length = text.length ∧
          Tape.Written out.toList ∧ Tape.parse out = .ok last.tape) ∧
      ((∀ n, ((Machine.start table tape).advance n).halt? = none) →
        table.runText text = .ok none)) ∧
    ∀ tape : Tape, Tape.parse text = .ok tape ↔ tape.text = text := by
  refine ⟨runText_eq_error, fun front c rest => runText_of_not_mem table, fun hwritten => ?_,
    fun tape => Tape.parse_eq_ok⟩
  obtain ⟨tape, htape⟩ := Tape.exists_parse hwritten
  refine ⟨tape, htape, fun k halt last hfired hhalt => ?_, runText_of_running htape⟩
  obtain ⟨hout, hlength⟩ := runText_of_fired htape hfired hhalt
  exact ⟨_, hout, hlength, last.tape.written_text, last.tape.parse_text⟩

/-- A text with a letter in it, a run that ends, and one that goes on for ever. -/
theorem runText_spec_letter :
    (ofList [⟨1, .blank, .one, .stay, 1⟩]).runText "0é_x" = .error ⟨'é', 1⟩ ∧
    (∃ out, (ofList [⟨1, .blank, .one, .right, 1⟩]).runText "0_" = .ok (some out) ∧
      Tape.parse out = .ok ⟨#[.one, .one]⟩) ∧
    (ofList [⟨1, .blank, .one, .stay, 1⟩]).runText "0_" = .ok none := by
  refine ⟨?_, ?_, ?_⟩
  · exact (runText_spec _ "0é_x").2.1 ['0'] 'é' ['_', 'x'] (by decide) (by decide) (by decide)
  · obtain ⟨tape, htape, hout, -⟩ :=
      (runText_spec (ofList [⟨1, .blank, .one, .right, 1⟩]) "0_").2.2.1 (by decide)
    cases htape
    obtain ⟨out, hrun, -, -, hparse⟩ := hout 2 .offTape _ (.step rfl (.step rfl (.refl _))) rfl
    exact ⟨out, hrun, hparse⟩
  · obtain ⟨tape, htape, -, hnever⟩ :=
      (runText_spec (ofList [⟨1, .blank, .one, .stay, 1⟩]) "0_").2.2.1 (by decide)
    cases htape
    exact hnever (Machine.running_of_run_eq_none (by decide))

end QuintupleMachine.Table
