import QuintupleMachine.Tape

/-! # Written tapes

A text is a tape exactly if it is made of `_`, `0` and `1`, and then reading it and writing it down
undo each other (`Tape.parse_eq_ok`).  Of any other text the first character that is none of these
is reported, with the number of characters before it. -/

namespace QuintupleMachine

/-- Where not all elements have a property, there is a first one that does not. -/
theorem exists_first_not {α : Type} {p : α → Prop} {l : List α} (h : ¬ ∀ a ∈ l, p a) :
    ∃ before a after, l = before ++ a :: after ∧ (∀ b ∈ before, p b) ∧ ¬ p a := by
  induction l with
  | nil => exact absurd (List.forall_mem_nil p) h
  | cons a l ih =>
    by_cases ha : p a
    · obtain ⟨before, b, after, rfl, hbefore, hb⟩ :=
        ih fun hl => h (List.forall_mem_cons.2 ⟨ha, hl⟩)
      exact ⟨a :: before, b, after, rfl, List.forall_mem_cons.2 ⟨ha, hbefore⟩, hb⟩
    · exact ⟨[], a, l, rfl, List.forall_mem_nil p, ha⟩

namespace Tape

/-- The characters of a written tape. -/
def alphabet : List Char := ['_', '0', '1']

/-- A text made of the characters of a written tape. -/
def Written (cs : List Char) : Prop := ∀ c ∈ cs, c ∈ alphabet

instance (cs : List Char) : Decidable (Written cs) := List.decidableBAll (· ∈ alphabet) cs

end Tape

theorem Symbol.mem_alphabet {c : Char} :
    c ∈ Tape.alphabet ↔ ∃ symbol : Symbol, c = symbol.char := by
  constructor
  · intro h
    simp only [Tape.alphabet, List.mem_cons, List.not_mem_nil, or_false] at h
    rcases h with rfl | rfl | rfl
    · exact ⟨.blank, rfl⟩
    · exact ⟨.zero, rfl⟩
    · exact ⟨.one, rfl⟩
  · rintro ⟨symbol, rfl⟩
    cases symbol <;> decide

theorem Symbol.ofChar?_eq_none {c : Char} (h : c ∉ Tape.alphabet) : ofChar? c = none := by
  rw [Option.eq_none_iff_forall_ne_some]
  intro symbol hsymbol
  exact h (Symbol.mem_alphabet.2 ⟨symbol, ofChar?_eq_some.1 hsymbol⟩)

namespace Tape

variable {cs front : List Char} {c : Char} {text : String} {tape : Tape}

/-! ## Writing and reading -/

/-- The characters of a written tape are those of its symbols. -/
theorem written_iff : Written cs ↔ ∃ symbols : List Symbol, cs = symbols.map Symbol.char := by
  constructor
  · intro h
    induction cs with
    | nil => exact ⟨[], rfl⟩
    | cons c cs ih =>
      obtain ⟨hc, hcs⟩ := List.forall_mem_cons.1 h
      obtain ⟨symbol, rfl⟩ := Symbol.mem_alphabet.1 hc
      obtain ⟨symbols, rfl⟩ := ih hcs
      exact ⟨symbol :: symbols, rfl⟩
  · rintro ⟨symbols, rfl⟩ c hc
    obtain ⟨symbol, -, rfl⟩ := List.mem_map.1 hc
    exact Symbol.mem_alphabet.2 ⟨symbol, rfl⟩

/-- The reader takes one cell for each character of a symbol and goes on behind them. -/
theorem readCells_append (symbols : List Symbol) (done : Array Symbol) (rest : List Char) :
    readCells done (symbols.map Symbol.char ++ rest) =
      readCells (done ++ symbols.toArray) rest := by
  induction symbols generalizing done with
  | nil => rw [List.map_nil, List.nil_append, Array.append_empty]
  | cons symbol symbols ih =>
    rw [List.map_cons, List.cons_append, readCells, Symbol.ofChar?_char]
    dsimp only
    rw [ih, List.push_append_toArray]

theorem toList_text (tape : Tape) : tape.text.toList = tape.cells.toList.map Symbol.char :=
  String.toList_ofList

theorem written_text (tape : Tape) : Written tape.text.toList :=
  written_iff.2 ⟨_, tape.toList_text⟩

/-- What is written down can be read back. -/
theorem parse_text (tape : Tape) : parse tape.text = .ok tape := by
  have hread := readCells_append tape.cells.toList #[] []
  rw [List.append_nil] at hread
  rw [parse, toList_text, hread, readCells, Array.empty_append, Array.toArray_toList]
  rfl

theorem length_text (tape : Tape) : tape.text.length = tape.length := by
  rw [← String.length_toList, toList_text, List.length_map, Array.length_toList, length]

theorem exists_text_eq (h : Written cs) : ∃ tape : Tape, tape.text = String.ofList cs := by
  obtain ⟨symbols, rfl⟩ := written_iff.1 h
  exact ⟨⟨symbols.toArray⟩, rfl⟩

theorem parse_of_written (h : Written cs) : ∃ tape, parse (String.ofList cs) = .ok tape := by
  obtain ⟨tape, htape⟩ := exists_text_eq h
  rw [← htape]
  exact ⟨tape, tape.parse_text⟩

theorem exists_parse (h : Written text.toList) : ∃ tape, parse text = .ok tape := by
  rw [← @String.ofList_toList text]
  exact parse_of_written h

/-- The first character that stands for no symbol is reported, whatever comes behind it. -/
theorem parse_of_not_mem (h : Written front) (hc : c ∉ alphabet) (rest : List Char) :
    parse (String.ofList (front ++ c :: rest)) = .error ⟨c, front.length⟩ := by
  obtain ⟨symbols, rfl⟩ := written_iff.1 h
  rw [parse, String.toList_ofList, readCells_append, readCells, Symbol.ofChar?_eq_none hc,
    Array.empty_append]
  simp only [List.size_toArray, List.length_map]
  rfl

/-- Reading a tape and writing it down undo each other. -/
theorem parse_eq_ok : parse text = .ok tape ↔ tape.text = text := by
  constructor
  · intro h
    rw [← @String.ofList_toList text] at h ⊢
    by_cases hwritten : Written text.toList
    · obtain ⟨other, hother⟩ := exists_text_eq hwritten
      rw [← hother, parse_text] at h
      cases h
      exact hother
    · obtain ⟨front, c, rest, htext, hfront, hc⟩ := exists_first_not hwritten
      rw [htext, parse_of_not_mem hfront hc] at h
      cases h
  · rintro rfl
    exact tape.parse_text

end Tape

end QuintupleMachine
