import QuintupleMachine.Proofs.Description.NormalForm

/-! # Canonical texts in normal form

When a canonical text is read and its table is written down again, the records come out by ascending
state, each state once and each record with its `;`, and the symbols come out as `S0`, `S1` or `S2`.
State numbers have one text only, because they have no leading zeros.  So a canonical text comes
back as it was exactly if it ends with `;`, its states ascend and its symbols are written in these
three ways (`canonical_of_parse`). -/

namespace QuintupleMachine

/-! ## The records of a table -/

/-- The record that a rule is written as. -/
def Quintuple.record (rule : Quintuple) : Record where
  state := Number.digits rule.state
  read := Number.digits rule.read.number
  write := Number.digits rule.write.number
  direction := rule.direction
  next := Number.digits rule.next

/-- A symbol as it is written in canonical text. -/
def SymbolNumeral (ds : List Char) : Prop := ds = ['0'] ∨ ds = ['1'] ∨ ds = ['2']

theorem symbolNumeral_digits (symbol : Symbol) : SymbolNumeral (Number.digits symbol.number) := by
  cases symbol
  · exact .inl rfl
  · exact .inr (.inl rfl)
  · exact .inr (.inr rfl)

/-- The symbol that is read from such a text is written as it was. -/
theorem SymbolNumeral.digits_number {ds : List Char} (h : SymbolNumeral ds) :
    Number.digits (Symbol.numbered (Number.value ds)).number = ds := by
  rcases h with rfl | rfl | rfl <;> rfl

namespace Quintuple

theorem proper_record {rule : Quintuple} (h : rule.Positive) : rule.record.Proper where
  state := Number.stateNumeral_digits.2 h.1
  read := Number.numeral_digits rule.read.number
  write := Number.numeral_digits rule.write.number
  next := Number.stateNumeral_digits.2 h.2

theorem canonicalOf_tokens (rule : Quintuple) :
    canonicalOf rule.tokens = rule.record.text ++ [';'] := by
  simp [canonicalOf, tokens, record, Record.text, Token.canonical]

end Quintuple

namespace Record

variable {record : Record}

theorem Proper.positive_rule (h : record.Proper) : record.rule.Positive :=
  ⟨Number.value_pos h.state, Number.value_pos h.next⟩

theorem Fits.inRange_rule (h : record.Fits) : record.rule.InRange :=
  ⟨h ('q' :: record.state) (by simp [fields]), h ('q' :: record.next) (by simp [fields])⟩

/-- Behind a record the text could still grow by digits. -/
theorem Proper.getLast?_text (h : record.Proper) : record.text.getLast? ≠ some ';' := by
  intro hlast
  have hnext : record.text.getLast? = record.next.getLast? := by
    rw [text, List.getLast?_append, List.getLast?_cons_cons, List.getLast?_cons]
    cases hlast : record.next.getLast? with
    | none => exact absurd (List.getLast?_eq_none_iff.1 hlast) h.next.1
    | some d => rfl
  have hdigit := h.next.2.1 ';' (List.mem_of_getLast? (hnext ▸ hlast))
  cases hdigit

/-- A record whose symbols are written as those of a table is the record of its rule. -/
theorem Proper.record_rule (h : record.Proper) (hread : SymbolNumeral record.read)
    (hwrite : SymbolNumeral record.write) : record.rule.record = record := by
  rw [Quintuple.record, rule]
  simp only [Number.digits_value h.state, Number.digits_value h.next, hread.digits_number,
    hwrite.digits_number]

end Record

theorem Table.toList_canonical (table : Table) :
    table.canonical.toList =
      terminated ';' Record.text (table.quintuples.map Quintuple.record) := by
  rw [canonical, String.toList_ofList, canonicalOf, tokens, List.flatMap_assoc, terminated,
    List.flatMap_map]
  exact List.flatMap_congr fun rule _ => rule.canonicalOf_tokens

namespace Canonical

variable {records more : List Record} {text : String} {table : Table}

/-- A table without state 0 is written as the records of its rules. -/
theorem written_canonical (hpos : table.Positive) :
    Written (table.quintuples.map Quintuple.record) table.canonical.toList := by
  refine ⟨List.forall_mem_map.2 fun rule hrule => Quintuple.proper_record (hpos rule hrule), ?_⟩
  rw [table.toList_canonical]
  exact Separated.of_terminated _

/-- The reader finds the records, so there is one way to cut a text into them. -/
theorem records_unique {cs : List Char} (h : Written records cs) (h' : Written more cs) :
    records = more :=
  Except.ok.inj ((recordsOf_eq_ok.2 h).symm.trans (recordsOf_eq_ok.2 h'))

/-- A text with these records is empty or ends with `;`, the states of the records ascend, and all
their symbols are written `0`, `1` or `2`. -/
structure Normal (records : List Record) (text : String) : Prop where
  complete : text.toList = [] ∨ text.toList.getLast? = some ';'
  ascends : (records.map fun record => Number.value record.state).Pairwise (· < ·)
  symbols : ∀ record ∈ records, SymbolNumeral record.read ∧ SymbolNumeral record.write

theorem normal_canonical (table : Table) :
    Normal (table.quintuples.map Quintuple.record) table.canonical where
  complete := by
    rw [table.toList_canonical]
    rcases List.eq_nil_or_concat table.quintuples with h | ⟨rules, rule, h⟩
    · exact .inl (by rw [h]; rfl)
    · right
      rw [h, List.concat_eq_append, List.map_append, terminated_append, List.getLast?_append]
      simp [terminated]
  ascends := by
    simp only [List.map_map, Function.comp_def, Quintuple.record, Number.value_digits]
    exact table.pairwise_states
  symbols := by
    intro record hrecord
    obtain ⟨rule, -, rfl⟩ := List.mem_map.1 hrecord
    exact ⟨symbolNumeral_digits rule.read, symbolNumeral_digits rule.write⟩

/-- A text in normal form is what its table is written as. -/
theorem Normal.canonical_eq (h : Normal records text) (hwritten : Written records text.toList) :
    (Table.ofList (records.map Record.rule)).canonical = text := by
  obtain ⟨hproper, hlayout⟩ := hwritten
  have hascends : Ascending.Ascends Quintuple.state (records.map Record.rule) :=
    List.pairwise_map.2 (List.pairwise_map.1 h.ascends)
  have hrecords : (records.map Record.rule).map Quintuple.record = records := by
    rw [List.map_map]
    refine (List.map_congr_left fun record hrecord => ?_).trans (List.map_id records)
    obtain ⟨hread, hwrite⟩ := h.symbols record hrecord
    exact (hproper record hrecord).record_rule hread hwrite
  apply String.toList_injective
  calc
    (Table.ofList (records.map Record.rule)).canonical.toList
      = terminated ';' Record.text ((records.map Record.rule).map Quintuple.record) := by
        rw [Table.toList_canonical, Table.quintuples_ofList hascends]
    _ = terminated ';' Record.text records := by rw [hrecords]
    _ = text.toList := by
        refine (hlayout.eq_terminated_of_mem (fun record hrecord => ⟨?_, ?_⟩) h.complete).symm
        · simp [Record.text]
        · exact (hproper record hrecord).getLast?_text

/-- What a canonical text stands for does not mention state 0 or states above 64 bits, and is read
again from its own canonical text.  This is the text itself exactly if it is empty or ends with `;`,
the states of its records ascend, and its symbols are written `S0`, `S1` or `S2`. -/
theorem canonical_of_parse (text : String) (table : Table) (h : parse text = .ok table) :
    (∀ rule ∈ table.quintuples, (1 ≤ rule.state ∧ rule.state ≤ Number.greatest) ∧
      1 ≤ rule.next ∧ rule.next ≤ Number.greatest) ∧
    parse table.canonical = .ok table ∧
    (∃ records, Written records text.toList) ∧
    ∀ records, Written records text.toList →
      (table.canonical = text ↔ Normal records text) := by
  obtain ⟨records, hwritten, hfits⟩ := written_of_parse h
  rw [parse_of_fits hwritten hfits] at h
  obtain rfl := Except.ok.inj h
  have hrules : ∀ rule ∈ (Table.ofList (records.map Record.rule)).quintuples,
      rule.Positive ∧ rule.InRange := by
    intro rule hrule
    obtain ⟨record, hrecord, rfl⟩ := List.mem_map.1 (Table.mem_of_mem_ofList hrule)
    exact ⟨(hwritten.1 record hrecord).positive_rule, (hfits record hrecord).inRange_rule⟩
  have hpos : Table.Positive _ := fun rule hrule => (hrules rule hrule).1
  have hrange : Table.InRange _ := fun rule hrule => (hrules rule hrule).2
  refine ⟨?_, Table.parse_canonical hrange hpos, ⟨records, hwritten⟩, ?_⟩
  · intro rule hrule
    exact ⟨⟨(hpos rule hrule).1, (hrange rule hrule).1⟩, (hpos rule hrule).2,
      (hrange rule hrule).2⟩
  · intro more hmore
    obtain rfl := records_unique hwritten hmore
    constructor
    · intro hsame
      have hagain := written_canonical hpos
      rw [hsame] at hagain
      rw [records_unique hwritten hagain]
      exact hsame ▸ normal_canonical _
    · intro hnormal
      exact hnormal.canonical_eq hwritten

/-- A text that comes back as it was, and one with descending states, other symbols and no last
`;`. -/
theorem canonical_of_parse_loose :
    (parse "q1S0S1Rq2;q12S2S2Nq1;" =
        .ok (.ofList [⟨1, .blank, .zero, .right, 2⟩, ⟨12, .one, .one, .stay, 1⟩]) ∧
      (Table.ofList [⟨1, .blank, .zero, .right, 2⟩, ⟨12, .one, .one, .stay, 1⟩]).canonical =
        "q1S0S1Rq2;q12S2S2Nq1;") ∧
    parse "q2S01S7Nq1;q1S0S1Rq1" =
      .ok (.ofList [⟨1, .blank, .zero, .right, 1⟩, ⟨2, .zero, .blank, .stay, 1⟩]) ∧
    (Table.ofList [⟨1, .blank, .zero, .right, 1⟩, ⟨2, .zero, .blank, .stay, 1⟩]).canonical ≠
      "q2S01S7Nq1;q1S0S1Rq1" := by
  have hfirst : parse "q1S0S1Rq2;q12S2S2Nq1;" =
      .ok (.ofList [⟨1, .blank, .zero, .right, 2⟩, ⟨12, .one, .one, .stay, 1⟩]) := rfl
  have hsecond : parse "q2S01S7Nq1;q1S0S1Rq1" =
      .ok (.ofList [⟨1, .blank, .zero, .right, 1⟩, ⟨2, .zero, .blank, .stay, 1⟩]) := rfl
  obtain ⟨-, -, -, hnormal⟩ := canonical_of_parse _ _ hfirst
  obtain ⟨-, -, ⟨records, hrecords⟩, hloose⟩ := canonical_of_parse _ _ hsecond
  refine ⟨⟨hfirst, (hnormal
    [⟨['1'], ['0'], ['1'], .right, ['2']⟩, ⟨['1', '2'], ['2'], ['2'], .stay, ['1']⟩]
    (recordsOf_eq_ok.1 rfl)).2 ⟨.inr (by decide), by decide, ?_⟩⟩, hsecond, ?_⟩
  · simp [SymbolNumeral]
  · intro hsame
    rcases ((hloose records hrecords).1 hsame).complete with h | h <;> simp at h

end Canonical

end QuintupleMachine
