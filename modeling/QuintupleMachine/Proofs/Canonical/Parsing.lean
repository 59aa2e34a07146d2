import QuintupleMachine.Canonical.Basic
import QuintupleMachine.Proofs.Canonical.Grammar
import QuintupleMachine.Proofs.Table

/-! # Tables of canonical texts

A canonical text stands for a table exactly if it is in the grammar and every number in it fits
into 64 bits; the table then holds the last record for each state.  Numbers are judged by value,
whatever their leading zeros, and only after the whole text has been found in the grammar. -/

namespace QuintupleMachine

namespace Symbol

/-- What a number says about a symbol: 1 is the figure `0`, 2 is the figure `1`, and every other
number is the blank. -/
def numbered (n : Nat) : Symbol := if n = 1 then zero else if n = 2 then one else blank

theorem ofNumber_eq (n : Nat) : ofNumber n = numbered n := by
  unfold ofNumber numbered
  split <;> simp_all

@[simp] theorem numbered_number (symbol : Symbol) : numbered symbol.number = symbol := by
  rw [← ofNumber_eq, ofNumber_number]

theorem number_numbered {n : Nat} (h : n ≤ 2) : (numbered n).number = n := by
  rw [← ofNumber_eq, number_ofNumber h]

end Symbol

namespace Record

/-- The number fields of a record in order, each with its letter in front. -/
def fields (record : Record) : List (List Char) :=
  ['q' :: record.state, 'S' :: record.read, 'S' :: record.write, 'q' :: record.next]

/-- The number of a field is above the greatest. -/
def tooLarge (field : List Char) : Bool := Number.greatest < Number.value field.tail

/-- Every number of a record is at most the greatest. -/
def Fits (record : Record) : Prop :=
  ∀ field ∈ record.fields, Number.value field.tail ≤ Number.greatest

/-- The rule of a record by the values of its numbers. -/
def rule (record : Record) : Quintuple where
  state := Number.value record.state
  read := .numbered (Number.value record.read)
  write := .numbered (Number.value record.write)
  direction := record.direction
  next := Number.value record.next

theorem fits_iff {record : Record} : record.Fits ↔ record.fields.find? tooLarge = none := by
  simp [Fits, tooLarge]

theorem number_eq (mark : Char) (ds : List Char) :
    number mark ds =
      if tooLarge (mark :: ds) then .error (.tooLarge (String.ofList (mark :: ds)))
      else .ok (Number.value ds) := by
  unfold number Number.ofDigits? tooLarge
  by_cases h : Number.value ds ≤ Number.greatest
  · simp [h, Nat.not_lt.2 h]
  · simp [h, Nat.lt_of_not_le h]

/-- A record stands for its rule unless a number is too large; the first such field is named. -/
theorem quintuple_eq (record : Record) :
    record.quintuple =
      match record.fields.find? tooLarge with
      | none => .ok record.rule
      | some field => .error (.tooLarge (String.ofList field)) := by
  unfold quintuple fields
  simp only [number_eq, Symbol.ofNumber_eq, List.find?_cons, List.find?_nil]
  cases tooLarge ('q' :: record.state) <;> cases tooLarge ('S' :: record.read) <;>
    cases tooLarge ('S' :: record.write) <;> cases tooLarge ('q' :: record.next) <;> rfl

end Record

namespace Canonical

/-- The first field that is too large, of the first record that has one. -/
def firstTooLarge? (records : List Record) : Option (List Char) :=
  records.findSome? fun record => record.fields.find? Record.tooLarge

theorem firstTooLarge?_eq_none {records : List Record} :
    firstTooLarge? records = none ↔ ∀ record ∈ records, record.Fits := by
  simp only [firstTooLarge?, List.findSome?_eq_none_iff, Record.fits_iff]

theorem firstTooLarge?_append_cons {before after : List Record} {record : Record}
    {field : List Char} (hbefore : ∀ r ∈ before, r.Fits)
    (hfield : record.fields.find? Record.tooLarge = some field) :
    firstTooLarge? (before ++ record :: after) = some field := by
  have hnone : before.findSome? (fun r => r.fields.find? Record.tooLarge) = none :=
    firstTooLarge?_eq_none.2 hbefore
  rw [firstTooLarge?, List.findSome?_append, hnone, List.findSome?_cons, hfield]
  rfl

/-- Records enter a table until one of them has a number that is too large. -/
theorem result_collect (table : Table) (redefined : List Nat) (records : List Record) :
    (collect table redefined records).result =
      match firstTooLarge? records with
      | none => .ok ((records.map Record.rule).foldl Table.insert table)
      | some field => .error (.tooLarge (String.ofList field)) := by
  induction records generalizing table redefined with
  | nil => rfl
  | cons record records ih =>
    rw [collect, Record.quintuple_eq, firstTooLarge?, List.findSome?_cons]
    cases record.fields.find? Record.tooLarge with
    | some field => rfl
    | none => exact ih _ _

/-- What a text of the grammar stands for. -/
theorem parse_of_written {text : String} {records : List Record}
    (h : Written records text.toList) :
    parse text =
      match firstTooLarge? records with
      | none => .ok (Table.ofList (records.map Record.rule))
      | some field => .error (.tooLarge (String.ofList field)) := by
  rw [parse, read, recordsOf_eq_ok.2 h]
  exact result_collect .empty [] records

theorem parse_of_fits {text : String} {records : List Record} (h : Written records text.toList)
    (hfits : ∀ record ∈ records, record.Fits) :
    parse text = .ok (Table.ofList (records.map Record.rule)) := by
  rw [parse_of_written h, firstTooLarge?_eq_none.2 hfits]

/-- A text outside the grammar is refused as a whole, whatever its numbers are. -/
theorem parse_of_not_grammatical {text : String} (h : ¬ Grammatical text.toList) :
    ∃ offset expected, parse text = .error (.malformed offset text expected) := by
  obtain ⟨e, he⟩ := recordsOf_eq_error.2 h
  refine ⟨e.offset, e.expected, ?_⟩
  rw [parse, read, he]

/-- In what stands for a table every number fits. -/
theorem fits_of_parse {text : String} {records : List Record} {table : Table}
    (hw : Written records text.toList) (h : parse text = .ok table) :
    ∀ record ∈ records, record.Fits := by
  rw [parse_of_written hw] at h
  apply firstTooLarge?_eq_none.1
  cases hfirst : firstTooLarge? records with
  | none => rfl
  | some field =>
    rw [hfirst] at h
    cases h

/-- Only texts of the grammar whose numbers fit stand for a table. -/
theorem written_of_parse {text : String} {table : Table} (h : parse text = .ok table) :
    ∃ records, Written records text.toList ∧ ∀ record ∈ records, record.Fits := by
  by_cases hg : Grammatical text.toList
  · obtain ⟨records, hw⟩ := hg
    exact ⟨records, hw, fits_of_parse hw h⟩
  · obtain ⟨offset, expected, he⟩ := parse_of_not_grammatical hg
    rw [he] at h
    cases h

/-- A text is accepted exactly if it is in the grammar and all its numbers fit, and then stands for
the last record of each state, in which symbol number 1 is the figure `0`, 2 is the figure `1`, and
any other is the blank.  A text of the grammar with numbers that do not fit is refused for
the first of them, and a text outside the grammar for its layout alone. -/
theorem parse_spec (text : String) :
    ((∃ table, parse text = .ok table) ↔
      ∃ records, Written records text.toList ∧ ∀ record ∈ records, record.Fits) ∧
    (∀ records, Written records text.toList → (∀ record ∈ records, record.Fits) →
      ∃ table, parse text = .ok table ∧
        ∀ state, table.get? state = lastRule? (records.map Record.rule) state) ∧
    (∀ before record after field, Written (before ++ record :: after) text.toList →
      (∀ r ∈ before, r.Fits) → record.fields.find? Record.tooLarge = some field →
      parse text = .error (.tooLarge (String.ofList field))) ∧
    (¬ Grammatical text.toList →
      ∃ offset expected, parse text = .error (.malformed offset text expected)) := by
  refine ⟨?_, ?_, ?_, ?_⟩
  · constructor
    · rintro ⟨table, h⟩
      exact written_of_parse h
    · rintro ⟨records, hw, hfits⟩
      exact ⟨_, parse_of_fits hw hfits⟩
  · intro records hw hfits
    have hparse := parse_of_fits hw hfits
    refine ⟨_, hparse, ?_⟩
    intro state
    exact Table.get?_ofList _ state
  · intro before record after field hw hbefore hfield
    rw [parse_of_written hw, firstTooLarge?_append_cons hbefore hfield]
  · intro hno
    exact parse_of_not_grammatical hno

/-- Leading zeros do not make a number too large, symbol numbers above 2 are the blank, and a number
that is too large is not even looked at in a text that goes wrong later. -/
theorem parse_spec_numbers :
    (∃ table, parse "q1S000000000000000000001S2Lq3;q2S18446744073709551615S03Rq1" = .ok table ∧
      table.get? 1 = some ⟨1, .zero, .one, .left, 3⟩ ∧
      table.get? 2 = some ⟨2, .blank, .blank, .right, 1⟩) ∧
    parse "q1S0S18446744073709551616Lq2" = .error (.tooLarge "S18446744073709551616") ∧
    ∃ offset expected, parse "q1S0S18446744073709551616Lq2;q0" =
      .error (.malformed offset "q1S0S18446744073709551616Lq2;q0" expected) := by
  refine ⟨?_, ?_, ?_⟩
  · obtain ⟨table, htable, hget⟩ :=
      (parse_spec "q1S000000000000000000001S2Lq3;q2S18446744073709551615S03Rq1").2.1
        [⟨['1'], "000000000000000000001".toList, ['2'], .left, ['3']⟩,
          ⟨['2'], "18446744073709551615".toList, ['0', '3'], .right, ['1']⟩]
        (recordsOf_eq_ok.1 rfl) (by simp [Record.fits_iff]; decide)
    exact ⟨table, htable, hget 1, hget 2⟩
  · exact (parse_spec "q1S0S18446744073709551616Lq2").2.2.1 []
      ⟨['1'], ['0'], "18446744073709551616".toList, .left, ['2']⟩ []
      "S18446744073709551616".toList (recordsOf_eq_ok.1 rfl) (List.forall_mem_nil _)
      (by decide)
  · exact (parse_spec "q1S0S18446744073709551616Lq2;q0").2.2.2
      (recordsOf_eq_error.1 ⟨⟨30, .stateNumber⟩, rfl⟩)

end Canonical

end QuintupleMachine
