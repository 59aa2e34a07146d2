import Mathlib.Data.List.Dedup
import QuintupleMachine.Proofs.Canonical.Parsing

/-! # Redefined states

While the records of a canonical text enter a table, each state is reported that the table defines
already.  The records before the first one that is too large are those that enter, so the states
reported are the states of these records that come up again, once for each time they do
(`redefined_of_written`).  If all records enter, each of them gives the table a new state or is
reported (`length_redefined`). -/

namespace QuintupleMachine

/-- The numbers of a list that stand in it earlier as well, once for each time they come up again. -/
def repeated (ns : List Nat) : List Nat :=
  (ns.zipIdx.filter fun entry => entry.1 ∈ ns.take entry.2).map Prod.fst

section

variable {ns : List Nat}

theorem repeated_concat (ns : List Nat) (n : Nat) :
    repeated (ns ++ [n]) = if n ∈ ns then repeated ns ++ [n] else repeated ns := by
  have hfront : ns.zipIdx.filter (fun entry => entry.1 ∈ (ns ++ [n]).take entry.2) =
      ns.zipIdx.filter fun entry => entry.1 ∈ ns.take entry.2 := by
    refine List.filter_congr fun entry hentry => ?_
    obtain ⟨-, hlt, -⟩ := List.mem_zipIdx hentry
    rw [List.take_append_of_le_length (by omega)]
  rw [repeated, List.zipIdx_append, List.filter_append, List.map_append, hfront]
  by_cases h : n ∈ ns
  · simp [repeated, h]
  · simp [repeated, h]

/-- Each number is counted once, or it comes up again. -/
theorem length_repeated (ns : List Nat) :
    (repeated ns).length + ns.toFinset.card = ns.length := by
  induction ns using List.reverseRecOn with
  | nil => rfl
  | append_singleton ns n ih =>
    have hset : (ns ++ [n]).toFinset = insert n ns.toFinset := by
      rw [List.toFinset_append, List.toFinset_cons, List.toFinset_nil, insert_empty_eq,
        Finset.union_comm, Finset.insert_eq]
    rw [repeated_concat, hset, List.length_append, List.length_singleton]
    by_cases h : n ∈ ns
    · rw [if_pos h, Finset.insert_eq_of_mem (List.mem_toFinset.2 h), List.length_append,
        List.length_singleton]
      omega
    · rw [if_neg h, Finset.card_insert_of_notMem (mt List.mem_toFinset.1 h)]
      omega

/-- Nothing comes up again exactly if all numbers are different. -/
theorem repeated_eq_nil : repeated ns = [] ↔ ns.Nodup := by
  induction ns using List.reverseRecOn with
  | nil => simp [repeated]
  | append_singleton ns n ih =>
    rw [repeated_concat, List.nodup_append, ← ih]
    by_cases h : n ∈ ns
    · simp [h]
    · have hne : ∀ m ∈ ns, ¬ m = n := fun m hm hmn => h (hmn ▸ hm)
      simpa [h] using fun _ => hne

end

namespace Record

/-- The state that a record defines. -/
def stateNumber (record : Record) : Nat := Number.value record.state

/-- A record has a number above the greatest. -/
def isTooLarge (record : Record) : Bool := record.fields.any tooLarge

theorem isTooLarge_eq_false {record : Record} : record.isTooLarge = false ↔ record.Fits := by
  simp [isTooLarge, Fits, tooLarge]

theorem isSome_find?_tooLarge (record : Record) :
    (record.fields.find? tooLarge).isSome = record.isTooLarge :=
  List.isSome_find?

end Record

namespace Canonical

/-- The records that enter a table: those before the first one that is too large. -/
def entering (records : List Record) : List Record :=
  records.take (records.findIdx Record.isTooLarge)

theorem entering_cons (record : Record) (records : List Record) :
    entering (record :: records) =
      if record.isTooLarge then [] else record :: entering records := by
  rw [entering, List.findIdx_cons]
  cases record.isTooLarge <;> rfl

theorem entering_of_fits {records : List Record} (h : ∀ record ∈ records, record.Fits) :
    entering records = records := by
  have hall : records.findIdx Record.isTooLarge = records.length :=
    List.findIdx_eq_length.2 fun record hrecord => Record.isTooLarge_eq_false.2 (h record hrecord)
  rw [entering, hall, List.take_length]

/-- One more record is reported if the table of those before it defines its state. -/
theorem report_concat (before : List Record) (record : Record) :
    (repeated ((before ++ [record]).map Record.stateNumber)).reverse =
      if (Table.ofList (before.map Record.rule)).defines record.rule.state then
        record.rule.state :: (repeated (before.map Record.stateNumber)).reverse
      else (repeated (before.map Record.stateNumber)).reverse := by
  have hdefines : (Table.ofList (before.map Record.rule)).defines record.rule.state = true ↔
      record.stateNumber ∈ before.map Record.stateNumber := by
    simp [Table.defines_ofList, Record.rule, Record.stateNumber]
  rw [List.map_append, List.map_singleton, repeated_concat]
  by_cases h : record.stateNumber ∈ before.map Record.stateNumber
  · rw [if_pos h, if_pos (hdefines.2 h), List.reverse_concat]
    rfl
  · rw [if_neg h, if_neg (mt hdefines.1 h)]

/-- The state of a record that enters is reported if the records before it define it. -/
theorem redefined_collect (before records : List Record) :
    (collect (.ofList (before.map Record.rule))
      (repeated (before.map Record.stateNumber)).reverse records).redefined =
        repeated ((before ++ entering records).map Record.stateNumber) := by
  induction records generalizing before with
  | nil => simp [collect, entering]
  | cons record records ih =>
    rw [collect, Record.quintuple_eq, entering_cons, ← Record.isSome_find?_tooLarge]
    cases record.fields.find? Record.tooLarge with
    | some field => simp
    | none =>
      have hinsert : (Table.ofList (before.map Record.rule)).insert record.rule =
          .ofList ((before ++ [record]).map Record.rule) := by
        rw [List.map_append, Table.ofList, Table.ofList, List.foldl_append]
        rfl
      dsimp only
      rw [← report_concat, hinsert, ih, List.append_assoc]
      rfl

/-- What is reported of a text of the grammar. -/
theorem redefined_of_written {text : String} {records : List Record}
    (h : Written records text.toList) :
    (read text).redefined = repeated ((entering records).map Record.stateNumber) := by
  rw [read, recordsOf_eq_ok.2 h]
  exact redefined_collect [] records

/-- A text outside the grammar is refused before any record enters. -/
theorem redefined_of_not_grammatical {text : String} (h : ¬ Grammatical text.toList) :
    (read text).redefined = [] := by
  obtain ⟨e, he⟩ := recordsOf_eq_error.2 h
  rw [read, he]

/-- The reports on an accepted text and the rules of its table are as many as its records. -/
theorem length_redefined {text : String} {records : List Record} {table : Table}
    (h : Written records text.toList) (hparse : parse text = .ok table) :
    (read text).redefined.length + table.size = records.length := by
  have hfits := fits_of_parse h hparse
  rw [parse_of_fits h hfits] at hparse
  obtain rfl := Except.ok.inj hparse
  have hlength := length_repeated (records.map Record.stateNumber)
  rw [redefined_of_written h, entering_of_fits hfits, Table.size_ofList, List.map_map]
  rwa [List.length_map] at hlength

/-- Of a text of the grammar, the records before the first one that is too large are looked at: the
states of those with the same state in an earlier record are reported, in order.  Of any other text
nothing is reported.  When a text is accepted, reports and rules are together as many as records, so
nothing is reported exactly if the records define different states. -/
theorem redefined_spec (text : String) :
    (∀ records, Written records text.toList →
      (read text).redefined = repeated
        ((records.take (records.findIdx Record.isTooLarge)).map Record.stateNumber)) ∧
    (¬ Grammatical text.toList → (read text).redefined = []) ∧
    ∀ records table, Written records text.toList → parse text = .ok table →
      (read text).redefined.length + table.size = records.length ∧
      ((read text).redefined = [] ↔ (records.map Record.stateNumber).Nodup) := by
  refine ⟨fun _ => redefined_of_written, redefined_of_not_grammatical, ?_⟩
  intro records table h hparse
  refine ⟨length_redefined h hparse, ?_⟩
  rw [redefined_of_written h, entering_of_fits (fits_of_parse h hparse), repeated_eq_nil]

/-- State 1 is defined three times before a record that is too large: this record, which defines
state 2 again, is not reported, nor is the one behind it.  A text that ends outside the grammar has
no reports, and an accepted one has one for each record that gives no rule. -/
theorem redefined_spec_thrice :
    (read "q1S0S0Nq1;q2S0S0Nq1;q1S0S0Nq1;q1S0S0Nq1;q2S0S0Nq99999999999999999999;q1S0S0Nq1"
      ).redefined = [1, 1] ∧
    (read "q1S0S0Nq1;q1S0S0Nq1;q0").redefined = [] ∧
    parse "q3S0S0Nq1;q1S0S0Nq1;q3S0S1Nq1" =
      .ok (.ofList [⟨1, .blank, .blank, .stay, 1⟩, ⟨3, .blank, .zero, .stay, 1⟩]) ∧
    (read "q3S0S0Nq1;q1S0S0Nq1;q3S0S1Nq1").redefined.length + 2 = 3 := by
  have hparse : parse "q3S0S0Nq1;q1S0S0Nq1;q3S0S1Nq1" =
      .ok (.ofList [⟨1, .blank, .blank, .stay, 1⟩, ⟨3, .blank, .zero, .stay, 1⟩]) := rfl
  refine ⟨?_, ?_, hparse, ?_⟩
  · refine ((redefined_spec _).1
      [⟨['1'], ['0'], ['0'], .stay, ['1']⟩, ⟨['2'], ['0'], ['0'], .stay, ['1']⟩,
        ⟨['1'], ['0'], ['0'], .stay, ['1']⟩, ⟨['1'], ['0'], ['0'], .stay, ['1']⟩,
        ⟨['2'], ['0'], ['0'], .stay, "99999999999999999999".toList⟩,
        ⟨['1'], ['0'], ['0'], .stay, ['1']⟩]
      (recordsOf_eq_ok.1 rfl)).trans ?_
    decide
  · exact (redefined_spec _).2.1 (recordsOf_eq_error.1 ⟨⟨21, .stateNumber⟩, rfl⟩)
  · exact ((redefined_spec _).2.2
      [⟨['3'], ['0'], ['0'], .stay, ['1']⟩, ⟨['1'], ['0'], ['0'], .stay, ['1']⟩,
        ⟨['3'], ['0'], ['1'], .stay, ['1']⟩] _ (recordsOf_eq_ok.1 rfl) hparse).1

end Canonical

end QuintupleMachine
