import QuintupleMachine.Encoding
import QuintupleMachine.Proofs.Description.Language
import QuintupleMachine.Proofs.Spelling

/-! # The notations of a table

Canonical text, a standard description and a machine number say the same about a table in which no
rule mentions state 0.  State 0 cannot be written: canonical text has no number for it, and in
letters its empty run is read as a symbol.  A table that mentions it is therefore refused in every
notation. -/

namespace QuintupleMachine

namespace Quintuple

/-- The states of a rule are 64-bit numbers. -/
def InRange (rule : Quintuple) : Prop :=
  rule.state ≤ Number.greatest ∧ rule.next ≤ Number.greatest

/-- A rule does not mention state 0. -/
def Positive (rule : Quintuple) : Prop := 0 < rule.state ∧ 0 < rule.next

instance (rule : Quintuple) : Decidable rule.InRange :=
  inferInstanceAs (Decidable (rule.state ≤ Number.greatest ∧ rule.next ≤ Number.greatest))

instance (rule : Quintuple) : Decidable rule.Positive :=
  inferInstanceAs (Decidable (0 < rule.state ∧ 0 < rule.next))

/-- A rule as it is counted out. -/
def runs (rule : Quintuple) (h : rule.Positive) : Runs where
  state := rule.state
  read := rule.read.number
  write := rule.write.number
  direction := rule.direction
  next := rule.next
  state_pos := h.1
  next_pos := h.2

@[simp] theorem quintuple_runs (rule : Quintuple) (h : rule.Positive) :
    (rule.runs h).quintuple = rule := by
  simp [runs, Runs.quintuple]

theorem tokens_eq (rule : Quintuple) (h : rule.Positive) :
    rule.tokens = (rule.runs h).tokens ++ [.close] := rfl

theorem fits_runs {rule : Quintuple} (hrange : rule.InRange) (h : rule.Positive) :
    (rule.runs h).record.Fits := by
  have hsymbol : ∀ symbol : Symbol, symbol.number ≤ Number.greatest :=
    fun symbol => Nat.le_trans symbol.number_le (by decide)
  exact Runs.fits_record.2 ⟨hrange.1, hsymbol rule.read, hsymbol rule.write, hrange.2⟩

end Quintuple

theorem Token.pos_of_reread {n m : Nat} (h : Token.reread (.state n) = .state m) : 0 < n := by
  cases n with
  | zero => cases h
  | succ n => exact Nat.succ_pos n

namespace Table

/-- Every state of a table is a 64-bit number. -/
def InRange (table : Table) : Prop := ∀ rule ∈ table.quintuples, rule.InRange

/-- No rule mentions state 0. -/
def Positive (table : Table) : Prop := ∀ rule ∈ table.quintuples, rule.Positive

instance (table : Table) : Decidable table.InRange :=
  inferInstanceAs (Decidable (∀ rule ∈ table.quintuples, rule.InRange))

instance (table : Table) : Decidable table.Positive :=
  inferInstanceAs (Decidable (∀ rule ∈ table.quintuples, rule.Positive))

/-! ## Without state 0 -/

/-- Rules without state 0 are written out as themselves. -/
theorem runs_of_rules {rules : List Quintuple}
    (hrange : ∀ rule ∈ rules, rule.InRange) (hpos : ∀ rule ∈ rules, rule.Positive) :
    ∃ runs, Separated .close Runs.tokens runs (rules.flatMap Quintuple.tokens) ∧
      runs.map Runs.quintuple = rules ∧ ∀ r ∈ runs, r.record.Fits := by
  induction rules with
  | nil => exact ⟨[], .nil, rfl, List.forall_mem_nil _⟩
  | cons rule rules ih =>
    rw [List.forall_mem_cons] at hrange hpos
    obtain ⟨runs, hruns, rfl, hfits⟩ := ih hrange.2 hpos.2
    have hfirst := Quintuple.fits_runs hrange.1 hpos.1
    refine ⟨rule.runs hpos.1 :: runs, ?_, ?_, List.forall_mem_cons.2 ⟨hfirst, hfits⟩⟩
    · rw [List.flatMap_cons, rule.tokens_eq hpos.1, List.append_assoc]
      exact hruns.cons _
    · rw [List.map_cons, Quintuple.quintuple_runs]

variable {table : Table}

/-- The description of a table is read as its tokens, but for state 0. -/
theorem tokensOf_description (table : Table) :
    tokensOf table.description.toList = .ok (table.tokens.map Token.reread) := by
  rw [description, String.toList_ofList, tokensOf_lettersOf]

theorem counted_tokens (hpos : table.Positive) : ∀ token ∈ table.tokens, token.Counted := by
  intro token htoken
  obtain ⟨rule, hrule, htoken⟩ := List.mem_flatMap.1 htoken
  rw [rule.tokens_eq (hpos rule hrule), List.mem_append, List.mem_singleton] at htoken
  rcases htoken with htoken | rfl
  · exact Runs.counted_tokens _ token htoken
  · trivial

theorem tokensOf_description_of_positive (hpos : table.Positive) :
    tokensOf table.description.toList = .ok table.tokens := by
  rw [tokensOf_description, map_reread_of_counted (counted_tokens hpos)]

theorem canonical_description (hpos : table.Positive) :
    Description.canonical table.description = .ok table.canonical := by
  rw [Description.canonical, tokensOf_description_of_positive hpos]
  rfl

theorem parse_canonical (hrange : table.InRange) (hpos : table.Positive) :
    Canonical.parse table.canonical = .ok table := by
  obtain ⟨runs, hruns, hrules, hfits⟩ := runs_of_rules hrange hpos
  have hparse := Description.parse_canonicalOf hruns hfits
  rwa [hrules, ofList_quintuples] at hparse

theorem decode_description (hrange : table.InRange) (hpos : table.Positive) :
    Description.decode table.description = .ok table := by
  rw [Description.decode_of_tokens (tokensOf_description_of_positive hpos)]
  exact parse_canonical hrange hpos

/-! ## With state 0 -/

/-- What the letters of rules are read as is rules only if none of them mentions state 0. -/
theorem positive_of_reread {rules : List Quintuple} {runs : List Runs}
    (h : Separated .close Runs.tokens runs ((rules.flatMap Quintuple.tokens).map Token.reread)) :
    ∀ rule ∈ rules, rule.Positive := by
  induction rules generalizing runs with
  | nil => exact List.forall_mem_nil _
  | cons rule rules ih =>
    rw [List.flatMap_cons, List.map_append] at h
    generalize htokens : rule.tokens.map Token.reread ++ _ = tokens at h
    cases h with
    | nil => simp [Quintuple.tokens] at htokens
    | last r => simp [Quintuple.tokens, Runs.tokens] at htokens
    | cons r hrest =>
      simp only [Quintuple.tokens, Runs.tokens, List.map_cons, List.map_nil, List.cons_append,
        List.nil_append, List.cons.injEq] at htokens
      obtain ⟨hstate, -, -, -, hnext, -, rfl⟩ := htokens
      have hfirst : rule.Positive :=
        ⟨Token.pos_of_reread hstate, Token.pos_of_reread hnext⟩
      exact List.forall_mem_cons.2 ⟨hfirst, ih hrest⟩

theorem positive_of_written {records : List Record}
    (h : Canonical.Written records (canonicalOf table.tokens)) : table.Positive := by
  obtain ⟨runs, hruns, -⟩ := runs_of_written h
  rw [← map_reread_of_counted (counted_of_tokens hruns)] at hruns
  exact positive_of_reread hruns

theorem positive_of_written_reread {records : List Record}
    (h : Canonical.Written records (canonicalOf (table.tokens.map Token.reread))) :
    table.Positive := by
  obtain ⟨runs, hruns, -⟩ := runs_of_written h
  exact positive_of_reread hruns

/-- The canonical text of a table with state 0 is not in the grammar. -/
theorem parse_canonical_of_not_positive (h : ¬ table.Positive) :
    ∃ offset expected,
      Canonical.parse table.canonical = .error (.malformed offset table.canonical expected) := by
  refine Canonical.parse_of_not_grammatical ?_
  rintro ⟨records, hwritten⟩
  rw [canonical, String.toList_ofList] at hwritten
  exact h (positive_of_written hwritten)

/-- The description of a table with state 0 becomes a text that is not in the grammar. -/
theorem decode_description_of_not_positive (h : ¬ table.Positive) :
    ∃ offset text expected,
      Description.decode table.description = .error (.malformed offset text expected) := by
  have hno : ¬ Canonical.Grammatical
      (String.ofList (canonicalOf (table.tokens.map Token.reread))).toList := by
    rintro ⟨records, hwritten⟩
    rw [String.toList_ofList] at hwritten
    exact h (positive_of_written_reread hwritten)
  obtain ⟨offset, expected, hparse⟩ := Canonical.parse_of_not_grammatical hno
  exact ⟨offset, _, expected,
    (Description.decode_of_tokens (tokensOf_description table)).trans hparse⟩

/-! ## All notations -/

/-- The letters of a table come back from its machine number. -/
theorem numberToLetters_machineNumber (table : Table) :
    Spelling.numberToLetters table.machineNumber = table.description := by
  obtain ⟨ls, hls⟩ := exists_letters_lettersOf table.tokens
  rw [machineNumber, description, hls, Spelling.lettersToNumber_char,
    Spelling.numberToLetters_digit]

/-- The machine number of a table comes back from base 7. -/
theorem base7ToNumber_machineNumber (table : Table) :
    Spelling.base7ToNumber (Spelling.numberToBase7 table.machineNumber) = table.machineNumber := by
  obtain ⟨ls, hls⟩ := exists_letters_lettersOf table.tokens
  rw [machineNumber, description, hls, Spelling.lettersToNumber_char,
    Spelling.numberToBase7_digit, Spelling.base7ToNumber_base7]

/-- A table without state 0 is read back from each of its notations, and they are turned into one
another.  A table with state 0 is read back from none. -/
theorem notations_agree (table : Table) (hrange : table.InRange) :
    ((∀ rule ∈ table.quintuples, 0 < rule.state ∧ 0 < rule.next) →
      Description.canonical table.description = .ok table.canonical ∧
      Canonical.parse table.canonical = .ok table ∧
      Description.decode table.description = .ok table ∧
      Description.decode (Spelling.numberToLetters table.machineNumber) = .ok table ∧
      Description.decode (Spelling.numberToLetters
        (Spelling.base7ToNumber (Spelling.numberToBase7 table.machineNumber))) = .ok table) ∧
    ((∃ rule ∈ table.quintuples, rule.state = 0 ∨ rule.next = 0) →
      (∃ offset text expected,
        Description.decode table.description = .error (.malformed offset text expected)) ∧
      ∃ offset expected,
        Canonical.parse table.canonical =
          .error (.malformed offset table.canonical expected)) := by
  constructor
  · intro hpos
    have hdecode := decode_description hrange hpos
    rw [base7ToNumber_machineNumber, numberToLetters_machineNumber]
    exact ⟨canonical_description hpos, parse_canonical hrange hpos, hdecode, hdecode, hdecode⟩
  · rintro ⟨rule, hrule, hzero⟩
    have hno : ¬ table.Positive := by
      intro hpos
      obtain ⟨hstate, hnext⟩ := hpos rule hrule
      omega
    exact ⟨decode_description_of_not_positive hno, parse_canonical_of_not_positive hno⟩

/-- A table of three rules that is read back, and one in which the second rule hands over to
state 0. -/
theorem notations_agree_unordered :
    (ofList [⟨4, .blank, .zero, .left, 1⟩, ⟨1, .zero, .blank, .right, 2⟩,
      ⟨2, .blank, .one, .stay, 4⟩]).InRange ∧
    Description.decode (ofList [⟨4, .blank, .zero, .left, 1⟩, ⟨1, .zero, .blank, .right, 2⟩,
        ⟨2, .blank, .one, .stay, 4⟩]).description =
      .ok (ofList [⟨4, .blank, .zero, .left, 1⟩, ⟨1, .zero, .blank, .right, 2⟩,
        ⟨2, .blank, .one, .stay, 4⟩]) ∧
    ∃ offset expected,
      Canonical.parse (ofList [⟨1, .blank, .one, .stay, 2⟩, ⟨2, .one, .zero, .left, 0⟩]).canonical =
        .error (.malformed offset
          (ofList [⟨1, .blank, .one, .stay, 2⟩, ⟨2, .one, .zero, .left, 0⟩]).canonical expected) := by
  have hrange : (ofList [⟨4, .blank, .zero, .left, 1⟩, ⟨1, .zero, .blank, .right, 2⟩,
      ⟨2, .blank, .one, .stay, 4⟩]).InRange := by
    unfold InRange Quintuple.InRange
    decide
  have hzero : (ofList [⟨1, .blank, .one, .stay, 2⟩, ⟨2, .one, .zero, .left, 0⟩]).InRange := by
    unfold InRange Quintuple.InRange
    decide
  refine ⟨hrange, ((notations_agree _ hrange).1 ?_).2.2.1, ((notations_agree _ hzero).2 ?_).2⟩
  · decide
  · decide

end Table

end QuintupleMachine
