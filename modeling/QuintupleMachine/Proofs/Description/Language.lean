import QuintupleMachine.Description.Basic
import QuintupleMachine.Proofs.Description.Runs

/-! # The language of descriptions

A description stands for a table exactly if it consists of rules, each followed by `;`, which the
last may leave out.  Letters become canonical text by way of their tokens, so the rules of the
description are the records that are found there, and nothing else becomes records. -/

namespace QuintupleMachine.Description

theorem decode_of_tokens {letters : String} {tokens : List Token}
    (h : tokensOf letters.toList = .ok tokens) :
    decode letters = Canonical.parse (String.ofList (canonicalOf tokens)) := by
  rw [decode, read, canonical, h]
  rfl

theorem tokens_of_decode {letters : String} {table : Table} (h : decode letters = .ok table) :
    ∃ tokens, tokensOf letters.toList = .ok tokens := by
  cases htokens : tokensOf letters.toList with
  | ok tokens => exact ⟨tokens, rfl⟩
  | error e =>
    rw [decode, read, canonical, htokens] at h
    cases h

/-- The canonical text of rules stands for the table of their quintuples. -/
theorem parse_canonicalOf {runs : List Runs} {tokens : List Token}
    (h : Separated .close Runs.tokens runs tokens) (hfits : ∀ r ∈ runs, r.record.Fits) :
    Canonical.parse (String.ofList (canonicalOf tokens)) =
      .ok (Table.ofList (runs.map Runs.quintuple)) := by
  have hwritten : Canonical.Written (runs.map Runs.record)
      (String.ofList (canonicalOf tokens)).toList := by
    rw [String.toList_ofList]
    exact written_of_tokens h
  have hrule : Record.rule ∘ Runs.record = Runs.quintuple := by
    funext r
    exact r.rule_record
  rw [Canonical.parse_of_fits hwritten (List.forall_mem_map.2 hfits), List.map_map, hrule]

/-- Only the tokens of rules are found in the grammar again. -/
theorem runs_of_parse {tokens : List Token} {table : Table}
    (h : Canonical.parse (String.ofList (canonicalOf tokens)) = .ok table) :
    ∃ runs, Separated .close Runs.tokens runs tokens := by
  obtain ⟨records, hwritten, -⟩ := Canonical.written_of_parse h
  rw [String.toList_ofList] at hwritten
  obtain ⟨runs, hruns, -⟩ := runs_of_written hwritten
  exact ⟨runs, hruns⟩

/-- Rules in letters stand for the table of their quintuples. -/
theorem decode_of_letters {letters : String} {runs : List Runs}
    (h : Separated ';' Runs.letters runs letters.toList) (hfits : ∀ r ∈ runs, r.record.Fits) :
    decode letters = .ok (Table.ofList (runs.map Runs.quintuple)) := by
  obtain ⟨tokens, htokens, htext⟩ := tokens_of_letters h
  rw [decode_of_tokens (tokensOf_eq_ok.2 ⟨counted_of_tokens htokens, htext⟩),
    parse_canonicalOf htokens hfits]

/-- What stands for a table consists of rules. -/
theorem letters_of_decode {letters : String} {table : Table} (h : decode letters = .ok table) :
    ∃ runs, Separated ';' Runs.letters runs letters.toList := by
  obtain ⟨tokens, htokens⟩ := tokens_of_decode h
  rw [decode_of_tokens htokens] at h
  obtain ⟨runs, hruns⟩ := runs_of_parse h
  rw [(tokensOf_eq_ok.1 htokens).2]
  exact ⟨runs, letters_of_tokens hruns⟩

/-- In a text whose length is a 64-bit number no run of letters is too long. -/
theorem fits_of_letters {letters : String} {runs : List Runs}
    (hlength : letters.length ≤ Number.greatest)
    (h : Separated ';' Runs.letters runs letters.toList) : ∀ r ∈ runs, r.record.Fits := by
  intro r hr
  refine Runs.fits_of_length (Nat.le_trans (h.infix_of_mem hr).length_le ?_)
  rw [String.length_toList]
  exact hlength

/-- What a text whose length is a 64-bit number stands for. -/
theorem decode_eq_ok {letters : String} {table : Table}
    (hlength : letters.length ≤ Number.greatest) :
    decode letters = .ok table ↔ ∃ runs, Separated ';' Runs.letters runs letters.toList ∧
      table = Table.ofList (runs.map Runs.quintuple) := by
  constructor
  · intro h
    obtain ⟨runs, hruns⟩ := letters_of_decode h
    rw [decode_of_letters hruns (fits_of_letters hlength hruns)] at h
    exact ⟨runs, hruns, (Except.ok.inj h).symm⟩
  · rintro ⟨runs, hruns, rfl⟩
    exact decode_of_letters hruns (fits_of_letters hlength hruns)

theorem defines_quintuples (runs : List Runs) (state : Nat) :
    (Table.ofList (runs.map Runs.quintuple)).defines state = true ↔
      ∃ r ∈ runs, r.state = state := by
  rw [Table.defines_ofList]
  constructor
  · rintro ⟨rule, hrule, hstate⟩
    obtain ⟨r, hr, rfl⟩ := List.mem_map.1 hrule
    exact ⟨r, hr, hstate⟩
  · rintro ⟨r, hr, hstate⟩
    exact ⟨r.quintuple, List.mem_map_of_mem hr, hstate⟩

/-- A text of fewer than 2^64 characters is accepted exactly if it consists of rules
`DA^iDC^jDC^kMDA^n`.  It then stands for the table that defines the states of these rules, each by
the last rule for it, in which one `C` is the figure `0`, two are the figure `1`, and any other
number of them is the blank.  Any other text is refused. -/
theorem decode_spec (letters : String) (hlength : letters.length ≤ Number.greatest) :
    ((∃ table, decode letters = .ok table) ↔
      ∃ runs, Separated ';' Runs.letters runs letters.toList) ∧
    (∀ runs, Separated ';' Runs.letters runs letters.toList →
      ∃ table, decode letters = .ok table ∧
        (∀ state, table.defines state = true ↔ ∃ r ∈ runs, r.state = state) ∧
        ∀ state, table.get? state = lastRule? (runs.map Runs.quintuple) state) ∧
    ((¬ ∃ runs, Separated ';' Runs.letters runs letters.toList) →
      ∃ e, decode letters = .error e) := by
  have accepts : ∀ runs, Separated ';' Runs.letters runs letters.toList →
      decode letters = .ok (Table.ofList (runs.map Runs.quintuple)) := by
    intro runs h
    exact decode_of_letters h (fits_of_letters hlength h)
  refine ⟨?_, ?_, ?_⟩
  · constructor
    · rintro ⟨table, h⟩
      exact letters_of_decode h
    · rintro ⟨runs, h⟩
      exact ⟨_, accepts runs h⟩
  · intro runs h
    refine ⟨_, accepts runs h, defines_quintuples runs, ?_⟩
    intro state
    exact Table.get?_ofList _ state
  · intro hno
    cases h : decode letters with
    | ok table => exact absurd (letters_of_decode h) hno
    | error e => exact ⟨e, rfl⟩

/-- Two rules for state 1, of which the second is kept.  It reads two `C`s and writes three, and the
next rule reads one and writes two. -/
theorem decode_spec_redefined :
    "DADDRDA;DADCCDCCCRDAA;DAADCDCCNDA;DAAADDLDA".length ≤ Number.greatest ∧
      ∃ table, decode "DADDRDA;DADCCDCCCRDAA;DAADCDCCNDA;DAAADDLDA" = .ok table ∧
        table.get? 1 = some ⟨1, .one, .blank, .right, 2⟩ ∧
        table.get? 2 = some ⟨2, .zero, .one, .stay, 1⟩ ∧
        table.get? 3 = some ⟨3, .blank, .blank, .left, 1⟩ := by
  have hlength : "DADDRDA;DADCCDCCCRDAA;DAADCDCCNDA;DAAADDLDA".length ≤ Number.greatest := by
    decide
  obtain ⟨table, htable, -, hget⟩ :=
    (decode_spec "DADDRDA;DADCCDCCCRDAA;DAADCDCCNDA;DAAADDLDA" hlength).2.1
      [⟨1, 0, 0, .right, 1, by decide, by decide⟩, ⟨1, 2, 3, .right, 2, by decide, by decide⟩,
        ⟨2, 1, 2, .stay, 1, by decide, by decide⟩, ⟨3, 0, 0, .left, 1, by decide, by decide⟩]
      (.cons _ (.cons _ (.cons _ (.last _))))
  exact ⟨hlength, table, htable, hget 1, hget 2, hget 3⟩

end QuintupleMachine.Description
