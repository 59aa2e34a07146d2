import QuintupleMachine.Proofs.Description.Composition
import QuintupleMachine.Proofs.Notations

/-! # Descriptions in normal form

When a description is read and its table is written down again, the rules come out by ascending
state, each state once and each rule with its `;`, and a run of `C`s that stands for no symbol comes
out empty.  Nothing else changes: a description comes back as it was exactly if it ends with `;`, its
states ascend and no run of `C`s in it is longer than two (`description_of_decode`). -/

namespace QuintupleMachine

/-! ## Runs of one letter -/

section

variable {c : Char} {n : Nat} {x y : List Char}

theorem replicate_prefix_append (hy : y.head? ≠ some c) (h : List.replicate n c <+: x ++ y) :
    List.replicate n c <+: x := by
  induction x generalizing n with
  | nil =>
    cases n with
    | zero => exact List.nil_prefix
    | succ n =>
      obtain ⟨rest, rfl⟩ := h
      exact absurd rfl hy
  | cons a x ih =>
    cases n with
    | zero => exact List.nil_prefix
    | succ n =>
      rw [List.replicate_succ, List.cons_append, List.cons_prefix_cons] at h
      rw [List.replicate_succ, List.cons_prefix_cons]
      exact ⟨h.1, ih h.2⟩

/-- A run of a letter does not reach from one text into another that starts with another letter. -/
theorem replicate_infix_append (hy : y.head? ≠ some c) (h : List.replicate n c <:+: x ++ y) :
    List.replicate n c <:+: x ∨ List.replicate n c <:+: y := by
  induction x with
  | nil => exact .inr h
  | cons a x ih =>
    rw [List.cons_append, List.infix_cons_iff] at h
    rcases h with h | h
    · rw [← List.cons_append] at h
      exact .inl (replicate_prefix_append hy h).isInfix
    · exact (ih h).imp_left fun h => h.trans (List.suffix_cons a x).isInfix

end

/-- Tokens start with a letter that is not counted. -/
theorem head?_lettersOf (tokens : List Token) : (lettersOf tokens).head? ≠ some 'C' := by
  cases tokens with
  | nil => simp [lettersOf]
  | cons token tokens =>
    rw [lettersOf, List.flatMap_cons]
    cases token with
    | state n | symbol n | close => simp [Token.letters]
    | move m => cases m <;> simp [Token.letters, Direction.letter]

/-- No run of `C`s is longer than in one of the tokens. -/
theorem le_of_replicate_infix {tokens : List Token} {n k : Nat}
    (htokens : ∀ token ∈ tokens, token.letters.count 'C' ≤ k)
    (h : List.replicate n 'C' <:+: lettersOf tokens) : n ≤ k := by
  induction tokens with
  | nil =>
    rw [lettersOf, List.flatMap_nil, List.infix_nil, List.replicate_eq_nil_iff] at h
    omega
  | cons token tokens ih =>
    rw [List.forall_mem_cons] at htokens
    rcases replicate_infix_append (head?_lettersOf tokens) h with h | h
    · refine Nat.le_trans ?_ htokens.1
      have := h.sublist.count_le 'C'
      rwa [List.count_replicate_self] at this
    · exact ih htokens.2 h

/-! ## Written tables -/

namespace Table

theorem complete_description (table : Table) : Description.Complete table.description := by
  rw [Description.Complete, description, String.toList_ofList, tokens]
  rcases List.eq_nil_or_concat table.quintuples with h | ⟨rules, rule, h⟩
  · left
    rw [h]
    rfl
  · right
    have hrule : lettersOf rule.tokens = lettersOf rule.tokens.dropLast ++ [';'] := by
      simp [Quintuple.tokens, lettersOf, Token.letters]
    rw [h, List.concat_eq_append, List.flatMap_append, List.flatMap_singleton, lettersOf_append,
      hrule, ← List.append_assoc, List.getLast?_concat]

/-- In a written table every symbol has a run of at most two letters. -/
theorem count_letters_le (table : Table) :
    ∀ token ∈ table.tokens, token.letters.count 'C' ≤ 2 := by
  have hmove : ∀ m : Direction, m.letter ≠ 'C' := by intro m; cases m <;> decide
  intro token htoken
  obtain ⟨rule, -, htoken⟩ := List.mem_flatMap.1 htoken
  simp only [Quintuple.tokens, List.mem_cons, List.not_mem_nil, or_false] at htoken
  rcases htoken with rfl | rfl | rfl | rfl | rfl | rfl <;>
    simp [Token.letters, List.count_replicate, Symbol.number_le, hmove]

/-- The rules of a written table are those of the table. -/
theorem exists_runs_description {table : Table} (hrange : table.InRange) (hpos : table.Positive) :
    ∃ runs, Separated ';' Runs.letters runs table.description.toList ∧
      runs.map Runs.quintuple = table.quintuples := by
  obtain ⟨runs, hruns, hrules, -⟩ := runs_of_rules hrange hpos
  rw [description, String.toList_ofList]
  exact ⟨runs, letters_of_tokens hruns, hrules⟩

end Table

namespace Description

/-- A text with these rules is empty or ends with `;`, its states ascend, and no run of `C`s in it is
longer than two. -/
structure Normal (runs : List Runs) (letters : String) : Prop where
  complete : Complete letters
  ascends : (runs.map Runs.state).Pairwise (· < ·)
  short : ∀ n, List.replicate n 'C' <:+: letters.toList → n ≤ 2

variable {runs : List Runs} {letters : String} {table : Table}

/-- A written table is in normal form. -/
theorem normal_description (hrules : runs.map Runs.quintuple = table.quintuples) :
    Normal runs table.description where
  complete := table.complete_description
  ascends := by
    have hascends := table.ascends
    rw [← hrules, Ascending.Ascends, List.pairwise_map] at hascends
    exact List.pairwise_map.2 hascends
  short n h := by
    rw [Table.description, String.toList_ofList] at h
    exact le_of_replicate_infix table.count_letters_le h

/-- A rule whose runs of `C`s are the numbers of symbols is written as it was. -/
theorem letters_quintuple {r : Runs} (hread : r.read ≤ 2) (hwrite : r.write ≤ 2) :
    lettersOf r.quintuple.tokens = r.letters ++ [';'] := by
  have htokens : r.quintuple.tokens = r.tokens ++ [.close] := by
    simp [Quintuple.tokens, Runs.tokens, Runs.quintuple, Symbol.number_numbered, hread, hwrite]
  rw [htokens, lettersOf_append, r.lettersOf_tokens]
  rfl

theorem runs_unique {more : List Runs} {cs : List Char} (h : Separated ';' Runs.letters runs cs)
    (h' : Separated ';' Runs.letters more cs) : runs = more :=
  Separated.unique Runs.mark_notMem_letters Runs.letters_ne_nil Runs.letters_injective h h'

/-- The runs of `C`s of a rule are runs of the text. -/
theorem Normal.symbols_le (h : Normal runs letters)
    (hruns : Separated ';' Runs.letters runs letters.toList) {r : Runs} (hr : r ∈ runs) :
    r.read ≤ 2 ∧ r.write ≤ 2 := by
  have hinfix := hruns.infix_of_mem hr
  constructor
  · refine h.short _ (List.IsInfix.trans ?_ hinfix)
    exact ⟨'D' :: List.replicate r.state 'A' ++ ['D'], _, by rw [Runs.letters]; simp; rfl⟩
  · refine h.short _ (List.IsInfix.trans ?_ hinfix)
    exact ⟨'D' :: List.replicate r.state 'A' ++ 'D' :: List.replicate r.read 'C' ++ ['D'], _,
      by rw [Runs.letters]; simp; rfl⟩

/-- A text in normal form is what its table is written as. -/
theorem Normal.description_eq (h : Normal runs letters)
    (hruns : Separated ';' Runs.letters runs letters.toList) :
    (Table.ofList (runs.map Runs.quintuple)).description = letters := by
  have hascends : Ascending.Ascends Quintuple.state (runs.map Runs.quintuple) :=
    List.pairwise_map.2 (List.pairwise_map.1 h.ascends)
  have hletters : letters.toList = terminated ';' Runs.letters runs :=
    hruns.eq_terminated Runs.mark_notMem_letters Runs.letters_ne_nil h.complete
  apply String.toList_injective
  calc
    (Table.ofList (runs.map Runs.quintuple)).description.toList
      = lettersOf ((runs.map Runs.quintuple).flatMap Quintuple.tokens) := by
        rw [Table.description, String.toList_ofList, Table.tokens,
          Table.quintuples_ofList hascends]
    _ = runs.flatMap fun r => lettersOf r.quintuple.tokens := by
        rw [lettersOf, List.flatMap_map, List.flatMap_assoc]
        rfl
    _ = terminated ';' Runs.letters runs := by
        refine List.flatMap_congr fun r hr => ?_
        exact letters_quintuple (h.symbols_le hruns hr).1 (h.symbols_le hruns hr).2
    _ = letters.toList := hletters.symm

theorem positive_of_runs (runs : List Runs) :
    (Table.ofList (runs.map Runs.quintuple)).Positive := by
  intro rule hrule
  obtain ⟨r, -, rfl⟩ := List.mem_map.1 (Table.mem_of_mem_ofList hrule)
  exact ⟨r.state_pos, r.next_pos⟩

theorem inRange_of_runs (hfits : ∀ r ∈ runs, r.record.Fits) :
    (Table.ofList (runs.map Runs.quintuple)).InRange := by
  intro rule hrule
  obtain ⟨r, hr, rfl⟩ := List.mem_map.1 (Table.mem_of_mem_ofList hrule)
  obtain ⟨hstate, -, -, hnext⟩ := Runs.fits_record.1 (hfits r hr)
  exact ⟨hstate, hnext⟩

/-- What a text of fewer than 2^64 characters stands for does not mention state 0 and is read again
from its own description.  This is the text itself exactly if it is empty or ends with `;`, the
states of its rules ascend, and no run of `C`s in it is longer than two. -/
theorem description_of_decode (letters : String) (hlength : letters.length ≤ Number.greatest)
    (table : Table) (h : decode letters = .ok table) :
    (∀ rule ∈ table.quintuples, 1 ≤ rule.state ∧ 1 ≤ rule.next) ∧
    decode table.description = .ok table ∧
    (∃ runs, Separated ';' Runs.letters runs letters.toList) ∧
    ∀ runs, Separated ';' Runs.letters runs letters.toList →
      (table.description = letters ↔ Normal runs letters) := by
  obtain ⟨runs, hruns, rfl⟩ := (decode_eq_ok hlength).1 h
  have hpos := positive_of_runs runs
  have hrange := inRange_of_runs (fits_of_letters hlength hruns)
  refine ⟨hpos, Table.decode_description hrange hpos, ⟨runs, hruns⟩, ?_⟩
  intro more hmore
  obtain rfl := runs_unique hruns hmore
  constructor
  · intro hsame
    obtain ⟨rules, hrules, hquintuples⟩ := Table.exists_runs_description hrange hpos
    rw [hsame] at hrules
    -- the rules of the text are those that the table is written with
    obtain rfl := runs_unique hruns hrules
    exact hsame ▸ normal_description hquintuples
  · intro hnormal
    exact hnormal.description_eq hruns

/-- Descending states, a run of three `C`s and no last `;`. -/
theorem description_of_decode_loose :
    decode "DAADDCCCNDA;DADDCRDA" =
      .ok (.ofList [⟨1, .blank, .zero, .right, 1⟩, ⟨2, .blank, .blank, .stay, 1⟩]) ∧
    decode (Table.ofList [⟨1, .blank, .zero, .right, 1⟩,
        ⟨2, .blank, .blank, .stay, 1⟩]).description =
      .ok (.ofList [⟨1, .blank, .zero, .right, 1⟩, ⟨2, .blank, .blank, .stay, 1⟩]) ∧
    (Table.ofList [⟨1, .blank, .zero, .right, 1⟩,
      ⟨2, .blank, .blank, .stay, 1⟩]).description ≠ "DAADDCCCNDA;DADDCRDA" := by
  have hdecode : decode "DAADDCCCNDA;DADDCRDA" =
      .ok (.ofList [⟨1, .blank, .zero, .right, 1⟩, ⟨2, .blank, .blank, .stay, 1⟩]) := rfl
  obtain ⟨-, hagain, ⟨runs, hruns⟩, hiff⟩ :=
    description_of_decode "DAADDCCCNDA;DADDCRDA" (by decide) _ hdecode
  refine ⟨hdecode, hagain, ?_⟩
  intro hsame
  rcases ((hiff runs hruns).1 hsame).complete with h | h <;> simp at h

end Description

end QuintupleMachine
