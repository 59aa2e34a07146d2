import QuintupleMachine.Proofs.Canonical.Parsing
import QuintupleMachine.Proofs.Description.Tokens

/-! # The rules of a description

A rule of a standard description is `DA^iDC^jDC^kMDA^n` with `i` and `n` positive.  The same rule
is five tokens and a record of canonical text, so a description, its tokens and its canonical text
are laid out alike.

The canonical text of tokens is cut back into these tokens (`runs_of_written`): behind a number it
never goes on with a digit.  So no other tokens have canonical text that is in the grammar. -/

namespace QuintupleMachine

/-- A rule as it is counted out: the lengths of its runs of letters, and its move. -/
structure Runs where
  state : Nat
  read : Nat
  write : Nat
  direction : Direction
  next : Nat
  state_pos : 0 < state
  next_pos : 0 < next

namespace Runs

/-- The letters of a rule. -/
def letters (r : Runs) : List Char :=
  'D' :: List.replicate r.state 'A' ++ 'D' :: List.replicate r.read 'C' ++
    'D' :: List.replicate r.write 'C' ++ r.direction.letter :: 'D' :: List.replicate r.next 'A'

/-- The tokens of a rule, without the end. -/
def tokens (r : Runs) : List Token :=
  [.state r.state, .symbol r.read, .symbol r.write, .move r.direction, .state r.next]

/-- The record of a rule in canonical text. -/
def record (r : Runs) : Record where
  state := Number.digits r.state
  read := Number.digits r.read
  write := Number.digits r.write
  direction := r.direction
  next := Number.digits r.next

/-- The quintuple that a rule stands for: a run of one `C` is the figure `0`, one of two is the
figure `1`, and any other run of `C`s is the blank. -/
def quintuple (r : Runs) : Quintuple where
  state := r.state
  read := .numbered r.read
  write := .numbered r.write
  direction := r.direction
  next := r.next

theorem lettersOf_tokens (r : Runs) : lettersOf r.tokens = r.letters := by
  simp [lettersOf, tokens, letters, Token.letters]

theorem canonicalOf_tokens (r : Runs) : canonicalOf r.tokens = r.record.text := by
  simp [canonicalOf, tokens, record, Record.text, Token.canonical]

theorem counted_tokens (r : Runs) : ∀ token ∈ r.tokens, token.Counted := by
  simp [tokens, Token.Counted, r.state_pos, r.next_pos]

theorem proper_record (r : Runs) : r.record.Proper where
  state := Number.stateNumeral_digits.2 r.state_pos
  read := Number.numeral_digits r.read
  write := Number.numeral_digits r.write
  next := Number.stateNumeral_digits.2 r.next_pos

@[simp] theorem rule_record (r : Runs) : r.record.rule = r.quintuple := by
  simp [record, Record.rule, quintuple]

theorem fits_record {r : Runs} :
    r.record.Fits ↔ r.state ≤ Number.greatest ∧ r.read ≤ Number.greatest ∧
      r.write ≤ Number.greatest ∧ r.next ≤ Number.greatest := by
  simp [Record.Fits, Record.fields, record]

/-- A rule does not hold the mark that ends it. -/
theorem mark_notMem_letters (r : Runs) : ';' ∉ r.letters := by
  have hmove : ';' ≠ r.direction.letter := by cases r.direction <;> decide
  simp [letters, List.mem_replicate, hmove]

theorem letters_ne_nil (r : Runs) : r.letters ≠ [] := by simp [letters]

/-- The runs of letters of a rule can be told from its letters. -/
theorem letters_injective : Function.Injective letters := by
  intro r r' h
  have htokens : r.tokens = r'.tokens := by
    rw [← lettersOf_tokens, ← lettersOf_tokens] at h
    have hr := tokensOf_eq_ok.2 ⟨r.counted_tokens, rfl⟩
    rw [h, tokensOf_eq_ok.2 ⟨r'.counted_tokens, rfl⟩] at hr
    exact (Except.ok.inj hr).symm
  cases r
  cases r'
  simp_all [tokens]

/-- No run is longer than all the letters. -/
theorem fits_of_length {r : Runs} (h : r.letters.length ≤ Number.greatest) : r.record.Fits := by
  rw [letters] at h
  simp only [List.length_append, List.length_cons, List.length_replicate] at h
  exact fits_record.2 ⟨by omega, by omega, by omega, by omega⟩

end Runs

/-! ## From rules to tokens and canonical text -/

section

variable {runs : List Runs} {tokens : List Token}

/-- The letters of rules are the letters of their tokens. -/
theorem letters_of_tokens (h : Separated .close Runs.tokens runs tokens) :
    Separated ';' Runs.letters runs (lettersOf tokens) := by
  have htext : (fun r : Runs => r.tokens.flatMap Token.letters) = Runs.letters := by
    funext r
    exact r.lettersOf_tokens
  rw [← htext]
  exact h.flatMap Token.letters rfl

theorem counted_of_tokens (h : Separated .close Runs.tokens runs tokens) :
    ∀ token ∈ tokens, token.Counted := by
  induction h with
  | nil => exact List.forall_mem_nil _
  | last r => exact r.counted_tokens
  | cons r _ ih =>
    exact List.forall_mem_append.2 ⟨r.counted_tokens, List.forall_mem_cons.2 ⟨trivial, ih⟩⟩

theorem tokens_of_letters {cs : List Char} (h : Separated ';' Runs.letters runs cs) :
    ∃ tokens, Separated .close Runs.tokens runs tokens ∧ cs = lettersOf tokens := by
  induction h with
  | nil => exact ⟨[], .nil, rfl⟩
  | last r => exact ⟨r.tokens, .last r, r.lettersOf_tokens.symm⟩
  | cons r _ ih =>
    obtain ⟨tokens, htokens, rfl⟩ := ih
    refine ⟨r.tokens ++ .close :: tokens, htokens.cons r, ?_⟩
    rw [lettersOf_append, r.lettersOf_tokens]
    rfl

/-- The canonical text of the tokens of rules is the records of these rules. -/
theorem written_of_tokens (h : Separated .close Runs.tokens runs tokens) :
    Canonical.Written (runs.map Runs.record) (canonicalOf tokens) := by
  have htext : (fun r : Runs => r.tokens.flatMap Token.canonical) = fun r => r.record.text := by
    funext r
    exact r.canonicalOf_tokens
  constructor
  · intro record hrecord
    obtain ⟨r, -, rfl⟩ := List.mem_map.1 hrecord
    exact r.proper_record
  · apply Separated.map_items Runs.record
    rw [← htext]
    exact h.flatMap Token.canonical rfl

end

/-! ## From canonical text back to tokens -/

section

open Number

variable {tokens : List Token}

theorem canonicalOf_cons (token : Token) (tokens : List Token) :
    canonicalOf (token :: tokens) = token.canonical ++ canonicalOf tokens := rfl

/-- A token is a mark and the digits of its number, if it has one. -/
theorem Token.exists_canonical (token : Token) :
    ∃ c ds, token.canonical = c :: ds ∧ c.isDigit = false ∧ Digits ds := by
  cases token with
  | state n => exact ⟨'q', digits n, rfl, rfl, (numeral_digits n).2⟩
  | symbol n => exact ⟨'S', digits n, rfl, rfl, (numeral_digits n).2⟩
  | move m => exact ⟨m.letter, [], rfl, Place.isDigit_letter m, .nil⟩
  | close => exact ⟨';', [], rfl, rfl, .nil⟩

theorem canonicalOf_eq_nil : canonicalOf tokens = [] ↔ tokens = [] := by
  cases tokens with
  | nil => simp [canonicalOf]
  | cons token tokens =>
    obtain ⟨c, ds, htoken, -⟩ := token.exists_canonical
    simp [canonicalOf_cons, htoken]

/-- No token starts with a digit. -/
theorem noDigit_canonicalOf (tokens : List Token) : NoDigit (canonicalOf tokens) := by
  cases tokens with
  | nil => exact .nil
  | cons token tokens =>
    obtain ⟨c, ds, htoken, hc, -⟩ := token.exists_canonical
    rw [canonicalOf_cons, htoken]
    exact .cons hc _

/-- The first token ends where its digits end. -/
theorem cut_token {c : Char} {ds rest : List Char} (hds : Digits ds) (hrest : NoDigit rest)
    (h : canonicalOf tokens = c :: (ds ++ rest)) :
    ∃ token more, tokens = token :: more ∧ token.canonical = c :: ds ∧
      canonicalOf more = rest := by
  cases tokens with
  | nil => cases h
  | cons token more =>
    obtain ⟨c', es, htoken, -, hes⟩ := token.exists_canonical
    rw [canonicalOf_cons, htoken] at h
    obtain ⟨rfl, htail⟩ := List.cons.inj h
    obtain ⟨rfl, hmore⟩ := digits_append_inj hes hds (noDigit_canonicalOf more) hrest htail
    exact ⟨token, more, rfl, htoken, hmore⟩

theorem cut_state {ds rest : List Char} (hds : Digits ds) (hrest : NoDigit rest)
    (h : canonicalOf tokens = 'q' :: (ds ++ rest)) :
    ∃ n more, tokens = .state n :: more ∧ digits n = ds ∧ canonicalOf more = rest := by
  obtain ⟨token, more, rfl, htoken, hmore⟩ := cut_token hds hrest h
  cases token with
  | state n => exact ⟨n, more, rfl, (List.cons.inj htoken).2, hmore⟩
  | symbol | close => simp [Token.canonical] at htoken
  | move m => cases m <;> simp [Token.canonical, Direction.letter] at htoken

theorem cut_symbol {ds rest : List Char} (hds : Digits ds) (hrest : NoDigit rest)
    (h : canonicalOf tokens = 'S' :: (ds ++ rest)) :
    ∃ n more, tokens = .symbol n :: more ∧ digits n = ds ∧ canonicalOf more = rest := by
  obtain ⟨token, more, rfl, htoken, hmore⟩ := cut_token hds hrest h
  cases token with
  | symbol n => exact ⟨n, more, rfl, (List.cons.inj htoken).2, hmore⟩
  | state | close => simp [Token.canonical] at htoken
  | move m => cases m <;> simp [Token.canonical, Direction.letter] at htoken

theorem cut_move {m : Direction} {rest : List Char} (hrest : NoDigit rest)
    (h : canonicalOf tokens = m.letter :: rest) :
    ∃ more, tokens = .move m :: more ∧ canonicalOf more = rest := by
  obtain ⟨token, more, rfl, htoken, hmore⟩ := cut_token .nil hrest h
  cases token with
  | move m' =>
    have hm := (List.cons.inj htoken).1
    obtain rfl : m' = m := by cases m' <;> cases m <;> first | rfl | cases hm
    exact ⟨more, rfl, hmore⟩
  | state | symbol | close =>
    cases m <;> simp [Token.canonical, Direction.letter] at htoken

theorem cut_close {rest : List Char} (hrest : NoDigit rest) (h : canonicalOf tokens = ';' :: rest) :
    ∃ more, tokens = .close :: more ∧ canonicalOf more = rest := by
  obtain ⟨token, more, rfl, htoken, hmore⟩ := cut_token .nil hrest h
  cases token with
  | close => exact ⟨more, rfl, hmore⟩
  | state | symbol => simp [Token.canonical] at htoken
  | move m => cases m <;> simp [Token.canonical, Direction.letter] at htoken

/-- Records start with `q`. -/
theorem noDigit_records {records : List Record} {text : List Char}
    (h : Separated ';' Record.text records text) : NoDigit text := by
  cases h with
  | nil => exact .nil
  | last record =>
    rw [Record.text_eq]
    exact .cons rfl _
  | cons record _ =>
    rw [Record.text_eq]
    exact .cons rfl _

/-- A record of the grammar is the text of the tokens of a rule. -/
theorem cut_record {record : Record} {rest : List Char} (hrecord : record.Proper)
    (hrest : NoDigit rest) (h : canonicalOf tokens = record.text ++ rest) :
    ∃ r : Runs, ∃ more, tokens = r.tokens ++ more ∧ record = r.record ∧
      canonicalOf more = rest := by
  have hS : ∀ cs, NoDigit ('S' :: cs) := .cons rfl
  rw [Record.text_eq] at h
  simp only [List.cons_append, List.append_assoc] at h
  obtain ⟨state, t₁, rfl, hstate, h₁⟩ := cut_state hrecord.state.2.1 (hS _) h
  obtain ⟨read, t₂, rfl, hread, h₂⟩ := cut_symbol hrecord.read.2 (hS _) h₁
  obtain ⟨write, t₃, rfl, hwrite, h₃⟩ :=
    cut_symbol hrecord.write.2 (.cons (Place.isDigit_letter record.direction) _) h₂
  obtain ⟨t₄, rfl, h₄⟩ := cut_move (.cons rfl _) h₃
  obtain ⟨next, t₅, rfl, hnext, h₅⟩ := cut_state hrecord.next.2.1 hrest h₄
  refine ⟨⟨state, read, write, record.direction, next, ?_, ?_⟩, t₅, rfl, ?_, h₅⟩
  · exact stateNumeral_digits.1 (hstate ▸ hrecord.state)
  · exact stateNumeral_digits.1 (hnext ▸ hrecord.next)
  · simp [Runs.record, hstate, hread, hwrite, hnext]

/-- Only the tokens of rules have canonical text that is in the grammar. -/
theorem runs_of_written {records : List Record}
    (h : Canonical.Written records (canonicalOf tokens)) :
    ∃ runs, Separated .close Runs.tokens runs tokens ∧ records = runs.map Runs.record := by
  obtain ⟨hproper, hlayout⟩ := h
  generalize htext : canonicalOf tokens = text at hlayout
  induction hlayout generalizing tokens with
  | nil =>
    obtain rfl := canonicalOf_eq_nil.1 htext
    exact ⟨[], .nil, rfl⟩
  | last record =>
    rw [← List.append_nil record.text] at htext
    obtain ⟨r, more, rfl, rfl, hmore⟩ :=
      cut_record (hproper record (List.mem_singleton_self record)) .nil htext
    obtain rfl := canonicalOf_eq_nil.1 hmore
    rw [List.append_nil]
    exact ⟨[r], .last r, rfl⟩
  | cons record hrest ih =>
    rw [List.forall_mem_cons] at hproper
    obtain ⟨r, more, rfl, rfl, hmore⟩ := cut_record hproper.1 (.cons rfl _) htext
    obtain ⟨tokens, rfl, htokens⟩ := cut_close (noDigit_records hrest) hmore
    obtain ⟨runs, hruns, rfl⟩ := ih hproper.2 htokens
    exact ⟨r :: runs, hruns.cons r, rfl⟩

end

end QuintupleMachine
