import QuintupleMachine.Description.Field
import QuintupleMachine.Proofs.Spelling

/-! # Descriptions as tokens

A description is read as tokens exactly if it is their letters, and then no state is counted as
zero: a `D` without an `A` after it is the symbol number zero (`tokensOf_eq_ok`).  Tokens that do
count a state as zero are therefore read back as other tokens (`tokensOf_lettersOf`).

While letters are read, those of the pending field stand between the tokens that are complete and
the letters still to come. -/

namespace QuintupleMachine

namespace Token

/-- No state is counted as zero. -/
def Counted : Token → Prop
  | state n => 0 < n
  | _ => True

/-- The token that the letters of a token are read as. -/
def reread : Token → Token
  | state 0 => symbol 0
  | token => token

theorem reread_of_counted {token : Token} (h : token.Counted) : token.reread = token := by
  unfold reread
  split
  · cases h
  · rfl

end Token

@[simp] theorem lettersOf_append (tokens more : List Token) :
    lettersOf (tokens ++ more) = lettersOf tokens ++ lettersOf more :=
  List.flatMap_append

theorem map_reread_of_counted {tokens : List Token} (h : ∀ token ∈ tokens, token.Counted) :
    tokens.map Token.reread = tokens := by
  rw [List.map_congr_left fun token ht => Token.reread_of_counted (h token ht), List.map_id']

namespace Field

/-- The letters of a pending field. -/
def letters : Field → List Char
  | closed => []
  | opened => ['D']
  | states n => 'D' :: List.replicate n 'A'
  | symbols n => 'D' :: List.replicate n 'C'

/-- A state that is being counted has been counted once at least. -/
def Counted : Field → Prop
  | states n => 0 < n
  | _ => True

/-- Closing a field keeps its letters. -/
theorem lettersOf_token? (field : Field) : lettersOf field.token?.toList = field.letters := by
  cases field <;> simp [lettersOf, token?, letters, Token.letters]

theorem counted_token? {field : Field} (h : field.Counted) :
    ∀ token ∈ field.token?.toList, token.Counted := by
  cases field with
  | closed => simp [token?]
  | opened | symbols n => simp [token?, Token.Counted]
  | states n => exact List.forall_mem_singleton.2 h

/-- `Step field letter tokens field'`: after `field` the letter can stand; it completes `tokens` and
leaves `field'` pending. -/
inductive Step : Field → Letter → List Token → Field → Prop
  | opens (field : Field) : Step field .d field.token?.toList opened
  | firstState : Step opened .a [] (states 1)
  | nextState (n : Nat) : Step (states n) .a [] (states (n + 1))
  | firstSymbol : Step opened .c [] (symbols 1)
  | nextSymbol (n : Nat) : Step (symbols n) .c [] (symbols (n + 1))
  | move (field : Field) (m : Direction) :
      Step field m.toLetter (field.token?.toList ++ [.move m]) closed
  | close (field : Field) : Step field .semicolon (field.token?.toList ++ [.close]) closed

theorem read_of_step {field field' : Field} {letter : Letter} {tokens : List Token}
    (h : Step field letter tokens field') : field.read letter = some (tokens, field') := by
  cases h with
  | opens | close => cases field <;> rfl
  | move _ m => cases m <;> cases field <;> rfl
  | firstState | nextState | firstSymbol | nextSymbol => rfl

theorem step_of_read {field field' : Field} {letter : Letter} {tokens : List Token}
    (h : field.read letter = some (tokens, field')) : Step field letter tokens field' := by
  cases letter with
  | d => cases field <;> (cases h; exact .opens _)
  | l => cases field <;> (cases h; exact .move _ .left)
  | r => cases field <;> (cases h; exact .move _ .right)
  | n => cases field <;> (cases h; exact .move _ .stay)
  | semicolon => cases field <;> (cases h; exact .close _)
  | a =>
    cases field with
    | closed | symbols n => cases h
    | opened => cases h; exact .firstState
    | states n => cases h; exact .nextState n
  | c =>
    cases field with
    | closed | states n => cases h
    | opened => cases h; exact .firstSymbol
    | symbols n => cases h; exact .nextSymbol n

theorem cons_replicate_concat (c : Char) (n : Nat) :
    'D' :: List.replicate n c ++ [c] = 'D' :: List.replicate (n + 1) c := by
  rw [List.replicate_succ', List.cons_append]

/-- What one letter does: the letters of the pending field grow by it, unless they become the
letters of tokens that are now complete. -/
theorem Step.spec {field field' : Field} {letter : Letter} {tokens : List Token}
    (h : Step field letter tokens field') (hf : field.Counted) :
    field'.Counted ∧ (∀ token ∈ tokens, token.Counted) ∧
      field.letters ++ [letter.char] = lettersOf tokens ++ field'.letters := by
  cases h with
  | opens => exact ⟨trivial, counted_token? hf, by rw [lettersOf_token?]; rfl⟩
  | firstState => exact ⟨Nat.one_pos, by simp, rfl⟩
  | nextState n => exact ⟨Nat.succ_pos n, by simp, cons_replicate_concat 'A' n⟩
  | firstSymbol => exact ⟨trivial, by simp, rfl⟩
  | nextSymbol n => exact ⟨trivial, by simp, cons_replicate_concat 'C' n⟩
  | move _ m =>
    refine ⟨trivial, List.forall_mem_append.2 ⟨counted_token? hf, ?_⟩, ?_⟩
    · simp [Token.Counted]
    · rw [lettersOf_append, lettersOf_token?, List.append_assoc, Direction.char_toLetter]
      rfl
  | close =>
    refine ⟨trivial, List.forall_mem_append.2 ⟨counted_token? hf, ?_⟩, ?_⟩
    · simp [Token.Counted]
    · rw [lettersOf_append, lettersOf_token?, List.append_assoc]
      rfl

end Field

/-- What is read from letters: tokens that have these letters, after those of the pending field. -/
theorem lettersOf_of_readTokens {field : Field} {position : Nat} {done tokens : List Token}
    {cs : List Char} (hf : field.Counted) (h : readTokens field position done cs = .ok tokens) :
    ∃ new, tokens = done.reverse ++ new ∧ (∀ token ∈ new, token.Counted) ∧
      field.letters ++ cs = lettersOf new := by
  induction cs generalizing field position done with
  | nil =>
    rw [readTokens] at h
    cases h
    refine ⟨field.token?.toList, by simp, Field.counted_token? hf, ?_⟩
    rw [List.append_nil, Field.lettersOf_token?]
  | cons c cs ih =>
    rw [readTokens] at h
    split at h
    · next first field' hread =>
      obtain ⟨letter, hletter, hstep⟩ := Option.bind_eq_some_iff.1 hread
      obtain rfl := Letter.ofChar?_eq_some.1 hletter
      obtain ⟨hf', hfirst, htext⟩ := (Field.step_of_read hstep).spec hf
      obtain ⟨new, rfl, hnew, hrest⟩ := ih hf' h
      refine ⟨first ++ new, by simp, List.forall_mem_append.2 ⟨hfirst, hnew⟩, ?_⟩
      rw [List.append_cons, htext, List.append_assoc, hrest, lettersOf_append]
    · cases h

/-- A letter that can stand is read. -/
theorem readTokens_of_step {field field' : Field} {letter : Letter} {tokens : List Token}
    (h : Field.Step field letter tokens field') (position : Nat) (done : List Token)
    (cs : List Char) :
    readTokens field position done (letter.char :: cs) =
      readTokens field' (position + 1) (tokens.reverse ++ done) cs := by
  rw [readTokens, Letter.ofChar?_char, Option.bind_some, Field.read_of_step h]

/-! ## Letters are read -/

/-- The rest of a run of one letter is counted out. -/
theorem readTokens_replicate (f : Nat → Field) (letter : Letter)
    (h : ∀ k, Field.Step (f k) letter [] (f (k + 1))) (n k position : Nat) (done : List Token)
    (cs : List Char) :
    readTokens (f k) position done (List.replicate n letter.char ++ cs) =
      readTokens (f (k + n)) (position + n) done cs := by
  induction n generalizing k position with
  | zero => rfl
  | succ n ih =>
    rw [List.replicate_succ, List.cons_append, readTokens_of_step (h k), List.reverse_nil,
      List.nil_append, ih, Nat.add_right_comm k 1 n, Nat.add_right_comm position 1 n]
    rfl

/-- A run of one letter decides by its first letter what is counted. -/
theorem readTokens_run (f : Nat → Field) (letter : Letter)
    (first : Field.Step .opened letter [] (f 1))
    (next : ∀ k, Field.Step (f k) letter [] (f (k + 1))) (n position : Nat) (done : List Token)
    (cs : List Char) :
    readTokens .opened position done (List.replicate (n + 1) letter.char ++ cs) =
      readTokens (f (n + 1)) (position + (n + 1)) done cs := by
  rw [List.replicate_succ, List.cons_append, readTokens_of_step first, List.reverse_nil,
    List.nil_append, readTokens_replicate f letter next, Nat.add_comm 1 n, Nat.add_assoc,
    Nat.add_comm 1 n]

/-- The token of a `D` and the run after it, which the reader still holds back. -/
theorem readTokens_state (n position : Nat) (done : List Token) (cs : List Char) :
    ∃ field : Field, field.token?.toList = [Token.reread (.state n)] ∧
      readTokens .opened position done (List.replicate n 'A' ++ cs) =
        readTokens field (position + n) done cs := by
  cases n with
  | zero => exact ⟨.opened, rfl, rfl⟩
  | succ n =>
    exact ⟨.states (n + 1), rfl,
      readTokens_run .states .a .firstState .nextState n position done cs⟩

theorem readTokens_symbol (n position : Nat) (done : List Token) (cs : List Char) :
    ∃ field : Field, field.token?.toList = [Token.symbol n] ∧
      readTokens .opened position done (List.replicate n 'C' ++ cs) =
        readTokens field (position + n) done cs := by
  cases n with
  | zero => exact ⟨.opened, rfl, rfl⟩
  | succ n =>
    exact ⟨.symbols (n + 1), rfl,
      readTokens_run .symbols .c .firstSymbol .nextSymbol n position done cs⟩

/-- A `D` closes the field before, and its own token comes after that. -/
theorem readTokens_number {token : Token} {c : Char} {n : Nat} {cs : List Char}
    (h : ∀ position done, ∃ field : Field, field.token?.toList = [token] ∧
      readTokens .opened position done (List.replicate n c ++ cs) =
        readTokens field (position + n) done cs)
    (field : Field) (position : Nat) (done : List Token) :
    ∃ field' done',
      done'.reverse ++ field'.token?.toList = done.reverse ++ field.token?.toList ++ [token] ∧
      readTokens field position done ('D' :: List.replicate n c ++ cs) =
        readTokens field' (position + (n + 1)) done' cs := by
  obtain ⟨field', htoken, hread⟩ := h (position + 1) (field.token?.toList.reverse ++ done)
  refine ⟨field', field.token?.toList.reverse ++ done, ?_, ?_⟩
  · rw [htoken, List.reverse_append, List.reverse_reverse]
  · have hopens := readTokens_of_step (.opens field) position done (List.replicate n c ++ cs)
    rw [Nat.add_comm n, ← Nat.add_assoc]
    exact hopens.trans hread

/-- The letters of a token are read after any field, which they close. -/
theorem readTokens_letters (token : Token) (field : Field) (position : Nat) (done : List Token)
    (cs : List Char) :
    ∃ field' done',
      done'.reverse ++ field'.token?.toList =
        done.reverse ++ field.token?.toList ++ [token.reread] ∧
      readTokens field position done (token.letters ++ cs) =
        readTokens field' (position + token.letters.length) done' cs := by
  cases token with
  | state n =>
    rw [Token.letters, List.length_cons, List.length_replicate]
    exact readTokens_number (readTokens_state n · · cs) field position done
  | symbol n =>
    rw [Token.letters, List.length_cons, List.length_replicate]
    exact readTokens_number (readTokens_symbol n · · cs) field position done
  | move m =>
    have hletters : Token.letters (.move m) = [m.toLetter.char] := by simp [Token.letters]
    refine ⟨.closed, (field.token?.toList ++ [Token.move m]).reverse ++ done, ?_, ?_⟩
    · simp [Field.token?, Token.reread]
    · rw [hletters]
      exact readTokens_of_step (.move field m) position done cs
  | close =>
    refine ⟨.closed, (field.token?.toList ++ [Token.close]).reverse ++ done, ?_, ?_⟩
    · simp [Field.token?, Token.reread]
    · exact readTokens_of_step (.close field) position done cs

theorem readTokens_lettersOf (field : Field) (position : Nat) (done tokens : List Token) :
    readTokens field position done (lettersOf tokens) =
      .ok (done.reverse ++ field.token?.toList ++ tokens.map Token.reread) := by
  induction tokens generalizing field position done with
  | nil => simp [lettersOf, readTokens]
  | cons token tokens ih =>
    obtain ⟨field', done', hdone, hread⟩ :=
      readTokens_letters token field position done (lettersOf tokens)
    rw [show lettersOf (token :: tokens) = token.letters ++ lettersOf tokens from rfl, hread, ih,
      hdone, List.append_assoc]
    rfl

/-- Letters of tokens are read as these tokens, but for states counted as zero. -/
theorem tokensOf_lettersOf (tokens : List Token) :
    tokensOf (lettersOf tokens) = .ok (tokens.map Token.reread) := by
  rw [tokensOf, readTokens_lettersOf]
  rfl

/-- Letters are read as tokens exactly if they are their letters. -/
theorem tokensOf_eq_ok {cs : List Char} {tokens : List Token} :
    tokensOf cs = .ok tokens ↔ (∀ token ∈ tokens, token.Counted) ∧ cs = lettersOf tokens := by
  constructor
  · intro h
    have hclosed : Field.Counted .closed := trivial
    obtain ⟨new, rfl, hnew, htext⟩ := lettersOf_of_readTokens hclosed h
    exact ⟨hnew, htext⟩
  · rintro ⟨hcounted, rfl⟩
    rw [tokensOf_lettersOf, map_reread_of_counted hcounted]

end QuintupleMachine
