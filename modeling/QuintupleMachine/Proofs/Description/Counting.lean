import QuintupleMachine.Proofs.Description.Language

/-! # How far a description counts

A count goes up by one with a letter, and it starts anew behind every `D`.  So while a description is
read, no count and no number of a complete token is ever greater than the number of letters so far
(`Field.Reads.bounded`).  Numbers that are too large for 64 bits would need a text that is longer
than that: what is refused after it has been brought into canonical text is refused for its layout,
never for a number (`counts_fit`). -/

namespace QuintupleMachine

/-- The number of a token, if it has one, and zero otherwise. -/
def Token.count : Token → Nat
  | state n => n
  | symbol n => n
  | _ => 0

namespace Field

/-- How far a field has been counted. -/
def count : Field → Nat
  | states n => n
  | symbols n => n
  | _ => 0

/-- `Reads field cs tokens field'`: from `field` the reader gets over `cs`, completes `tokens` on the
way and leaves `field'` pending. -/
inductive Reads : Field → List Char → List Token → Field → Prop
  | nil (field : Field) : Reads field [] [] field
  | cons {field mid field' : Field} {letter : Letter} {cs : List Char} {tokens more : List Token}
      (first : Step field letter tokens mid) (rest : Reads mid cs more field') :
      Reads field (letter.char :: cs) (tokens ++ more) field'

variable {field field' : Field} {letter : Letter} {cs : List Char} {tokens : List Token}

theorem count_token? {n : Nat} (h : field.count ≤ n) :
    ∀ token ∈ field.token?.toList, token.count ≤ n := by
  cases field with
  | closed => simp [token?]
  | opened => simp [token?, Token.count]
  | states | symbols => exact List.forall_mem_singleton.2 h

/-- A letter counts one, and completes no more than what was counted before it. -/
theorem Step.bounded {n : Nat} (h : Step field letter tokens field') (hcount : field.count ≤ n) :
    field'.count ≤ n + 1 ∧ ∀ token ∈ tokens, token.count ≤ n := by
  cases h with
  | opens => exact ⟨Nat.zero_le _, count_token? hcount⟩
  | firstState | firstSymbol => exact ⟨Nat.succ_le_succ (Nat.zero_le n), by simp⟩
  | nextState | nextSymbol => exact ⟨Nat.succ_le_succ hcount, by simp⟩
  | move | close =>
    refine ⟨Nat.zero_le _, List.forall_mem_append.2 ⟨count_token? hcount, ?_⟩⟩
    simp [Token.count]

/-- Letters count one each, whatever is read. -/
theorem Reads.bounded {n : Nat} (h : Reads field cs tokens field') (hcount : field.count ≤ n) :
    field'.count ≤ n + cs.length ∧ ∀ token ∈ tokens, token.count ≤ n + cs.length := by
  induction h generalizing n with
  | nil => exact ⟨hcount, List.forall_mem_nil _⟩
  | @cons _ _ _ _ cs _ _ first _ ih =>
    obtain ⟨hmid, htokens⟩ := first.bounded hcount
    obtain ⟨hfield, hmore⟩ := ih hmid
    rw [List.length_cons, Nat.add_comm cs.length, ← Nat.add_assoc]
    refine ⟨hfield, List.forall_mem_append.2 ⟨?_, hmore⟩⟩
    intro token htoken
    have := htokens token htoken
    omega

end Field

/-- The reader goes along with `Reads`. -/
theorem readTokens_of_reads {field field' : Field} {cs : List Char} {tokens : List Token}
    (h : field.Reads cs tokens field') (position : Nat) (done : List Token) (rest : List Char) :
    readTokens field position done (cs ++ rest) =
      readTokens field' (position + cs.length) (tokens.reverse ++ done) rest := by
  induction h generalizing position done with
  | nil => rfl
  | @cons _ _ _ _ cs _ _ first _ ih =>
    rw [List.cons_append, readTokens_of_step first, ih, List.reverse_append, List.append_assoc,
      List.length_cons, Nat.add_comm cs.length, Nat.add_assoc]

/-- A letter that cannot stand ends the reading. -/
theorem readTokens_of_read_eq_none {field : Field} {c : Char}
    (h : (Letter.ofChar? c).bind field.read = none) (position : Nat) (done : List Token)
    (cs : List Char) :
    readTokens field position done (c :: cs) = .error (field.refusal position c) := by
  rw [readTokens, h]

/-- The reader gets over a longest part of any text: the next letter, if there is one, cannot
stand. -/
theorem Field.Reads.exists_longest (field : Field) (cs : List Char) :
    ∃ front rest tokens field', cs = front ++ rest ∧ field.Reads front tokens field' ∧
      ∀ c ∈ rest.head?, (Letter.ofChar? c).bind field'.read = none := by
  induction cs generalizing field with
  | nil => exact ⟨[], [], [], field, rfl, .nil field, by simp⟩
  | cons c cs ih =>
    cases h : (Letter.ofChar? c).bind field.read with
    | none => exact ⟨[], c :: cs, [], field, rfl, .nil field, by simpa using h⟩
    | some result =>
      obtain ⟨letter, hletter, hread⟩ := Option.bind_eq_some_iff.1 h
      obtain rfl := Letter.ofChar?_eq_some.1 hletter
      obtain ⟨front, rest, tokens, field', rfl, hreads, hstop⟩ := ih result.2
      exact ⟨_, rest, _, field', rfl, .cons (step_of_read hread) hreads, hstop⟩

theorem tokensOf_of_reads {front rest : List Char} {tokens : List Token} {field : Field}
    (h : Field.Reads .closed front tokens field) :
    tokensOf (front ++ rest) = readTokens field front.length tokens.reverse rest := by
  rw [tokensOf, readTokens_of_reads h, Nat.zero_add, List.append_nil]

/-- A text is read up to its end, or up to a letter that cannot stand, which it is refused for. -/
theorem exists_reads (cs : List Char) :
    ∃ front rest tokens field, cs = front ++ rest ∧ Field.Reads .closed front tokens field ∧
      ∀ c ∈ rest.head?, tokensOf cs = .error (field.refusal front.length c) := by
  obtain ⟨front, rest, tokens, field, rfl, hreads, hstop⟩ := Field.Reads.exists_longest .closed cs
  refine ⟨front, rest, tokens, field, rfl, hreads, ?_⟩
  intro c hc
  obtain ⟨more, rfl⟩ := List.head?_eq_some_iff.1 hc
  rw [tokensOf_of_reads hreads, readTokens_of_read_eq_none (hstop c rfl)]

theorem Field.refusal_ne_tooLarge (field : Field) (position : Nat) (c : Char) (number : String) :
    field.refusal position c ≠ .tooLarge number := by
  unfold refusal
  split
  · simp
  · split <;> simp

theorem tokensOf_ne_tooLarge (cs : List Char) (number : String) :
    tokensOf cs ≠ .error (.tooLarge number) := by
  obtain ⟨front, rest, tokens, field, rfl, hreads, hstop⟩ := exists_reads cs
  cases rest with
  | nil =>
    rw [tokensOf_of_reads hreads, readTokens]
    simp
  | cons c rest =>
    rw [hstop c rfl]
    exact fun h => field.refusal_ne_tooLarge front.length c number (Except.error.inj h)

namespace Description

variable {letters text : String}

theorem decode_of_canonical (h : canonical letters = .ok text) :
    decode letters = Canonical.parse text := by
  rw [decode, read, h]
  rfl

/-- The numbers in the canonical text of a description are the lengths of its runs, so the text
stands for a table if it is in the grammar at all. -/
theorem exists_parse_of_grammatical (hlength : letters.length ≤ Number.greatest)
    (h : canonical letters = .ok text) (hgrammar : Canonical.Grammatical text.toList) :
    ∃ table, Canonical.parse text = .ok table := by
  rw [canonical] at h
  cases htokens : tokensOf letters.toList with
  | error e =>
    rw [htokens] at h
    cases h
  | ok tokens =>
    rw [htokens] at h
    cases h
    obtain ⟨records, hwritten⟩ := hgrammar
    rw [String.toList_ofList] at hwritten
    obtain ⟨runs, hruns, -⟩ := runs_of_written hwritten
    have hletters := letters_of_tokens hruns
    rw [← (tokensOf_eq_ok.1 htokens).2] at hletters
    exact ⟨_, parse_canonicalOf hruns (fits_of_letters hlength hletters)⟩

theorem not_grammatical_of_decode (hlength : letters.length ≤ Number.greatest)
    (h : canonical letters = .ok text) {e : DescriptionError} (he : decode letters = .error e) :
    ¬ Canonical.Grammatical text.toList := by
  intro hgrammar
  obtain ⟨table, htable⟩ := exists_parse_of_grammatical hlength h hgrammar
  rw [decode_of_canonical h, htable] at he
  cases he

/-- What is refused after it has been brought into canonical text is refused for its layout. -/
theorem malformed_of_decode (hlength : letters.length ≤ Number.greatest)
    (h : canonical letters = .ok text) {e : DescriptionError} (he : decode letters = .error e) :
    ∃ offset expected, e = .malformed offset text expected := by
  obtain ⟨offset, expected, hparse⟩ :=
    Canonical.parse_of_not_grammatical (not_grammatical_of_decode hlength h he)
  rw [decode_of_canonical h, hparse] at he
  exact ⟨offset, expected, (Except.error.inj he).symm⟩

theorem decode_ne_tooLarge (hlength : letters.length ≤ Number.greatest) (number : String) :
    decode letters ≠ .error (.tooLarge number) := by
  intro h
  cases hcanonical : canonical letters with
  | error e =>
    rw [decode, read, hcanonical] at h
    rw [canonical] at hcanonical
    cases htokens : tokensOf letters.toList with
    | error e' =>
      rw [htokens] at hcanonical
      cases hcanonical
      cases h
      exact tokensOf_ne_tooLarge _ number htokens
    | ok tokens =>
      rw [htokens] at hcanonical
      cases hcanonical
  | ok text =>
    obtain ⟨offset, expected, he⟩ := malformed_of_decode hlength hcanonical h
    cases he

/-- Let a text have fewer than 2^64 characters.  It is read letter by letter, up to its end or to the
letter that it is refused for, and on the way no count is ever above the greatest number of 64 bits,
pending or complete.  The text is never refused for a number that is too large; if it has canonical
text and is refused, then that text is not in the grammar, and the error says where. -/
theorem counts_fit (letters : String) (hlength : letters.length ≤ Number.greatest) :
    (∃ front rest tokens field, letters.toList = front ++ rest ∧
      Field.Reads .closed front tokens field ∧
      ∀ c ∈ rest.head?, tokensOf letters.toList = .error (field.refusal front.length c)) ∧
    (∀ front rest tokens field, letters.toList = front ++ rest →
      Field.Reads .closed front tokens field →
      tokensOf letters.toList = readTokens field front.length tokens.reverse rest ∧
      field.count ≤ Number.greatest ∧ ∀ token ∈ tokens, token.count ≤ Number.greatest) ∧
    (∀ number, decode letters ≠ .error (.tooLarge number)) ∧
    ∀ text e, canonical letters = .ok text → decode letters = .error e →
      ¬ Canonical.Grammatical text.toList ∧ ∃ offset expected, e = .malformed offset text expected := by
  refine ⟨exists_reads _, ?_, decode_ne_tooLarge hlength, ?_⟩
  · intro front rest tokens field htext hreads
    have hfront : 0 + front.length ≤ Number.greatest := by
      rw [← String.length_toList, htext, List.length_append] at hlength
      omega
    obtain ⟨hfield, htokens⟩ := hreads.bounded (Nat.le_refl 0)
    rw [htext]
    exact ⟨tokensOf_of_reads hreads, hfield.trans hfront,
      fun token htoken => (htokens token htoken).trans hfront⟩
  · intro text e hcanonical he
    exact ⟨not_grammatical_of_decode hlength hcanonical he,
      malformed_of_decode hlength hcanonical he⟩

/-- A text with canonical text outside the grammar, after the third `A` of its first run. -/
theorem counts_fit_run :
    "DAAADA;".length ≤ Number.greatest ∧
    tokensOf "DAAADA;".toList = readTokens (.states 3) 4 [] ['D', 'A', ';'] ∧
    Field.count (.states 3) ≤ Number.greatest ∧
    canonical "DAAADA;" = .ok "q3q1;" ∧
    ∃ offset expected, decode "DAAADA;" = .error (.malformed offset "q3q1;" expected) := by
  have hlength : "DAAADA;".length ≤ Number.greatest := by decide
  have hcanonical : canonical "DAAADA;" = .ok "q3q1;" := rfl
  have hreads : Field.Reads .closed ['D', 'A', 'A', 'A'] [] (.states 3) :=
    .cons (.opens .closed) (.cons .firstState (.cons (.nextState 1) (.cons (.nextState 2) (.nil _))))
  obtain ⟨-, hcounts, -, hlayout⟩ := counts_fit "DAAADA;" hlength
  obtain ⟨hread, hcount, -⟩ := hcounts _ ['D', 'A', ';'] _ _ rfl hreads
  obtain ⟨e, he⟩ : ∃ e, decode "DAAADA;" = .error e := ⟨_, rfl⟩
  obtain ⟨-, offset, expected, rfl⟩ := hlayout _ e hcanonical he
  exact ⟨hlength, hread, hcount, hcanonical, offset, expected, he⟩

end Description

end QuintupleMachine
