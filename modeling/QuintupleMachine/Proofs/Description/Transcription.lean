import Mathlib.Data.List.Forall2
import QuintupleMachine.Description.Basic
import QuintupleMachine.Proofs.Description.Runs

/-! # Canonical text as a transcription

Canonical text is a description token by token: `D` with a run of `A`s becomes `q` and a number that
is not zero, `D` with a run of `C`s becomes `S` and a number, and the other letters stay.  Nothing
marks where a number ends, but no token starts with a digit and no number with a superfluous zero.
So tokens can be told from their canonical text (`canonicalOf_injective`), and descriptions as well
(`canonical_eq_ok`). -/

namespace QuintupleMachine

open Number

namespace Token

/-- What stands for a token in canonical text: `q[1-9][0-9]*` for a state, `S(0|[1-9][0-9]*)` for a
symbol, and a letter for itself. -/
inductive WrittenAs : Token → List Char → Prop
  | state {ds : List Char} (h : StateNumeral ds) : WrittenAs (.state (value ds)) ('q' :: ds)
  | symbol {ds : List Char} (h : PlainNumeral ds) : WrittenAs (.symbol (value ds)) ('S' :: ds)
  | move (m : Direction) : WrittenAs (.move m) [m.letter]
  | close : WrittenAs .close [';']

/-- A token is written in one way only, and a state counted as zero in none. -/
theorem writtenAs_iff {token : Token} {piece : List Char} :
    token.WrittenAs piece ↔ token.Counted ∧ token.canonical = piece := by
  constructor
  · intro h
    cases h with
    | state h =>
      have hdigits := digits_value h
      refine ⟨?_, congrArg ('q' :: ·) hdigits⟩
      rw [← hdigits] at h
      exact stateNumeral_digits.1 h
    | symbol h => exact ⟨trivial, congrArg ('S' :: ·) (digits_value_of_plain h)⟩
    | move m => exact ⟨trivial, rfl⟩
    | close => exact ⟨trivial, rfl⟩
  · rintro ⟨hcounted, rfl⟩
    cases token with
    | state n =>
      have h : WrittenAs (.state (value (digits n))) ('q' :: digits n) :=
        .state (stateNumeral_digits.2 hcounted)
      rwa [value_digits] at h
    | symbol n =>
      have h : WrittenAs (.symbol (value (digits n))) ('S' :: digits n) :=
        .symbol (plainNumeral_digits n)
      rwa [value_digits] at h
    | move m => exact .move m
    | close => exact .close

end Token

section

variable {tokens : List Token} {pieces : List (List Char)}

/-- Tokens are written one after the other, each in its way. -/
theorem forall₂_writtenAs_iff :
    List.Forall₂ Token.WrittenAs tokens pieces ↔
      (∀ token ∈ tokens, token.Counted) ∧ tokens.map Token.canonical = pieces := by
  induction tokens generalizing pieces with
  | nil =>
    rw [List.forall₂_nil_left_iff]
    simp [eq_comm]
  | cons token tokens ih =>
    rw [List.forall₂_cons_left_iff, List.forall_mem_cons, List.map_cons]
    constructor
    · rintro ⟨piece, more, hpiece, hmore, rfl⟩
      obtain ⟨hcounted, rfl⟩ := Token.writtenAs_iff.1 hpiece
      obtain ⟨hall, rfl⟩ := ih.1 hmore
      exact ⟨⟨hcounted, hall⟩, rfl⟩
    · rintro ⟨⟨hcounted, hall⟩, rfl⟩
      exact ⟨_, _, Token.writtenAs_iff.2 ⟨hcounted, rfl⟩, ih.2 ⟨hall, rfl⟩, rfl⟩

/-- Canonical text is the text of counted tokens exactly if it can be cut into tokens so written. -/
theorem exists_pieces_iff {cs : List Char} :
    (∃ pieces, List.Forall₂ Token.WrittenAs tokens pieces ∧ cs = pieces.flatten) ↔
      (∀ token ∈ tokens, token.Counted) ∧ cs = canonicalOf tokens := by
  simp only [forall₂_writtenAs_iff, canonicalOf, List.flatMap_def]
  constructor
  · rintro ⟨pieces, ⟨hcounted, rfl⟩, htext⟩
    exact ⟨hcounted, htext⟩
  · rintro ⟨hcounted, htext⟩
    exact ⟨_, ⟨hcounted, rfl⟩, htext⟩

end

/-- Different tokens have different canonical text. -/
theorem canonicalOf_injective : Function.Injective canonicalOf := by
  intro tokens
  induction tokens with
  | nil =>
    intro more h
    exact (canonicalOf_eq_nil.1 h.symm).symm
  | cons token tokens ih =>
    intro more h
    have hrest : NoDigit (canonicalOf tokens) := noDigit_canonicalOf tokens
    cases token with
    | state n =>
      obtain ⟨k, more, rfl, hk, hmore⟩ := cut_state (numeral_digits n).2 hrest h.symm
      rw [digits_injective hk, ih hmore.symm]
    | symbol n =>
      obtain ⟨k, more, rfl, hk, hmore⟩ := cut_symbol (numeral_digits n).2 hrest h.symm
      rw [digits_injective hk, ih hmore.symm]
    | move m =>
      obtain ⟨more, rfl, hmore⟩ := cut_move hrest h.symm
      rw [ih hmore.symm]
    | close =>
      obtain ⟨more, rfl, hmore⟩ := cut_close hrest h.symm
      rw [ih hmore.symm]

namespace Description

variable {letters text : String}

/-- The canonical text of a description is that of the tokens whose letters it is. -/
theorem canonical_eq_ok :
    canonical letters = .ok text ↔ ∃ tokens : List Token, (∀ token ∈ tokens, token.Counted) ∧
      letters.toList = lettersOf tokens ∧ text.toList = canonicalOf tokens := by
  constructor
  · intro h
    rw [canonical] at h
    cases htokens : tokensOf letters.toList with
    | error e =>
      rw [htokens] at h
      cases h
    | ok tokens =>
      rw [htokens] at h
      cases h
      obtain ⟨hcounted, hletters⟩ := tokensOf_eq_ok.1 htokens
      exact ⟨tokens, hcounted, hletters, String.toList_ofList⟩
  · rintro ⟨tokens, hcounted, hletters, htext⟩
    rw [canonical, tokensOf_eq_ok.2 ⟨hcounted, hletters⟩, ← String.ofList_toList (s := text), htext]
    rfl

/-- No two descriptions have the same canonical text. -/
theorem eq_of_canonical {letters' : String} (h : canonical letters = .ok text)
    (h' : canonical letters' = .ok text) : letters = letters' := by
  obtain ⟨tokens, -, hletters, htext⟩ := canonical_eq_ok.1 h
  obtain ⟨tokens', -, hletters', htext'⟩ := canonical_eq_ok.1 h'
  have htokens : tokens = tokens' := canonicalOf_injective (htext.symm.trans htext')
  apply String.toList_injective
  rw [hletters, hletters', htokens]

/-- Bringing a description into canonical text loses nothing: no two descriptions have the same
canonical text.  A text is canonical exactly if it is made of tokens `q` with a number that is not
zero, `S` with a number, moves and `;`, where numbers have no leading zeros; and its description is
made of the letters of these tokens. -/
theorem canonical_spec :
    (∀ letters letters' text, canonical letters = .ok text → canonical letters' = .ok text →
      letters = letters') ∧
    (∀ text, (∃ letters, canonical letters = .ok text) ↔
      ∃ tokens pieces, List.Forall₂ Token.WrittenAs tokens pieces ∧
        text.toList = pieces.flatten) ∧
    ∀ letters text, canonical letters = .ok text ↔
      ∃ tokens pieces, List.Forall₂ Token.WrittenAs tokens pieces ∧
        text.toList = pieces.flatten ∧ letters.toList = lettersOf tokens := by
  have hspec : ∀ letters text, canonical letters = .ok text ↔
      ∃ tokens pieces, List.Forall₂ Token.WrittenAs tokens pieces ∧
        text.toList = pieces.flatten ∧ letters.toList = lettersOf tokens := by
    intro letters text
    rw [canonical_eq_ok]
    constructor
    · rintro ⟨tokens, hcounted, hletters, htext⟩
      obtain ⟨pieces, hpieces, hflatten⟩ := exists_pieces_iff.2 ⟨hcounted, htext⟩
      exact ⟨tokens, pieces, hpieces, hflatten, hletters⟩
    · rintro ⟨tokens, pieces, hpieces, hflatten, hletters⟩
      obtain ⟨hcounted, htext⟩ := exists_pieces_iff.1 ⟨pieces, hpieces, hflatten⟩
      exact ⟨tokens, hcounted, hletters, htext⟩
  refine ⟨fun _ _ _ => eq_of_canonical, ?_, hspec⟩
  intro text
  constructor
  · rintro ⟨letters, h⟩
    obtain ⟨tokens, pieces, hpieces, hflatten, -⟩ := (hspec letters text).1 h
    exact ⟨tokens, pieces, hpieces, hflatten⟩
  · rintro ⟨tokens, pieces, hpieces, hflatten⟩
    refine ⟨String.ofList (lettersOf tokens), (hspec _ text).2 ?_⟩
    exact ⟨tokens, pieces, hpieces, hflatten, String.toList_ofList⟩

/-- A state number of two digits, and two symbols, of which the first is not counted. -/
theorem canonical_spec_digits : ∃! letters, canonical letters = .ok "q12S0S1L" := by
  have hpieces : List.Forall₂ Token.WrittenAs [.state 12, .symbol 0, .symbol 1, .move .left]
      [['q', '1', '2'], ['S', '0'], ['S', '1'], ['L']] :=
    forall₂_writtenAs_iff.2 ⟨by simp [Token.Counted], rfl⟩
  have hcanonical : canonical "DAAAAAAAAAAAADDCL" = .ok "q12S0S1L" :=
    (canonical_spec.2.2 _ _).2 ⟨_, _, hpieces, rfl, rfl⟩
  refine ⟨"DAAAAAAAAAAAADDCL", hcanonical, ?_⟩
  intro letters h
  exact canonical_spec.1 letters _ _ h hcanonical

end Description

end QuintupleMachine
