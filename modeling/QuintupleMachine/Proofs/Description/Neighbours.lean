import Mathlib.Data.List.Induction
import QuintupleMachine.Description.Basic
import QuintupleMachine.Proofs.Description.Tokens

/-! # Neighbours in a description

Whether a character of a description can stand where it does is decided by the character before it:
an `A` needs a `D` or an `A` there, a `C` needs a `D` or a `C`, and the other letters need nothing.
A description is refused at the first character that cannot stand, and the error says no more than
these two characters and the position (`neighbours_decide`).

The reader keeps a field with a count, and this is why the character before is enough: it is what
tells the kinds of fields apart (`Field.After`), and no count is ever asked for. -/

namespace QuintupleMachine

namespace Description

/-- The characters of a description. -/
def alphabet : List Char := ['A', 'C', 'D', 'L', 'R', 'N', ';']

/-- `Follows before c`: the character `c` can stand after the character `before`, or at the
beginning if there is none. -/
structure Follows (before : Option Char) (c : Char) : Prop where
  mem : c ∈ alphabet
  state : c = 'A' → before = some 'D' ∨ before = some 'A'
  symbol : c = 'C' → before = some 'D' ∨ before = some 'C'

/-- Every character can stand after the one before it. -/
def Legal (cs : List Char) : Prop :=
  ∀ front c rest, cs = front ++ c :: rest → Follows front.getLast? c

/-- No field is open at the beginning and after `L`, `R`, `N` and `;`. -/
def Closes (before : Option Char) : Prop :=
  before = none ∨ before = some 'L' ∨ before = some 'R' ∨ before = some 'N' ∨ before = some ';'

/-- What is going on after a character, in words. -/
def wordsAfter : Option Char → String
  | some 'D' => "a field is open"
  | some 'A' => "counting a state number"
  | some 'C' => "counting a symbol number"
  | _ => "no field is open"

/-- `Refused before p c e`: the error `e` is the one for the character `c` at position `p`, which
cannot stand after `before`. -/
inductive Refused (before : Option Char) (p : Nat) : Char → DescriptionError → Prop
  | orphanState (h : Closes before) : Refused before p 'A' (.orphanState p)
  | orphanSymbol (h : Closes before) : Refused before p 'C' (.orphanSymbol p)
  | unexpected {c : Char} {situation : Situation}
      (hc : c = 'A' ∧ before = some 'C' ∨ c = 'C' ∧ before = some 'A' ∨ c ∉ alphabet)
      (hs : situation.text = wordsAfter before) : Refused before p c (.unexpected c p situation)

theorem mem_alphabet {c : Char} : c ∈ alphabet ↔ ∃ letter : Letter, c = letter.char := by
  constructor
  · intro h
    simp only [alphabet, List.mem_cons, List.not_mem_nil, or_false] at h
    rcases h with rfl | rfl | rfl | rfl | rfl | rfl | rfl
    · exact ⟨.a, rfl⟩
    · exact ⟨.c, rfl⟩
    · exact ⟨.d, rfl⟩
    · exact ⟨.l, rfl⟩
    · exact ⟨.r, rfl⟩
    · exact ⟨.n, rfl⟩
    · exact ⟨.semicolon, rfl⟩
  · rintro ⟨letter, rfl⟩
    cases letter <;> decide

/-! ## Legal texts -/

theorem legal_nil : Legal [] := by
  intro front c rest h
  simp at h

theorem Legal.front {front rest : List Char} (h : Legal (front ++ rest)) : Legal front := by
  rintro more c back rfl
  exact h more c (back ++ rest) (by simp)

theorem legal_concat {cs : List Char} {c : Char} :
    Legal (cs ++ [c]) ↔ Legal cs ∧ Follows cs.getLast? c := by
  constructor
  · intro h
    exact ⟨h.front, h cs c [] rfl⟩
  · rintro ⟨hcs, hc⟩ front d rest heq
    -- `d` is the last character, or it stands in `cs` already
    rcases List.eq_nil_or_concat rest with rfl | ⟨rest, e, rfl⟩
    · obtain ⟨rfl, hcd⟩ := List.append_inj' heq rfl
      cases hcd
      exact hc
    · rw [List.concat_eq_append, ← List.cons_append, ← List.append_assoc] at heq
      exact hcs front d rest (List.append_inj' heq rfl).1

/-- A text that is not legal has a first character that cannot stand. -/
theorem exists_first {cs : List Char} (h : ¬ Legal cs) :
    ∃ front c rest, cs = front ++ c :: rest ∧ Legal front ∧ ¬ Follows front.getLast? c := by
  induction cs using List.reverseRecOn with
  | nil => exact absurd legal_nil h
  | append_singleton cs c ih =>
    by_cases hcs : Legal cs
    · exact ⟨cs, c, [], rfl, hcs, fun hc => h (legal_concat.2 ⟨hcs, hc⟩)⟩
    · obtain ⟨front, d, rest, rfl, hfront, hd⟩ := ih hcs
      exact ⟨front, d, rest ++ [c], by simp, hfront, hd⟩

end Description

open Description

/-! ## The field after a character -/

namespace Field

/-- `After before field`: the last character `before` leaves a field of the kind of `field`. -/
inductive After : Option Char → Field → Prop
  | closed {before : Option Char} (h : Closes before) : After before closed
  | opened : After (some 'D') opened
  | states (n : Nat) : After (some 'A') (states n)
  | symbols (n : Nat) : After (some 'C') (symbols n)

variable {before : Option Char} {field field' : Field} {letter : Letter} {tokens : List Token}

theorem After.eq_opened (h : After (some 'D') field) : field = .opened := by
  cases h with
  | closed h => simp [Closes] at h
  | opened => rfl

theorem After.eq_states (h : After (some 'A') field) : ∃ n, field = .states n := by
  cases h with
  | closed h => simp [Closes] at h
  | states n => exact ⟨n, rfl⟩

theorem After.eq_symbols (h : After (some 'C') field) : ∃ n, field = .symbols n := by
  cases h with
  | closed h => simp [Closes] at h
  | symbols n => exact ⟨n, rfl⟩

/-- The letter alone tells what kind of field it leaves. -/
theorem Step.after (h : Step field letter tokens field') : After (some letter.char) field' := by
  cases h with
  | opens => exact .opened
  | firstState => exact .states 1
  | nextState n => exact .states (n + 1)
  | firstSymbol => exact .symbols 1
  | nextSymbol n => exact .symbols (n + 1)
  | move _ m => cases m <;> exact .closed (by simp [Closes, Direction.toLetter, Letter.char])
  | close => exact .closed (by simp [Closes, Letter.char])

/-- A letter that is read can stand after the last character. -/
theorem Step.follows (h : Step field letter tokens field') (hfield : After before field) :
    Follows before letter.char := by
  refine ⟨mem_alphabet.2 ⟨letter, rfl⟩, ?_, ?_⟩
  · intro hletter
    cases h with
    | firstState => cases hfield; exact .inl rfl
    | nextState => cases hfield; exact .inr rfl
    | move _ m => cases m <;> cases hletter
    | opens | firstSymbol | nextSymbol | close => cases hletter
  · intro hletter
    cases h with
    | firstSymbol => cases hfield; exact .inl rfl
    | nextSymbol => cases hfield; exact .inr rfl
    | move _ m => cases m <;> cases hletter
    | opens | firstState | nextState | close => cases hletter

/-- A character that can stand after the last one is read. -/
theorem exists_step {c : Char} (hfield : After before field) (h : Follows before c) :
    ∃ letter tokens field', c = letter.char ∧ Step field letter tokens field' := by
  obtain ⟨letter, rfl⟩ := mem_alphabet.1 h.mem
  cases letter with
  | a =>
    rcases h.state rfl with rfl | rfl
    · obtain rfl := hfield.eq_opened
      exact ⟨.a, _, _, rfl, .firstState⟩
    · obtain ⟨n, rfl⟩ := hfield.eq_states
      exact ⟨.a, _, _, rfl, .nextState n⟩
  | c =>
    rcases h.symbol rfl with rfl | rfl
    · obtain rfl := hfield.eq_opened
      exact ⟨.c, _, _, rfl, .firstSymbol⟩
    · obtain ⟨n, rfl⟩ := hfield.eq_symbols
      exact ⟨.c, _, _, rfl, .nextSymbol n⟩
  | d => exact ⟨.d, _, _, rfl, .opens field⟩
  | l => exact ⟨.l, _, _, rfl, .move field .left⟩
  | r => exact ⟨.r, _, _, rfl, .move field .right⟩
  | n => exact ⟨.n, _, _, rfl, .move field .stay⟩
  | semicolon => exact ⟨.semicolon, _, _, rfl, .close field⟩

theorem After.text_situation (h : After before field) :
    field.situation.text = wordsAfter before := by
  cases h with
  | closed h => rcases h with rfl | rfl | rfl | rfl | rfl <;> rfl
  | opened | states n | symbols n => rfl

/-- An `A` or a `C` that cannot stand while a field is open stands in a run of the other letter. -/
theorem After.misplaced {c : Char} (hfield : After before field) (h : ¬ Follows before c)
    (hA : ¬ (field = .closed ∧ c = 'A')) (hC : ¬ (field = .closed ∧ c = 'C')) :
    c = 'A' ∧ before = some 'C' ∨ c = 'C' ∧ before = some 'A' ∨ c ∉ alphabet := by
  by_cases hmem : c ∈ alphabet
  · cases hfield with
    | closed => exact absurd ⟨hmem, fun hc => absurd ⟨rfl, hc⟩ hA, fun hc => absurd ⟨rfl, hc⟩ hC⟩ h
    | opened => exact absurd ⟨hmem, fun _ => .inl rfl, fun _ => .inl rfl⟩ h
    | states n =>
      by_cases hc : c = 'C'
      · exact .inr (.inl ⟨hc, rfl⟩)
      · exact absurd ⟨hmem, fun _ => .inr rfl, fun hc' => absurd hc' hc⟩ h
    | symbols n =>
      by_cases hc : c = 'A'
      · exact .inl ⟨hc, rfl⟩
      · exact absurd ⟨hmem, fun hc' => absurd hc' hc, fun _ => .inr rfl⟩ h
  · exact .inr (.inr hmem)

/-- Why a character that cannot stand after the last one is not read. -/
theorem After.refused {c : Char} (hfield : After before field) (h : ¬ Follows before c)
    (position : Nat) : Refused before position c (field.refusal position c) := by
  unfold refusal
  split
  · next hA =>
    obtain ⟨rfl, rfl⟩ := hA
    cases hfield with
    | closed hbefore => exact .orphanState hbefore
  · next hA =>
    split
    · next hC =>
      obtain ⟨rfl, rfl⟩ := hC
      cases hfield with
      | closed hbefore => exact .orphanSymbol hbefore
    · next hC => exact .unexpected (hfield.misplaced h hA hC) hfield.text_situation

end Field

/-! ## Reading by neighbours -/

variable {front : List Char} {c : Char}

/-- After a legal beginning the reader goes on from a field of the kind that its last character
tells. -/
theorem readTokens_of_legal (h : Legal front) :
    ∃ field done, Field.After front.getLast? field ∧
      ∀ more, tokensOf (front ++ more) = readTokens field front.length done more := by
  -- from the front to its last character: that one alone fixes the kind of the field
  induction front using List.reverseRecOn with
  | nil => exact ⟨.closed, [], .closed (.inl rfl), fun _ => rfl⟩
  | append_singleton front c ih =>
    obtain ⟨hfront, hc⟩ := legal_concat.1 h
    obtain ⟨field, done, hfield, hread⟩ := ih hfront
    obtain ⟨letter, tokens, field', rfl, hstep⟩ := Field.exists_step hfield hc
    refine ⟨field', tokens.reverse ++ done, ?_, ?_⟩
    · rw [List.getLast?_concat]
      exact hstep.after
    · intro more
      rw [List.append_assoc, List.singleton_append, hread, readTokens_of_step hstep,
        List.length_append, List.length_singleton]

theorem tokensOf_of_legal (h : Legal front) : ∃ tokens, tokensOf front = .ok tokens := by
  obtain ⟨field, done, -, hread⟩ := readTokens_of_legal h
  rw [← List.append_nil front, hread]
  exact ⟨_, rfl⟩

/-- Behind a legal beginning the first character that cannot stand is where reading ends, whatever
comes after it. -/
theorem tokensOf_of_not_follows (h : Legal front) (hc : ¬ Follows front.getLast? c) :
    ∃ e, Refused front.getLast? front.length c e ∧
      ∀ more, tokensOf (front ++ c :: more) = .error e := by
  obtain ⟨field, done, hfield, hread⟩ := readTokens_of_legal h
  refine ⟨_, hfield.refused hc front.length, ?_⟩
  intro more
  have hnone : (Letter.ofChar? c).bind field.read = none := by
    rw [Option.bind_eq_none_iff]
    intro letter hletter
    rw [Letter.ofChar?_eq_some] at hletter
    rw [Option.eq_none_iff_forall_ne_some]
    rintro ⟨tokens, field'⟩ hstep
    exact hc (hletter ▸ (Field.step_of_read hstep).follows hfield)
  rw [hread, readTokens, hnone]

namespace Description

theorem canonical_of_legal {letters : String} (h : Legal letters.toList) :
    ∃ text, canonical letters = .ok text := by
  obtain ⟨tokens, htokens⟩ := tokensOf_of_legal h
  rw [canonical, htokens]
  exact ⟨_, rfl⟩

theorem canonical_of_not_follows (h : Legal front) (hc : ¬ Follows front.getLast? c) :
    ∃ e, Refused front.getLast? front.length c e ∧
      ∀ more, canonical (String.ofList (front ++ c :: more)) = .error e := by
  obtain ⟨e, he, hread⟩ := tokensOf_of_not_follows h hc
  refine ⟨e, he, ?_⟩
  intro more
  rw [canonical, String.toList_ofList, hread]
  rfl

/-- A text that is not legal is refused at its first character that cannot stand. -/
theorem exists_refused {letters : String} (h : ¬ Legal letters.toList) :
    ∃ front c rest e, letters.toList = front ++ c :: rest ∧ Legal front ∧
      ¬ Follows front.getLast? c ∧ Refused front.getLast? front.length c e ∧
      canonical letters = .error e ∧
      ∀ more, canonical (String.ofList (front ++ c :: more)) = .error e := by
  obtain ⟨front, c, rest, htext, hfront, hc⟩ := exists_first h
  obtain ⟨e, he, hread⟩ := canonical_of_not_follows hfront hc
  refine ⟨front, c, rest, e, htext, hfront, hc, he, ?_, hread⟩
  rw [← String.ofList_toList (s := letters), htext]
  exact hread rest

theorem legal_of_canonical {letters text : String} (h : canonical letters = .ok text) :
    Legal letters.toList := by
  by_contra hno
  obtain ⟨-, -, -, e, -, -, -, -, he, -⟩ := exists_refused hno
  rw [h] at he
  cases he

/-- A text is accepted exactly if every character can stand after the one before it; then each
beginning of it is accepted as well.  Any other text is refused at its first character that cannot
stand, for a reason that this character and the one before it give, whatever comes behind. -/
theorem neighbours_decide (letters : String) :
    ((∃ text, canonical letters = .ok text) ↔ Legal letters.toList) ∧
    (¬ Legal letters.toList →
      ∃ front c rest e, letters.toList = front ++ c :: rest ∧ Legal front ∧
        ¬ Follows front.getLast? c ∧ Refused front.getLast? front.length c e ∧
        canonical letters = .error e ∧
        ∀ more, canonical (String.ofList (front ++ c :: more)) = .error e) ∧
    ∀ front rest, letters.toList = front ++ rest → (∃ text, canonical letters = .ok text) →
      ∃ text, canonical (String.ofList front) = .ok text := by
  refine ⟨⟨?_, canonical_of_legal⟩, exists_refused, ?_⟩
  · rintro ⟨text, h⟩
    exact legal_of_canonical h
  · rintro front rest htext ⟨text, h⟩
    have hlegal := legal_of_canonical h
    rw [htext] at hlegal
    apply canonical_of_legal
    rw [String.toList_ofList]
    exact hlegal.front

/-- A `C` in a run of `A`s: behind it the text may go on as it likes. -/
theorem neighbours_decide_mixed :
    ¬ Legal "DAC".toList ∧
      ∀ more, canonical (String.ofList ('D' :: 'A' :: 'C' :: more)) =
        .error (.unexpected 'C' 2 .countingState) := by
  have hD : Follows none 'D' := ⟨by decide, by decide, by decide⟩
  have hA : Follows (some 'D') 'A' := ⟨by decide, by decide, by decide⟩
  have hC : ¬ Follows (some 'A') 'C' := fun h => by simpa using h.symbol rfl
  have hno : ¬ Legal "DAC".toList := fun h => hC (h ['D', 'A'] 'C' [] rfl)
  refine ⟨hno, ?_⟩
  obtain ⟨front, c, rest, e, htext, -, hfollows, he, -, hread⟩ := (neighbours_decide "DAC").2.1 hno
  obtain ⟨rfl, rfl⟩ : front = ['D', 'A'] ∧ c = 'C' := by
    change ['D', 'A', 'C'] = _ at htext
    match front with
    | [] => cases htext; exact absurd hD hfollows
    | [_] => cases htext; exact absurd hA hfollows
    | [_, _] => cases htext; exact ⟨rfl, rfl⟩
    | _ :: _ :: _ :: front => simp at htext
  cases he with
  | orphanSymbol h => simp [Closes] at h
  | @unexpected _ situation _ hs =>
    obtain rfl : situation = .countingState := by
      cases situation <;> simp [Situation.text, wordsAfter] at hs ⊢
    exact hread

end Description

end QuintupleMachine
