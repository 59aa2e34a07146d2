import QuintupleMachine.Spelling
import QuintupleMachine.Token

/-! # Spellings of letters

The conversions never fail, so only texts within a spelling survive them.  Letters do: from each
spelling of a list of letters every conversion leads to another spelling of the same list. -/

namespace QuintupleMachine

namespace Spelling

/-- A conversion that takes one spelling of each letter to another does so for texts. -/
theorem ofList_map_map {convert : Char → Char} {spell spell' : Letter → Char}
    (h : ∀ letter, convert (spell letter) = spell' letter) (ls : List Letter) :
    String.ofList ((String.ofList (ls.map spell)).toList.map convert) =
      String.ofList (ls.map spell') := by
  rw [String.toList_ofList, List.map_map]
  exact congrArg String.ofList (List.map_congr_left fun letter _ => h letter)

variable (ls : List Letter)

@[simp] theorem lettersToNumber_char :
    lettersToNumber (String.ofList (ls.map Letter.char)) = String.ofList (ls.map Letter.digit) :=
  ofList_map_map letterToDigit_char ls

@[simp] theorem numberToLetters_digit :
    numberToLetters (String.ofList (ls.map Letter.digit)) = String.ofList (ls.map Letter.char) :=
  ofList_map_map digitToLetter_digit ls

@[simp] theorem numberToBase7_digit :
    numberToBase7 (String.ofList (ls.map Letter.digit)) = String.ofList (ls.map Letter.base7) :=
  ofList_map_map digitToBase7_digit ls

@[simp] theorem base7ToNumber_base7 :
    base7ToNumber (String.ofList (ls.map Letter.base7)) = String.ofList (ls.map Letter.digit) :=
  ofList_map_map base7ToDigit_base7 ls

end Spelling

/-! ## Letters of tokens -/

/-- The letter of a move. -/
def Direction.toLetter : Direction → Letter
  | left => .l
  | right => .r
  | stay => .n

@[simp] theorem Direction.char_toLetter (m : Direction) : m.toLetter.char = m.letter := by
  cases m <;> rfl

theorem Token.exists_letters (token : Token) :
    ∃ ls : List Letter, token.letters = ls.map Letter.char := by
  cases token with
  | state n => exact ⟨.d :: List.replicate n .a, by rw [List.map_cons, List.map_replicate]; rfl⟩
  | symbol n => exact ⟨.d :: List.replicate n .c, by rw [List.map_cons, List.map_replicate]; rfl⟩
  | move m => exact ⟨[m.toLetter], by simp [letters]⟩
  | close => exact ⟨[.semicolon], rfl⟩

/-- Tokens are written in letters and nothing else. -/
theorem exists_letters_lettersOf (tokens : List Token) :
    ∃ ls : List Letter, lettersOf tokens = ls.map Letter.char := by
  induction tokens with
  | nil => exact ⟨[], rfl⟩
  | cons token tokens ih =>
    obtain ⟨first, hfirst⟩ := token.exists_letters
    obtain ⟨rest, hrest⟩ := ih
    refine ⟨first ++ rest, ?_⟩
    rw [List.map_append, ← hfirst, ← hrest]
    rfl

end QuintupleMachine
