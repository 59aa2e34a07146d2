import QuintupleMachine.Letter

/-! # The three spellings of a description

A description can be written in letters, as a machine number over `1`-`7`, or in base 7 over
`0`-`6`.  Conversion goes character by character and never fails: a character outside the spelling
it is read in becomes `0`, or `N` where letters are written. -/

namespace QuintupleMachine

namespace Spelling

/-- The base 7 digit for a digit of a machine number. -/
def digitToBase7 (x : Char) : Char := ((Letter.ofDigit? x).map Letter.base7).getD '0'

/-- The digit of a machine number for a base 7 digit. -/
def base7ToDigit (x : Char) : Char := ((Letter.ofBase7? x).map Letter.digit).getD '0'

/-- The letter for a digit of a machine number. -/
def digitToLetter (x : Char) : Char := ((Letter.ofDigit? x).map Letter.char).getD 'N'

/-- The digit of a machine number for a letter. -/
def letterToDigit (x : Char) : Char := ((Letter.ofChar? x).map Letter.digit).getD '0'

@[simp] theorem digitToBase7_digit (letter : Letter) :
    digitToBase7 letter.digit = letter.base7 := by
  simp [digitToBase7]

@[simp] theorem base7ToDigit_base7 (letter : Letter) :
    base7ToDigit letter.base7 = letter.digit := by
  simp [base7ToDigit]

@[simp] theorem digitToLetter_digit (letter : Letter) :
    digitToLetter letter.digit = letter.char := by
  simp [digitToLetter]

@[simp] theorem letterToDigit_char (letter : Letter) :
    letterToDigit letter.char = letter.digit := by
  simp [letterToDigit]

/-- A machine number in base 7. -/
def numberToBase7 (text : String) : String := String.ofList (text.toList.map digitToBase7)

/-- The machine number of a base 7 text. -/
def base7ToNumber (text : String) : String := String.ofList (text.toList.map base7ToDigit)

/-- A machine number in letters. -/
def numberToLetters (text : String) : String := String.ofList (text.toList.map digitToLetter)

/-- The machine number of a description in letters. -/
def lettersToNumber (text : String) : String := String.ofList (text.toList.map letterToDigit)

end Spelling

/-- How a description is written. -/
inductive Spelling where
  | number
  | letters
  | base7
deriving DecidableEq, Repr

/-- The machine number for a text written in a spelling. -/
def Spelling.toNumber : Spelling → String → String
  | number, text => text
  | letters, text => Spelling.lettersToNumber text
  | base7, text => Spelling.base7ToNumber text

end QuintupleMachine
