/-! # The alphabet of standard descriptions

Seven letters, each with a digit `1`-`7` in machine numbers and a digit `0`-`6` in base 7. -/

namespace QuintupleMachine

/-- A letter of a standard description. -/
inductive Letter where
  | a
  | c
  | d
  | l
  | r
  | n
  | semicolon
deriving DecidableEq, Repr

namespace Letter

/-- The character of a letter. -/
def char : Letter → Char
  | a => 'A'
  | c => 'C'
  | d => 'D'
  | l => 'L'
  | r => 'R'
  | n => 'N'
  | semicolon => ';'

/-- The digit of a letter in a machine number. -/
def digit : Letter → Char
  | a => '1'
  | c => '2'
  | d => '3'
  | l => '4'
  | r => '5'
  | n => '6'
  | semicolon => '7'

/-- The digit of a letter in base 7. -/
def base7 : Letter → Char
  | a => '0'
  | c => '1'
  | d => '2'
  | l => '3'
  | r => '4'
  | n => '5'
  | semicolon => '6'

/-- All letters, in the order of their digits. -/
def all : List Letter := [a, c, d, l, r, n, semicolon]

/-- The letter that a character stands for. -/
def ofChar? (x : Char) : Option Letter := all.find? fun letter => letter.char = x

/-- The letter that a digit of a machine number stands for. -/
def ofDigit? (x : Char) : Option Letter := all.find? fun letter => letter.digit = x

/-- The letter that a digit in base 7 stands for. -/
def ofBase7? (x : Char) : Option Letter := all.find? fun letter => letter.base7 = x

theorem mem_all (letter : Letter) : letter ∈ all := by
  cases letter <;> decide

@[simp] theorem ofChar?_char (letter : Letter) : ofChar? letter.char = some letter := by
  cases letter <;> rfl

@[simp] theorem ofDigit?_digit (letter : Letter) : ofDigit? letter.digit = some letter := by
  cases letter <;> rfl

@[simp] theorem ofBase7?_base7 (letter : Letter) : ofBase7? letter.base7 = some letter := by
  cases letter <;> rfl

theorem ofChar?_eq_some {x : Char} {letter : Letter} :
    ofChar? x = some letter ↔ x = letter.char := by
  constructor
  · intro h
    have := List.find?_some h
    simpa [eq_comm] using this
  · rintro rfl
    exact ofChar?_char letter

end Letter

end QuintupleMachine
