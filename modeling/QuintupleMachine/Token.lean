import QuintupleMachine.Direction

/-! # Tokens

What a run of letters stands for.  A token is written in letters in a standard description, where
numbers are counted out, and with digits in the canonical text. -/

namespace QuintupleMachine

/-- A state number, a symbol number, a move, or the end of a rule. -/
inductive Token where
  | state (n : Nat)
  | symbol (n : Nat)
  | move (direction : Direction)
  | close
deriving DecidableEq, Repr

namespace Token

/-- A token in letters: a number is counted out by `A`s or `C`s after a `D`. -/
def letters : Token → List Char
  | state n => 'D' :: List.replicate n 'A'
  | symbol n => 'D' :: List.replicate n 'C'
  | move direction => [direction.letter]
  | close => [';']

/-- A token in canonical text: `q` or `S` with a decimal number, or the letter itself. -/
def canonical : Token → List Char
  | state n => 'q' :: Number.digits n
  | symbol n => 'S' :: Number.digits n
  | move direction => [direction.letter]
  | close => [';']

end Token

/-- Tokens in letters. -/
def lettersOf (tokens : List Token) : List Char := tokens.flatMap Token.letters

/-- Tokens in canonical text. -/
def canonicalOf (tokens : List Token) : List Char := tokens.flatMap Token.canonical

end QuintupleMachine
