import QuintupleMachine.Description.Error
import QuintupleMachine.Letter
import QuintupleMachine.Token

/-! # Counting letters

A `D` opens a field and the letters after it count what the field holds; the next `D`, move or `;`
closes it.  A field closed before anything was counted holds symbol 0. -/

namespace QuintupleMachine

/-- The field that is being counted. -/
inductive Field where
  | closed
  | opened
  | states (n : Nat)
  | symbols (n : Nat)
deriving DecidableEq, Repr

namespace Field

/-- What the field holds when it is closed here. -/
def token? : Field → Option Token
  | closed => none
  | opened => some (.symbol 0)
  | states n => some (.state n)
  | symbols n => some (.symbol n)

/-- Reads a letter: the tokens that it completes and the field after it.  A letter that counts
needs an open field that does not count the other kind. -/
def read : Field → Letter → Option (List Token × Field)
  | field, .d => some (field.token?.toList, opened)
  | opened, .a => some ([], states 1)
  | states n, .a => some ([], states (n + 1))
  | opened, .c => some ([], symbols 1)
  | symbols n, .c => some ([], symbols (n + 1))
  | field, .l => some (field.token?.toList ++ [.move .left], closed)
  | field, .r => some (field.token?.toList ++ [.move .right], closed)
  | field, .n => some (field.token?.toList ++ [.move .stay], closed)
  | field, .semicolon => some (field.token?.toList ++ [.close], closed)
  | _, _ => none

/-- What was being counted. -/
def situation : Field → Situation
  | closed => .noField
  | opened => .openField
  | states _ => .countingState
  | symbols _ => .countingSymbol

/-- Why a character cannot be read. -/
def refusal (field : Field) (position : Nat) (c : Char) : DescriptionError :=
  if field = closed ∧ c = 'A' then .orphanState position
  else if field = closed ∧ c = 'C' then .orphanSymbol position
  else .unexpected c position field.situation

end Field

/-- Reads a description on from a field, at a position, after the tokens already read (the last
one first). -/
def readTokens (field : Field) (position : Nat) (done : List Token) :
    List Char → Except DescriptionError (List Token)
  | [] => .ok (field.token?.toList.reverse ++ done).reverse
  | c :: cs =>
    match (Letter.ofChar? c).bind field.read with
    | some (tokens, field) => readTokens field (position + 1) (tokens.reverse ++ done) cs
    | none => .error (field.refusal position c)

/-- The tokens of a description. -/
def tokensOf (letters : List Char) : Except DescriptionError (List Token) :=
  readTokens .closed 0 [] letters

end QuintupleMachine
