import QuintupleMachine.Number

/-! # Head moves -/

namespace QuintupleMachine

/-- A move of the head. -/
inductive Direction where
  | left
  | right
  | stay
deriving DecidableEq, Repr

namespace Direction

/-- The letter of a move. -/
def letter : Direction → Char
  | left => 'L'
  | right => 'R'
  | stay => 'N'

/-- The move that a letter stands for. -/
def ofLetter? (c : Char) : Option Direction :=
  if c = 'L' then some left
  else if c = 'R' then some right
  else if c = 'N' then some stay
  else none

/-- The position after a move.  There is none left of position 0, nor right of the greatest. -/
def apply : Direction → Nat → Option Nat
  | left, 0 => none
  | left, head + 1 => some head
  | right, head => if head < Number.greatest then some (head + 1) else none
  | stay, head => some head

@[simp] theorem ofLetter?_letter (d : Direction) : ofLetter? d.letter = some d := by
  cases d <;> rfl

theorem ofLetter?_eq_some {c : Char} {d : Direction} : ofLetter? c = some d ↔ c = d.letter := by
  constructor
  · intro h
    unfold ofLetter? at h
    split at h
    · cases h; assumption
    · split at h
      · cases h; assumption
      · split at h
        · cases h; assumption
        · cases h
  · rintro rfl
    exact ofLetter?_letter d

end Direction

end QuintupleMachine
