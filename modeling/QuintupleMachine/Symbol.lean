/-! # Tape symbols

A cell holds the blank or one of two figures.  A symbol has a number, by which descriptions name
it, and a character on a written tape. -/

namespace QuintupleMachine

/-- What a cell of the tape holds. -/
inductive Symbol where
  | blank
  | zero
  | one
deriving DecidableEq, Repr

namespace Symbol

/-- The number of a symbol, which is the length of its run of letters. -/
def number : Symbol → Nat
  | blank => 0
  | zero => 1
  | one => 2

/-- The symbol with a number.  Numbers that no symbol has stand for the blank. -/
def ofNumber : Nat → Symbol
  | 1 => zero
  | 2 => one
  | _ => blank

/-- The character of a symbol on a written tape. -/
def char : Symbol → Char
  | blank => '_'
  | zero => '0'
  | one => '1'

/-- The symbol that a character of a written tape stands for. -/
def ofChar? (c : Char) : Option Symbol :=
  if c = '_' then some blank
  else if c = '0' then some zero
  else if c = '1' then some one
  else none

@[simp] theorem ofNumber_number (s : Symbol) : ofNumber s.number = s := by
  cases s <;> rfl

theorem number_ofNumber {n : Nat} (h : n ≤ 2) : (ofNumber n).number = n := by
  match n, h with
  | 0, _ | 1, _ | 2, _ => rfl

theorem number_le (s : Symbol) : s.number ≤ 2 := by
  cases s <;> decide

@[simp] theorem ofChar?_char (s : Symbol) : ofChar? s.char = some s := by
  cases s <;> rfl

theorem ofChar?_eq_some {c : Char} {s : Symbol} : ofChar? c = some s ↔ c = s.char := by
  constructor
  · intro h
    unfold ofChar? at h
    split at h
    · cases h; assumption
    · split at h
      · cases h; assumption
      · split at h
        · cases h; assumption
        · cases h
  · rintro rfl
    exact ofChar?_char s

end Symbol

end QuintupleMachine
