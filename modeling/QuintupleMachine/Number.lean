/-! # Numbers and their decimal text

State numbers, head positions and step budgets are 64-bit numbers.  This module fixes the greatest
of them and reads and writes them in decimal; reading decides by value, so leading zeros do not
count against the limit. -/

namespace QuintupleMachine.Number

/-- The greatest number of 64 bits. -/
def greatest : Nat := 18446744073709551615

/-- The decimal digits of a number, without leading zeros. -/
def digits (n : Nat) : List Char := Nat.toDigits 10 n

/-- The decimal text of a number. -/
def text (n : Nat) : String := String.ofList (digits n)

/-- The value of a run of decimal digits. -/
def value (ds : List Char) : Nat := Nat.ofDigitChars 10 ds 0

/-- The number written by a run of decimal digits, if it is not too large. -/
def ofDigits? (ds : List Char) : Option Nat :=
  if value ds ≤ greatest then some (value ds) else none

@[simp] theorem value_digits (n : Nat) : value (digits n) = n :=
  Nat.ofDigitChars_ten_toDigits

/-- The number that a whole text writes: digits, after an optional plus sign. -/
def parse? (text : String) : Option Nat :=
  let ds := match text.toList with
    | '+' :: ds => ds
    | ds => ds
  if ds ≠ [] ∧ ds.all Char.isDigit then ofDigits? ds else none

end QuintupleMachine.Number
