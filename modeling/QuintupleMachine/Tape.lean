import QuintupleMachine.Symbol

/-! # Tapes

A tape is a fixed number of cells.  It is written with `_`, `0` and `1`, one character a cell, and
read back the same way; the first other character is reported with its index. -/

namespace QuintupleMachine

/-- The cells of a tape.  No operation changes their number. -/
structure Tape where
  cells : Array Symbol
deriving DecidableEq

/-- A character of a written tape that stands for no symbol. -/
structure InvalidSymbol where
  symbol : Char
  position : Nat
deriving DecidableEq, Repr

namespace Tape

/-- A tape of blank cells. -/
def blank (length : Nat) : Tape := ⟨Array.replicate length .blank⟩

/-- The number of cells. -/
def length (tape : Tape) : Nat := tape.cells.size

/-- The symbol in a cell. -/
def get? (tape : Tape) (position : Nat) : Option Symbol := tape.cells[position]?

/-- Overwrites a cell; a position past the end changes nothing. -/
def set (tape : Tape) (position : Nat) (symbol : Symbol) : Tape :=
  ⟨tape.cells.setIfInBounds position symbol⟩

/-- The tape in writing. -/
def text (tape : Tape) : String := String.ofList (tape.cells.toList.map Symbol.char)

/-- Reads cells until the text ends, after those already read. -/
def readCells (done : Array Symbol) : List Char → Except InvalidSymbol (Array Symbol)
  | [] => .ok done
  | c :: cs =>
    match Symbol.ofChar? c with
    | some symbol => readCells (done.push symbol) cs
    | none => .error ⟨c, done.size⟩

/-- Reads a written tape. -/
def parse (text : String) : Except InvalidSymbol Tape :=
  (readCells #[] text.toList).map Tape.mk

@[simp] theorem length_set (tape : Tape) (i : Nat) (s : Symbol) :
    (tape.set i s).length = tape.length := by
  simp [set, length]

theorem get?_set (tape : Tape) (i j : Nat) (s : Symbol) :
    (tape.set i s).get? j = if i = j ∧ j < tape.length then some s else tape.get? j := by
  simp only [set, get?, length, Array.getElem?_setIfInBounds]
  grind

theorem get?_eq_none {tape : Tape} {i : Nat} : tape.get? i = none ↔ tape.length ≤ i := by
  simp [get?, length]

end Tape

end QuintupleMachine
