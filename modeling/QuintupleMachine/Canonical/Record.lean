import QuintupleMachine.Description.Error
import QuintupleMachine.Quintuple

/-! # Records of canonical text

A record is the text `q<state>S<read>S<write><move>q<next>` of one quintuple, kept with its digits
as written: state numbers start with `1`-`9`, symbol numbers may have leading zeros, and every
number is limited by its value. -/

namespace QuintupleMachine

/-- The fields of a record, numbers by their digits. -/
structure Record where
  state : List Char
  read : List Char
  write : List Char
  direction : Direction
  next : List Char
deriving DecidableEq, Repr

namespace Record

/-- The text of a record. -/
def text (record : Record) : List Char :=
  'q' :: record.state ++ 'S' :: record.read ++ 'S' :: record.write ++
    record.direction.letter :: 'q' :: record.next

/-- The number of a field, or the field as written if its number is too large. -/
def number (mark : Char) (digits : List Char) : Except DescriptionError Nat :=
  match Number.ofDigits? digits with
  | some n => .ok n
  | none => .error (.tooLarge (String.ofList (mark :: digits)))

/-- The quintuple that a record stands for; the first field that is too large is reported. -/
def quintuple (record : Record) : Except DescriptionError Quintuple := do
  let state ← number 'q' record.state
  let read ← number 'S' record.read
  let write ← number 'S' record.write
  let next ← number 'q' record.next
  return ⟨state, .ofNumber read, .ofNumber write, record.direction, next⟩

end Record

end QuintupleMachine
