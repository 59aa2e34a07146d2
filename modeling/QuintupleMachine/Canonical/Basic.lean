import QuintupleMachine.Canonical.Place
import QuintupleMachine.Reading

/-! # Tables from canonical text

All of the text must be records before any of them is read.  Then records enter the table one by
one until a number is too large; a record replaces an earlier one for the same state, and such
states are reported in order. -/

namespace QuintupleMachine.Canonical

/-- Adds records to a table, after the states already redefined (the last one first). -/
def collect (table : Table) (redefined : List Nat) :
    List Record → Reading DescriptionError Table
  | [] => ⟨redefined.reverse, .ok table⟩
  | record :: records =>
    match record.quintuple with
    | .error e => ⟨redefined.reverse, .error e⟩
    | .ok rule =>
      let redefined := if table.defines rule.state then rule.state :: redefined else redefined
      collect (table.insert rule) redefined records

/-- Reads a canonical text. -/
def read (text : String) : Reading DescriptionError Table :=
  match recordsOf text.toList with
  | .error e => ⟨[], .error (.malformed e.offset text e.expected)⟩
  | .ok records => collect .empty [] records

/-- The table that a canonical text stands for. -/
def parse (text : String) : Except DescriptionError Table := (read text).result

end QuintupleMachine.Canonical
