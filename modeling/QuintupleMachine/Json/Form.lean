import QuintupleMachine.Json.Basic
import QuintupleMachine.Program.Basic

/-! # JSON forms

How symbols, moves, rules, tables and programs are written in JSON, and read back.  A rule is an
object with the fields `state`, `read`, `write`, `direction` and `next_state`, or an array of them
in this order; a program likewise with `name`, `description`, `tape` and `table`.  Unknown fields
are ignored.  A table is the array of its rules; when it is read the last rule for a state wins. -/

namespace QuintupleMachine

namespace Json

/-- A number within the limit. -/
def number? : Json → Option Nat
  | number n => if n ≤ Number.greatest then some n else none
  | _ => none

/-- A string. -/
def string? : Json → Option String
  | string text => some text
  | _ => none

/-- The name of a constant: a string, or an object with this name and nothing else. -/
def constant? : Json → Option String
  | string name => some name
  | object [(name, null)] => some name
  | _ => none

/-- The values of the named fields, in order, of an object or an array; an absent field of an
object counts as `null`. -/
def fieldsOf? (names : List String) : Json → Option (List Json)
  | object fields => some (names.map fun name => (field? name fields).getD null)
  | array items => if items.length = names.length then some items else none
  | _ => none

end Json

namespace Symbol

/-- The name of a symbol. -/
def name : Symbol → String
  | blank => "Blank"
  | zero => "Zero"
  | one => "One"

/-- The symbol with a name. -/
def ofName? (name : String) : Option Symbol :=
  if name = "Blank" then some blank
  else if name = "Zero" then some zero
  else if name = "One" then some one
  else none

/-- A symbol in JSON. -/
def toJson (symbol : Symbol) : Json := .string symbol.name

/-- The symbol that a value stands for. -/
def ofJson? (value : Json) : Option Symbol := value.constant?.bind ofName?

@[simp] theorem ofName?_name (symbol : Symbol) : ofName? symbol.name = some symbol := by
  cases symbol <;> decide

@[simp] theorem ofJson?_toJson (symbol : Symbol) : ofJson? symbol.toJson = some symbol := by
  simp [toJson, ofJson?, Json.constant?]

end Symbol

namespace Direction

/-- The name of a move. -/
def name : Direction → String
  | left => "Left"
  | right => "Right"
  | stay => "Stay"

/-- The move with a name. -/
def ofName? (name : String) : Option Direction :=
  if name = "Left" then some left
  else if name = "Right" then some right
  else if name = "Stay" then some stay
  else none

/-- A move in JSON. -/
def toJson (direction : Direction) : Json := .string direction.name

/-- The move that a value stands for. -/
def ofJson? (value : Json) : Option Direction := value.constant?.bind ofName?

@[simp] theorem ofName?_name (direction : Direction) : ofName? direction.name = some direction := by
  cases direction <;> decide

@[simp] theorem ofJson?_toJson (direction : Direction) :
    ofJson? direction.toJson = some direction := by
  simp [toJson, ofJson?, Json.constant?]

end Direction

namespace Quintuple

/-- A rule in JSON. -/
def toJson (rule : Quintuple) : Json :=
  .object [("state", .number rule.state), ("read", rule.read.toJson),
    ("write", rule.write.toJson), ("direction", rule.direction.toJson),
    ("next_state", .number rule.next)]

/-- The rule that a value stands for. -/
def ofJson? (value : Json) : Option Quintuple := do
  match ← value.fieldsOf? ["state", "read", "write", "direction", "next_state"] with
  | [state, read, write, direction, next] =>
    return ⟨← state.number?, ← Symbol.ofJson? read, ← Symbol.ofJson? write,
      ← Direction.ofJson? direction, ← next.number?⟩
  | _ => none

end Quintuple

namespace Table

/-- A table in JSON. -/
def toJson (table : Table) : Json := .array (table.quintuples.map Quintuple.toJson)

/-- The table that a value stands for. -/
def ofJson? : Json → Option Table
  | .array items => (items.mapM Quintuple.ofJson?).map ofList
  | _ => none

end Table

namespace Program

/-- A program in JSON. -/
def toJson (program : Program) : Json :=
  .object [("name", .string program.name), ("description", .string program.description),
    ("tape", (program.tape.map Json.string).getD .null), ("table", program.table.toJson)]

/-- A text that may be absent. -/
def optionalText? : Json → Option (Option String)
  | .null => some none
  | .string text => some (some text)
  | _ => none

/-- The program that a value stands for; its tape is taken as it is. -/
def ofJson? (value : Json) : Option Program := do
  match ← value.fieldsOf? ["name", "description", "tape", "table"] with
  | [name, description, tape, table] =>
    return ⟨← name.string?, ← description.string?, ← optionalText? tape, ← Table.ofJson? table⟩
  | _ => none

end Program

end QuintupleMachine
