import QuintupleMachine.Number

/-! # JSON values

Values, and their text in one line or indented by two spaces.  Fields keep their order.  Of
numbers only those written as plain digits are told apart; others keep their text. -/

namespace QuintupleMachine

/-- A JSON value. -/
inductive Json where
  | null
  | bool (value : Bool)
  | number (value : Nat)
  | otherNumber (text : String)
  | string (text : String)
  | array (items : List Json)
  | object (fields : List (String × Json))

namespace Json

/-- A character inside a JSON string: quotes, backslashes and controls are escaped. -/
def escaped (c : Char) : List Char :=
  if c = '"' then ['\\', '"']
  else if c = '\\' then ['\\', '\\']
  else if c = '\n' then ['\\', 'n']
  else if c = '\r' then ['\\', 'r']
  else if c = '\t' then ['\\', 't']
  else if c = '\x08' then ['\\', 'b']
  else if c = '\x0c' then ['\\', 'f']
  else if c.toNat < 0x10 then ['\\', 'u', '0', '0', '0'] ++ Nat.toDigits 16 c.toNat
  else if c.toNat < 0x20 then ['\\', 'u', '0', '0'] ++ Nat.toDigits 16 c.toNat
  else [c]

/-- A JSON string. -/
def stringText (text : String) : String :=
  String.ofList ('"' :: (text.toList.flatMap escaped ++ ['"']))

mutual

/-- A value in one line, without spaces. -/
def compact : Json → String
  | null => "null"
  | bool true => "true"
  | bool false => "false"
  | number n => Number.text n
  | otherNumber text => text
  | string text => stringText text
  | array items => "[" ++ ",".intercalate (compactItems items) ++ "]"
  | object fields => "\x7b" ++ ",".intercalate (compactFields fields) ++ "\x7d"

/-- Items in one line each. -/
def compactItems : List Json → List String
  | [] => []
  | item :: items => compact item :: compactItems items

/-- Fields in one line each. -/
def compactFields : List (String × Json) → List String
  | [] => []
  | (name, value) :: fields => (stringText name ++ ":" ++ compact value) :: compactFields fields

end

/-- The start of a line at some depth. -/
def indentation (depth : Nat) : String := "\n" ++ String.ofList (List.replicate (2 * depth) ' ')

/-- Lines between brackets, one level deeper than the brackets; nothing stands between the
brackets of an empty list. -/
def bracketed (opening closing : String) (depth : Nat) : List String → String
  | [] => opening ++ closing
  | lines =>
    opening ++ indentation (depth + 1) ++ ("," ++ indentation (depth + 1)).intercalate lines ++
      indentation depth ++ closing

mutual

/-- A value over several lines, at some depth. -/
def indentedAt (depth : Nat) : Json → String
  | array items => bracketed "[" "]" depth (indentedItems (depth + 1) items)
  | object fields => bracketed "\x7b" "\x7d" depth (indentedFields (depth + 1) fields)
  | value => compact value

/-- Items over several lines, at some depth. -/
def indentedItems (depth : Nat) : List Json → List String
  | [] => []
  | item :: items => indentedAt depth item :: indentedItems depth items

/-- Fields over several lines, at some depth. -/
def indentedFields (depth : Nat) : List (String × Json) → List String
  | [] => []
  | (name, value) :: fields =>
    (stringText name ++ ": " ++ indentedAt depth value) :: indentedFields depth fields

end

/-- A value over several lines. -/
def indented (value : Json) : String := indentedAt 0 value

/-- The value of a field. -/
def field? (name : String) (fields : List (String × Json)) : Option Json :=
  (fields.find? fun field => field.1 = name).map Prod.snd

end Json

end QuintupleMachine
