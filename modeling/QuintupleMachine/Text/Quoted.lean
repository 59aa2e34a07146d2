import QuintupleMachine.Text.Printable

/-! # Quoted text

Characters and texts as messages show them: between quotes, with a backslash before the quote in
use and before a backslash, short escapes for the usual controls, and the hexadecimal number of
every other character that does not print. -/

namespace QuintupleMachine.Text

/-- A character by its number in lowercase hexadecimal. -/
def numbered (c : Char) : List Char :=
  '\\' :: 'u' :: '\x7b' :: (Nat.toDigits 16 c.toNat ++ ['\x7d'])

/-- A character inside quotes. -/
def escaped (quote : Char) (c : Char) : List Char :=
  if c = '\x00' then ['\\', '0']
  else if c = '\t' then ['\\', 't']
  else if c = '\r' then ['\\', 'r']
  else if c = '\n' then ['\\', 'n']
  else if c = '\\' ∨ c = quote then ['\\', c]
  else if prints c then [c]
  else numbered c

/-- A character between single quotes. -/
def quotedChar (c : Char) : String := String.ofList ('\'' :: (escaped '\'' c ++ ['\'']))

/-- A text between double quotes. -/
def quoted (text : String) : String :=
  String.ofList ('"' :: (text.toList.flatMap (escaped '"') ++ ['"']))

end QuintupleMachine.Text
