/-! # Blank characters

White space in the sense of Unicode, and the layout of text by it. -/

namespace QuintupleMachine.Text

/-- The characters that are white space, as ranges with both ends. -/
def blanks : List (Nat × Nat) :=
  [(0x9, 0xd), (0x20, 0x20), (0x85, 0x85), (0xa0, 0xa0), (0x1680, 0x1680), (0x2000, 0x200a),
  (0x2028, 0x2029), (0x202f, 0x202f), (0x205f, 0x205f), (0x3000, 0x3000)]

/-- Whether a character is white space. -/
def isBlank (c : Char) : Bool :=
  blanks.any fun range => range.1 ≤ c.toNat && c.toNat ≤ range.2

/-- A text without the white space at its ends. -/
def trim (text : List Char) : List Char :=
  ((text.dropWhile isBlank).reverse.dropWhile isBlank).reverse

/-- A text without any white space. -/
def squeeze (text : List Char) : List Char := text.filter fun c => !isBlank c

/-- The lines of a text, after the beginning of the first one (its last character first). -/
def linesFrom (line : List Char) : List Char → List (List Char)
  | [] => [line.reverse]
  | c :: cs => if c = '\n' then line.reverse :: linesFrom [] cs else linesFrom (c :: line) cs

/-- The lines of a text, which line feeds separate. -/
def lines (text : List Char) : List (List Char) := linesFrom [] text

/-- What follows a given beginning of a text. -/
def after? (start text : List Char) : Option (List Char) :=
  if start.isPrefixOf text then some (text.drop start.length) else none

end QuintupleMachine.Text
