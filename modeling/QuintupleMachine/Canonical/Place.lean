import QuintupleMachine.Canonical.Record

/-! # Reading records

Canonical text is read from left to right, one character at a time.  The place of the reader says
which characters can come next, what is expected there, and whether the text may end.  Records are
separated by `;`, which may be left out after the last. -/

namespace QuintupleMachine

/-- Where a reader stands: before a record, or in one of its fields with the digits read so far,
the last one first. -/
inductive Place where
  | start
  | separated
  | state (digits : List Char)
  | read (state digits : List Char)
  | write (state read digits : List Char)
  | moved (state read write : List Char) (direction : Direction)
  | next (state read write : List Char) (direction : Direction) (digits : List Char)
deriving DecidableEq, Repr

namespace Place

/-- Whether a character goes on with a state number, which does not start with `0`. -/
def extendsState (digits : List Char) (c : Char) : Bool :=
  c.isDigit && (digits ≠ [] || c ≠ '0')

/-- Reads a character: the record that it completes, if any, and the place after it. -/
def advance : Place → Char → Option (Option Record × Place)
  | start, c => if c = 'q' then some (none, state []) else none
  | separated, c => if c = 'q' then some (none, state []) else none
  | state ds, c =>
    if extendsState ds c then some (none, state (c :: ds))
    else if ds ≠ [] ∧ c = 'S' then some (none, read ds.reverse [])
    else none
  | read p ds, c =>
    if c.isDigit then some (none, read p (c :: ds))
    else if ds ≠ [] ∧ c = 'S' then some (none, write p ds.reverse [])
    else none
  | write p r ds, c =>
    if c.isDigit then some (none, write p r (c :: ds))
    else if ds ≠ [] then
      (Direction.ofLetter? c).map fun direction => (none, moved p r ds.reverse direction)
    else none
  | moved p r w m, c => if c = 'q' then some (none, next p r w m []) else none
  | next p r w m ds, c =>
    if extendsState ds c then some (none, next p r w m (c :: ds))
    else if ds ≠ [] ∧ c = ';' then some (some ⟨p, r, w, m, ds.reverse⟩, separated)
    else none

/-- What is expected at a place. -/
def expected : Place → Expected
  | start => .table
  | separated => .recordOrEnd
  | state [] => .stateNumber
  | state _ => .symbol
  | read _ [] => .number
  | read _ _ => .symbol
  | write _ _ [] => .number
  | write _ _ _ => .direction
  | moved _ _ _ _ => .state
  | next _ _ _ _ [] => .stateNumber
  | next _ _ _ _ _ => .endOfText

/-- The record that the end of the text completes, where the text may end. -/
def finish : Place → Option (List Record)
  | start => some []
  | separated => some []
  | next _ _ _ _ [] => none
  | next p r w m ds => some [⟨p, r, w, m, ds.reverse⟩]
  | _ => none

end Place

/-- Where canonical text stops making sense, and what should stand there. -/
structure Malformed where
  offset : Nat
  expected : Expected
deriving DecidableEq, Repr

/-- Reads records on from a place at a byte offset, after those already read (the last one
first). -/
def readRecords (place : Place) (offset : Nat) (done : List Record) :
    List Char → Except Malformed (List Record)
  | [] =>
    match place.finish with
    | some last => .ok (last ++ done).reverse
    | none => .error ⟨offset, place.expected⟩
  | c :: cs =>
    match place.advance c with
    | some (record, place) => readRecords place (offset + c.utf8Size) (record.toList ++ done) cs
    | none => .error ⟨offset, place.expected⟩

/-- The records of a canonical text. -/
def recordsOf (text : List Char) : Except Malformed (List Record) :=
  readRecords .start 0 [] text

end QuintupleMachine
