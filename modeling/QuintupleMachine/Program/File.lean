import QuintupleMachine.Description.Basic
import QuintupleMachine.Failure
import QuintupleMachine.FileName
import QuintupleMachine.Program.Basic
import QuintupleMachine.Text.Blank

/-! # Program files

A program file holds a description, wrapped over lines at will.  Lines that start with `name:` or
`tape:` are headers, of which the last one of a kind counts; lines that start with `#` are
comments.  A tape is checked where it stands, before the description is read. -/

namespace QuintupleMachine.Program

/-- A line of a program file that says something. -/
inductive Line where
  | name (value : List Char)
  | tape (value : List Char)
  | letters (text : List Char)
deriving DecidableEq, Repr

/-- What a line says; empty lines and comments say nothing. -/
def Line.ofText? (text : List Char) : Option Line :=
  match Text.trim text with
  | [] => none
  | c :: cs =>
    if c = '#' then none
    else match Text.after? ['n', 'a', 'm', 'e', ':'] (c :: cs) with
      | some value => some (name (Text.trim value))
      | none =>
        match Text.after? ['t', 'a', 'p', 'e', ':'] (c :: cs) with
        | some value => some (tape (Text.trim value))
        | none => some (letters (Text.squeeze (c :: cs)))

/-- What the lines read so far amount to. -/
structure Draft where
  name : String
  tape : Option String
  description : String
deriving DecidableEq, Repr

/-- Adds a line; the tape of a header is checked at once. -/
def Draft.add (draft : Draft) : Line → Except InvalidSymbol Draft
  | .name value => .ok { draft with name := String.ofList value }
  | .tape value => do
    let _ ← Tape.parse (String.ofList value)
    return { draft with tape := some (String.ofList value) }
  | .letters text => .ok { draft with description := draft.description ++ String.ofList text }

/-- Adds lines until one is refused. -/
def Draft.addAll (draft : Draft) : List Line → Except InvalidSymbol Draft
  | [] => .ok draft
  | line :: rest =>
    match draft.add line with
    | .ok draft => draft.addAll rest
    | .error e => .error e

/-- The lines of a program file that say something. -/
def linesOf (content : String) : List Line := (Text.lines content.toList).filterMap Line.ofText?

/-- Reads the content of a program file; the name is for a program without a header for it. -/
def read (name content : String) : Reading Failure Program :=
  match Draft.addAll ⟨name, none, ""⟩ (linesOf content) with
  | .error e => .ofExcept (.error (.tape e))
  | .ok draft =>
    ((Description.read draft.description).mapError .description).map fun table =>
      ⟨draft.name, draft.description, draft.tape, table⟩

/-- Reads a program file, given its path and what was found there: its bytes, or the reason why
there are none. -/
def load (path : String) (content : Except String ByteArray) : Reading Failure Program :=
  match content with
  | .error reason => .ofExcept (.error (.unreadableFile path reason))
  | .ok bytes =>
    match String.fromUTF8? bytes with
    | none => .ofExcept (.error (.unreadableFile path "stream did not contain valid UTF-8"))
    | some content => read (FileName.stem (FileName.ofPath path)) content

end QuintupleMachine.Program
