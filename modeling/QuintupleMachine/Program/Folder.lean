import QuintupleMachine.Program.File

/-! # Folders of programs

All the program files of a folder are read, whatever order the folder lists them in: the programs
come first, by path, and what could not be read after them. -/

namespace QuintupleMachine.Program

/-- What a name in a folder stands for: another folder, or a file with its bytes or the reason
why they could not be read. -/
inductive Content where
  | folder
  | file (bytes : Except String ByteArray)

/-- A name in a folder, with what it stands for. -/
structure Entry where
  name : String
  content : Content

/-- What was found at the path of a folder.  In a folder that can be listed there may still be
entries that cannot be read: there is then only the reason why. -/
inductive Listing where
  | missing
  | unreadable (reason : String)
  | entries (listed : List (Except String Entry))

/-- The extension of program files. -/
def extension : String := "sd"

/-- The bytes of an entry that is a program file by its name. -/
def Entry.program? (entry : Entry) : Option (Except String ByteArray) :=
  match entry.content with
  | .folder => none
  | .file bytes => if FileName.extension? entry.name = some extension then some bytes else none

/-- Reads an entry as a program, with its path. -/
def Entry.read? (folder : String) (entry : Entry) : Option (Reading Failure (String × Program)) :=
  entry.program?.map fun bytes =>
    let path := FileName.join folder entry.name
    (load path bytes).map fun program => (path, program)

/-- Reads an entry of a listing, if it could be read itself. -/
def readListed? (folder : String) :
    Except String Entry → Option (Reading Failure (String × Program))
  | .ok entry => entry.read? folder
  | .error reason => some (.ofExcept (.error (.unreadableEntry reason)))

/-- Whether a reading comes no later than another: programs by path, before failures. -/
def comesFirst (a b : Reading Failure (String × Program)) : Bool :=
  match a.result, b.result with
  | .ok p, .ok q => p.1 ≤ q.1
  | .ok _, .error _ => true
  | .error _, .ok _ => false
  | .error _, .error _ => true

/-- Reads all the programs of a folder. -/
def loadFolder (path : String) (listing : Listing) : List (Reading Failure (String × Program)) :=
  match listing with
  | .missing => [.ofExcept (.error (.missingFolder path))]
  | .unreadable reason => [.ofExcept (.error (.unreadableFolder path reason))]
  | .entries listed => (listed.filterMap (readListed? path)).mergeSort comesFirst

end QuintupleMachine.Program
