import QuintupleMachine.Program.File

/-! # The catalogue

Three programs to begin with, kept as the texts of their files. -/

namespace QuintupleMachine.Program.Catalogue

/-- Prints figures on every other cell, `0` and `1` in turn. -/
def alternating : String :=
  "\n".intercalate [
    "# Turing's first example: prints 0_1_0_1_... on a blank tape.",
    "name: alternating",
    "tape: ________________________________________",
    "DADDCRDAA;",
    "DAADDRDAAA;",
    "DAAADDCCRDAAAA;",
    "DAAAADDRDA;",
    ""]

/-- Prints `1` on every cell. -/
def ones : String :=
  "\n".intercalate [
    "# Writes 1 on every cell.",
    "name: ones",
    "tape: __________",
    "DADDCCRDA;",
    ""]

/-- Turns every `1` into `0`. -/
def onesToZeros : String :=
  "\n".intercalate [
    "# Rewrites every 1 as 0. State 1 expects a 1, so it scans past any other",
    "# symbol without writing.",
    "name: ones-to-zeros",
    "tape: 1_01_1_11",
    "DADCCDCRDA;",
    ""]

/-- The texts of the catalogue, by name. -/
def texts : List (String × String) :=
  [("alternating", alternating), ("ones", ones), ("ones-to-zeros", onesToZeros)]

/-- The programs of the catalogue. -/
def programs : List Program :=
  texts.filterMap fun entry => (read entry.1 entry.2).result.toOption

/-- The program at an index. -/
def byIndex (index : Nat) : Except Failure Program :=
  match programs[index]? with
  | some program => .ok program
  | none => .error (.noProgramAt index)

/-- The program with a name. -/
def byName (name : String) : Except Failure Program :=
  match programs.find? fun program => program.name = name with
  | some program => .ok program
  | none => .error (.noProgramNamed name)

/-- The names of the programs. -/
def names : List String := programs.map Program.name

end QuintupleMachine.Program.Catalogue
