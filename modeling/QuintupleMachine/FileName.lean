/-! # File names

A path is cut at its slashes, and a file name at its last dot, unless the dot is its first
character: `.sd` has no extension, `a.b.sd` is `a.b` with the extension `sd`. -/

namespace QuintupleMachine.FileName

/-- The part of a path after its last slash. -/
def ofPath (path : String) : String :=
  String.ofList (path.toList.reverse.takeWhile (· ≠ '/')).reverse

/-- A name cut at its last dot. -/
def cut (name : List Char) : Option (List Char × List Char) :=
  match name.reverse.dropWhile (· ≠ '.') with
  | [] => none
  | [_] => none
  | _ :: stem => some (stem.reverse, (name.reverse.takeWhile (· ≠ '.')).reverse)

/-- A file name without its extension. -/
def stem (name : String) : String :=
  match cut name.toList with
  | some (stem, _) => String.ofList stem
  | none => name

/-- The extension of a file name. -/
def extension? (name : String) : Option String :=
  (cut name.toList).map fun parts => String.ofList parts.2

/-- The path of a name in a folder. -/
def join (folder name : String) : String :=
  if folder.toList.getLast? = some '/' ∨ folder = "" then folder ++ name
  else folder ++ "/" ++ name

example : stem ".sd" = ".sd" ∧ extension? ".sd" = none := by decide +kernel

example : stem "a.b.sd" = "a.b" ∧ extension? "a.b.sd" = some "sd" := by decide +kernel

end QuintupleMachine.FileName
