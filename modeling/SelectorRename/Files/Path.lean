/-
  Paths as text.

  * `Path.steps`: the names that a path goes through, with `.` and `..`, from left to right.
  * `Path.startsInSlash`: such a path begins in the root, any other in the working directory.
  * `Path.endsInSlash`: a path with a slash at its end names a directory.
  * `Path.parent?`, `Path.fileName?`: a path without its last component, and that component.
  * `Path.join`: a name below a directory.

  Slashes side by side count as one, and `.` counts only at the beginning.
-/

namespace SelectorRename.Path

/-- The parts of a path between its slashes; some may be empty. -/
def parts (path : String) : List (List Char) := path.toList.splitOn '/'

/-- The names that a path goes through. -/
def steps (path : String) : List String :=
  ((parts path).filter (· ≠ [])).map String.ofList

/-- Whether a path has a slash at its beginning. -/
def startsInSlash (path : String) : Bool := path.toList.head? = some '/'

/-- Whether a path has a slash at its end. -/
def endsInSlash (path : String) : Bool := path.toList.getLast? = some '/'

/-- The parts without the ones at the end that add nothing; the first one stays. -/
def settle : List (List Char) → List (List Char)
  | [] => []
  | first :: rest =>
    first :: (rest.reverse.dropWhile fun part => part = [] || part = ['.']).reverse

/-- The path with some parts; the empty part alone is the root. -/
def ofParts (ps : List (List Char)) : String :=
  if ps = [[]] then "/" else String.ofList (['/'].intercalate ps)

/-- The parts of the parent; the relative path without a component has none, nor has the root. -/
def parentParts? (ps : List (List Char)) : Option (List (List Char)) :=
  match settle ps with
  | [] => none
  | [first] => if first = [] then none else some []
  | first :: second :: rest => some (settle (first :: (second :: rest).dropLast))

/-- The path without its last component. -/
def parent? (path : String) : Option String := (parentParts? (parts path)).map ofParts

/-- The last component of a path, if it is a name. -/
def fileName? (path : String) : Option String :=
  match (settle (parts path)).getLast? with
  | some last => if last = [] || last = ['.'] || last = ['.', '.'] then none else some (String.ofList last)
  | none => none

/-- The path of a name below a directory. -/
def join (dir name : String) : String :=
  if dir = "" then name else if endsInSlash dir then dir ++ name else dir ++ "/" ++ name

end SelectorRename.Path
