/-! Paths as texts: the directory of a path, and a path beside another one. -/

namespace CircuitCloak.Files

/-- A path, last character first, without the separators and `.` components at its end. -/
def trimBack : List Char → List Char
  | '/' :: c :: rest => trimBack (c :: rest)
  | '.' :: '/' :: rest => trimBack ('/' :: rest)
  | rest => rest
termination_by path => path.length

/-- The directory of a path; empty for a path without one. Neither the empty path nor the root has a
directory. -/
def directory? (path : String) : Option String :=
  match trimBack path.toList.reverse with
  | [] | ['/'] => none
  | rest => some (String.ofList (trimBack (rest.dropWhile (· != '/'))).reverse)

def isAbsolute (path : String) : Bool := path.toList.head? == some '/'

def joinPath (directory path : String) : String :=
  match directory.toList.getLast? with
  | none | some '/' => directory ++ path
  | some _ => directory ++ "/" ++ path

/-- A path as it is named in a file: relative paths begin at the file's directory. -/
def besideFile (file path : String) : String :=
  if isAbsolute path then path
  else match directory? file with
    | some directory => joinPath directory path
    | none => path

end CircuitCloak.Files
