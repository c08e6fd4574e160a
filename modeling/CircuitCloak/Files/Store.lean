/-! Stores of files. A program that reads and writes files does so through a store, which is the
file system when the program runs and a folder held in memory where it is reasoned about. -/

namespace CircuitCloak.Files

inductive FileFault where
  | notFound
  | notDirectory
  | isDirectory
  | nameTooLong
  /-- The path holds a character that no name can hold. -/
  | nulInName
  | other (reason : String)
  deriving DecidableEq, Repr

def FileFault.message : FileFault → String
  | notFound => "No such file or directory (os error 2)"
  | notDirectory => "Not a directory (os error 20)"
  | isDirectory => "Is a directory (os error 21)"
  | nameTooLong => "File name too long (os error 36)"
  | nulInName => "file name contained an unexpected NUL byte"
  | other reason => reason

/-- Access to text files by path. -/
class FileStore (m : Type → Type) where
  contains : String → m Bool
  read : String → m (Except FileFault String)
  write : String → String → m (Except FileFault Unit)

def checkPath (path : String) : Except FileFault Unit :=
  if path.contains '\x00' then .error .nulInName
  else if path.isEmpty then .error .notFound
  else if 4096 ≤ path.utf8ByteSize then .error .nameTooLong
  else .ok ()

def longestName : Nat := 255

/-- Files by the components of their absolute paths. Directories are those that the files and the
folder's location need. -/
structure Folder where
  files : List (List String × String)
  /-- The directory in which relative paths begin. -/
  location : List String := ["tmp", "desk"]
  deriving Repr, Inhabited

namespace Folder

def file? (folder : Folder) (place : List String) : Option String := folder.files.lookup place

def isDirectory (folder : Folder) (place : List String) : Bool :=
  place.isPrefixOf folder.location || folder.files.any fun entry =>
    place.isPrefixOf entry.1 && place.length < entry.1.length

def requireDirectory (folder : Folder) (place : List String) : Except FileFault Unit :=
  if (folder.file? place).isSome then .error .notDirectory
  else if folder.isDirectory place then .ok ()
  else .error .notFound

/-- Goes on from a place by one component of a path. The root is its own parent. -/
def enter (folder : Folder) (place : List String) (component : String) :
    Except FileFault (List String) := do
  folder.requireDirectory place
  match component with
  | "" | "." => return place
  | ".." => return place.dropLast
  | name => if longestName < name.utf8ByteSize then .error .nameTooLong else return place ++ [name]

/-- Where a path begins, and its components. -/
def start (folder : Folder) (path : String) : List String × List String :=
  match path.splitOn "/" with
  | "" :: components => ([], components)
  | components => (folder.location, components)

/-- The place of a path, which may be missing, in a directory that is there. -/
def locate (folder : Folder) (path : String) : Except FileFault (List String) := do
  checkPath path
  let (place, components) := folder.start path
  components.foldlM folder.enter place

def contains (folder : Folder) (path : String) : Bool :=
  match folder.locate path with
  | .ok place => (folder.file? place).isSome || folder.isDirectory place
  | .error _ => false

def read (folder : Folder) (path : String) : Except FileFault String := do
  let place ← folder.locate path
  match folder.file? place with
  | some text => .ok text
  | none => .error (if folder.isDirectory place then .isDirectory else .notFound)

/-- A text at a place, in the stead of what was there. -/
def put (folder : Folder) (place : List String) (text : String) : Folder :=
  { folder with files := (place, text) :: folder.files.filter (·.1 != place) }

/-- Writes a file in a directory that is there. A path that ends in a separator or in dots names a
directory, whether it is there or not. -/
def write (folder : Folder) (path text : String) : Except FileFault Folder := do
  checkPath path
  let (place, components) := folder.start path
  let named := components.reverse.dropWhile (· == "")
  let parent ← named.tail.reverse.foldlM folder.enter place
  folder.requireDirectory parent
  match named.head? with
  | none | some "." | some ".." => .error .isDirectory
  | some name =>
    if named.length < components.length then .error .isDirectory
    let place ← folder.enter parent name
    if folder.isDirectory place then .error .isDirectory else return folder.put place text

/-- A folder of files with the given paths, which begin at its location or at the root. -/
def ofList (files : List (String × String)) : Folder :=
  files.foldl (fun folder entry =>
    let (place, components) := folder.start entry.1
    folder.put (place ++ components.filter fun name => name != "" && name != ".") entry.2)
    { files := [] }

end Folder

instance {m : Type → Type} [Monad m] : FileStore (StateT Folder m) where
  contains path := return (← get).contains path
  read path := return (← get).read path
  write path text := do
    match (← get).write path text with
    | .ok folder =>
      set folder
      return .ok ()
    | .error fault => return .error fault

end CircuitCloak.Files
