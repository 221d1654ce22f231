/-!
# File trees

Files and directories in memory, in which programs can be kept and the command line can be tried out. A path is followed name by
name, from the root if it starts with a slash and from the working directory otherwise. All names but the last must lead to
directories, and the first one that does not is the reason why the path leads nowhere; a last name that is not there yet can be
written to.
-/

namespace ExprLang

/-- A path, taken apart at its slashes; several slashes in a row count as one. -/
structure Path where
  /-- Whether it starts at the root. -/
  absolute : Bool
  /-- The names on the way to the last one. -/
  way : List String
  /-- The last name, which only the root and the empty path do without. -/
  last : Option String
  /-- Whether a slash follows the last name. -/
  closed : Bool
deriving DecidableEq, Repr

namespace Path

/-- The path that a text is. -/
def ofString (s : String) : Path :=
  let names := (s.splitOn "/").filter (· ≠ "")
  ⟨s.startsWith "/", names.dropLast, names.getLast?, s.endsWith "/"⟩

/-- The most bytes that a path may have. -/
def maxLength : Nat := 4095

/-- The most bytes that a name in a path may have. -/
def maxNameLength : Nat := 255

end Path

/-- Why a file cannot be read or written. -/
inductive FileError where
  /-- It is not there, or a directory on the way to it is not. -/
  | missing
  /-- What should be a directory on the way to it is none. -/
  | notDirectory
  /-- The path is that of a directory. -/
  | isDirectory
  /-- There is no room for what is written. -/
  | noSpace
  /-- The path or a name in it is too long. -/
  | nameTooLong
deriving DecidableEq, Repr

/-- The reason as the system words it. -/
def FileError.message : FileError → String
  | missing => "No such file or directory (os error 2)"
  | notDirectory => "Not a directory (os error 20)"
  | isDirectory => "Is a directory (os error 21)"
  | noSpace => "No space left on device (os error 28)"
  | nameTooLong => "File name too long (os error 36)"

/-- What can stand at the end of a path. -/
inductive Node where
  /-- A file with these contents. -/
  | file (contents : ByteArray)
  /-- A device that takes whatever is written to it and keeps nothing. -/
  | sink
  /-- A device without room for anything. -/
  | full

/-- Files, devices and directories. A place in the tree is given by the names that lead to it from the root. -/
structure FileTree where
  /-- The working directory, from which relative paths lead. -/
  home : List String
  /-- Directories that are there whether or not anything is in them. -/
  directories : List (List String)
  /-- What is at the other places. -/
  nodes : List (List String × Node)

namespace FileTree

/-- The devices of every tree. -/
def devices : List (List String × Node) := [(["dev", "null"], .sink), (["dev", "full"], .full)]

/-- The tree with these directories and with these files in the working directory; of two files of one path the first counts. -/
def ofFiles (home : List String) (directories : List (List String)) (files : List (String × ByteArray)) : FileTree :=
  let place (path : String) := home ++ (path.splitOn "/").filter fun name => name ≠ "" ∧ name ≠ "."
  ⟨home, directories, files.map (fun (path, contents) => (place path, .file contents)) ++ devices⟩

/-- What is at a place that is no directory. -/
def node? (t : FileTree) (place : List String) : Option Node := t.nodes.lookup place

/-- Whether there is a directory at a place: every place on the way to something is one. -/
def isDirectory (t : FileTree) (place : List String) : Bool :=
  place.isPrefixOf t.home || t.directories.any place.isPrefixOf || t.nodes.any fun n => place.isPrefixOf n.1 && place ≠ n.1

/-- The directory that a name leads to from a directory. Nothing is above the root. -/
def enter (t : FileTree) (place : List String) (name : String) : Except FileError (List String) :=
  if name = "." then .ok place
  else if name = ".." then .ok place.dropLast
  else if Path.maxNameLength < name.utf8ByteSize then .error .nameTooLong
  else
    let inner := place ++ [name]
    if t.isDirectory inner then .ok inner
    else if (t.node? inner).isSome then .error .notDirectory
    else .error .missing

/-- The place of the file that a path names, whether or not there is such a file yet. -/
def locate (t : FileTree) (path : String) : Except FileError (List String) := do
  if path = "" then throw .missing
  if Path.maxLength < path.utf8ByteSize then throw .nameTooLong
  let p := Path.ofString path
  let around ← p.way.foldlM t.enter (if p.absolute then [] else t.home)
  match p.last with
  | none => throw .isDirectory
  | some name =>
    if p.closed ∨ name = "." ∨ name = ".." then throw .isDirectory
    if Path.maxNameLength < name.utf8ByteSize then throw .nameTooLong
    let place := around ++ [name]
    if t.isDirectory place then throw .isDirectory
    return place

/-- The contents of a file; a device that keeps nothing has none. -/
def read (t : FileTree) (path : String) : Except FileError ByteArray := do
  match t.node? (← t.locate path) with
  | none => throw .missing
  | some (.file contents) => return contents
  | some .sink => return ByteArray.empty
  | some .full => throw .noSpace

/-- Writes a file. -/
def write (t : FileTree) (path : String) (contents : ByteArray) : Except FileError FileTree := do
  let place ← t.locate path
  match t.node? place with
  | some .sink => return t
  | some .full => throw .noSpace
  | some (.file _) | none => return { t with nodes := (place, .file contents) :: t.nodes.filter fun n => n.1 ≠ place }

/-- The files in the working directory and below it, by the names that lead to them from there. -/
def homeFiles (t : FileTree) : List (List String × ByteArray) :=
  t.nodes.filterMap fun (place, node) =>
    match node with
    | .file contents => if t.home.isPrefixOf place then some (place.drop t.home.length, contents) else none
    | .sink | .full => none

end FileTree

end ExprLang
