import StatContract.File.Access
import StatContract.File.Path

/-!
# File trees

A tree of files as a value, with a working directory in it. Directories exist
because they are listed or because something lies in them. A path is followed
part by part, from the root or from the working directory, and every part but
the last has to be a directory.
-/

namespace StatContract

/-- The place of a file or directory: the names on the way from the root. -/
abbrev Place := List String

/-- Files with their contents, directories, and the working directory. -/
structure FileTree where
  files : List (Place × String) := []
  directories : List Place := []
  here : Place := []
  deriving DecidableEq, Repr

namespace FileTree

/-- The contents of a file. -/
def file? (t : FileTree) (p : Place) : Option String := t.files.lookup p

/-- Whether there is a directory. -/
def isDirectory (t : FileTree) (p : Place) : Bool :=
  (t.here :: t.directories).any (p.isPrefixOf ·)
    || t.files.any fun (q, _) => p.isPrefixOf q && p ≠ q

/-- The error of going on from something that is no directory. -/
def blocked (t : FileTree) (p : Place) : FileError :=
  if (t.file? p).isSome then .notDirectory else .notFound

/-- Follows the parts of a path. The root lies in itself. -/
def follow (t : FileTree) : Place → List String → Except FileError Place
  | place, [] => .ok place
  | place, part :: rest =>
    if !t.isDirectory place then .error (t.blocked place)
    else if Path.isFiller part then t.follow place rest
    else if part = ".." then t.follow place.dropLast rest
    else t.follow (place ++ [part]) rest

/-- Where the parts of a path are followed from. -/
def origin (t : FileTree) (path : String) : Place :=
  if path.toList.head? = some '/' then [] else t.here

/-- The place that a path leads to. -/
def resolve (t : FileTree) (path : String) : Except FileError Place :=
  if path.isEmpty then .error .notFound
  else t.follow (t.origin path) (Path.parts path.toList)

/-- Reads a file. -/
def read (t : FileTree) (path : String) : Except FileError String := do
  let place ← t.resolve path
  match t.file? place with
  | some content => return content
  | none => throw (if t.isDirectory place then .isDirectory else .notFound)

/-- Whether there is a file or directory. -/
def present (t : FileTree) (path : String) : Bool :=
  match t.resolve path with
  | .ok place => (t.file? place).isSome || t.isDirectory place
  | .error _ => false

/-- Puts a file in its place, instead of one that is there. -/
def put (t : FileTree) (place : Place) (content : String) : FileTree :=
  { t with files := t.files.filter (·.1 ≠ place) ++ [(place, content)] }

/-- Writes a file. Its directory has to exist, and the path must not be written
like that of a directory. -/
def write (t : FileTree) (path content : String) : Except FileError FileTree := do
  let parts := Path.parts path.toList
  let directory ← t.follow (t.origin path) ((parts.reverse.dropWhile (· = "")).drop 1).reverse
  unless t.isDirectory directory do throw (t.blocked directory)
  if path.isEmpty then throw .notFound
  if parts.getLast? = some "" then throw .isDirectory
  let place ← t.resolve path
  if t.isDirectory place then throw .isDirectory
  return t.put place content

/-- The operations on a file tree that is the state. -/
def access : FileAccess (StateM FileTree) where
  read path := do return (← get).read path
  present path := do return (← get).present path
  write path content := do
    match (← get).write path content with
    | .ok t => set t; return .ok ()
    | .error e => return .error e

/-- The tree of the given files and directories below the working directory, by
path. -/
def ofPaths (here : Place) (files : List (String × String)) (directories : List String) :
    FileTree :=
  let place (path : String) : Place := here ++ (Path.parts path.toList).filter (!Path.isFiller ·)
  { files := files.map fun (path, content) => (place path, content)
    directories := directories.map place
    here }

end FileTree

end StatContract
