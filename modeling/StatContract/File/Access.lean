/-!
# Access to files

What the program needs of a file system. It is a parameter of everything that
reads or writes files, so that the same program runs on the file system of the
machine and on a tree of files in memory.
-/

namespace StatContract

/-- Why a file cannot be read or written. -/
inductive FileError where
  | notFound
  | isDirectory
  | notDirectory
  | other (message : String)
  deriving DecidableEq, Repr

def FileError.message : FileError → String
  | notFound => "No such file or directory (os error 2)"
  | isDirectory => "Is a directory (os error 21)"
  | notDirectory => "Not a directory (os error 20)"
  | other message => message

/-- The operations on files, by path. -/
structure FileAccess (m : Type → Type) where
  read : String → m (Except FileError String)
  /-- Whether there is a file or directory. -/
  present : String → m Bool
  write : String → String → m (Except FileError Unit)

end StatContract
