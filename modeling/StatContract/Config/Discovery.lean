import StatContract.Config.Basic
import StatContract.File.Access
import StatContract.File.Path

/-!
# Finding the settings file

The settings of an input are those of the nearest settings file: in its own
directory or else in the closest directory above it. Only that file is looked
at, so a fault in it is not hidden by a file further up.
-/

namespace StatContract

/-- Why settings cannot be loaded, with what is worth knowing about it. -/
structure ConfigFailure where
  error : ConfigError
  notes : List String := []

namespace Config

/-- The name of a settings file. -/
def fileName : String := "checkgen.toml"

/-- The places where a settings file is looked for, nearest first. -/
def candidates (start : Path) : List String := start.ancestors.map (·.join fileName)

/-- The nearest settings file. -/
def find {m : Type → Type} [Monad m] (files : FileAccess m) (start : Path) : m (Option String) :=
  (candidates start).findM? files.present

/-- Loads a settings file. -/
def load {m : Type → Type} [Monad m] (files : FileAccess m) (path : String) :
    m (Except ConfigFailure Config) := do
  match ← files.read path with
  | .error e => return .error ⟨.unreadable path e.message, []⟩
  | .ok text =>
    match parse text with
    | .ok c => return .ok c
    | .error e => return .error ⟨e, ["while loading '" ++ path ++ "'"]⟩

/-- Loads the nearest settings file. Without one, every setting has its
default. -/
def discover {m : Type → Type} [Monad m] (files : FileAccess m) (start : Path) :
    m (Except ConfigFailure Config) := do
  match ← find files start with
  | some path => load files path
  | none => return .ok {}

end Config

end StatContract
