/-!
# Paths

A path is kept as it is written, so that messages show it unchanged: what it
starts with, and its parts between slashes, empty ones included. Empty parts
and single points do not count when a part is removed. A point at the very
start counts, so `./a` lies in `.`, and `.` in the empty path, which stands
for the working directory.
-/

namespace StatContract

/-- What a path starts with. -/
inductive PathRoot where
  | relative
  /-- A point at the start. -/
  | here
  | absolute
  deriving DecidableEq, Repr

/-- A path: its start, and the parts after it, last first. -/
structure Path where
  root : PathRoot
  rev : List String
  deriving DecidableEq, Repr

namespace Path

/-- Cuts a text at its slashes. -/
def splitSlashes : List Char → List (List Char)
  | [] => [[]]
  | c :: cs =>
    match splitSlashes cs with
    | [] => [[c]]
    | part :: rest => if c = '/' then [] :: part :: rest else (c :: part) :: rest

/-- The parts of a text between its slashes. -/
def parts (cs : List Char) : List String := (splitSlashes cs).map String.ofList

/-- The path with the given text. -/
def ofString (s : String) : Path :=
  match s.toList with
  | '/' :: cs => ⟨.absolute, (parts cs).reverse⟩
  | ['.'] => ⟨.here, []⟩
  | '.' :: '/' :: cs => ⟨.here, (parts ('/' :: cs)).reverse⟩
  | cs => ⟨.relative, (parts cs).reverse⟩

/-- The text of a path. -/
def text (p : Path) : String :=
  let start := match p.root with
    | .relative => ""
    | .here => "."
    | .absolute => "/"
  start ++ "/".intercalate p.rev.reverse

/-- Whether a part does not count. -/
def isFiller (part : String) : Bool := part = "" || part = "."

/-- The parts of a path up to the last one that counts, last first. -/
def counted (rev : List String) : List String := rev.dropWhile isFiller

/-- The directory that a path lies in. -/
def parent? (p : Path) : Option Path :=
  match counted p.rev with
  | _ :: rest => some { p with rev := counted rest }
  | [] =>
    match p.root with
    | .here => some ⟨.relative, []⟩
    | _ => none

/-- The ends of a list of parts that start with a part that counts. -/
def suffixes : List String → List (List String)
  | [] => []
  | part :: rest => if isFiller part then suffixes rest else (part :: rest) :: suffixes rest

/-- A path, the directory it lies in, the directory that lies in, and so on. -/
def ancestors (p : Path) : List Path :=
  let above := match counted p.rev with
    | [] => []
    | _ :: rest => suffixes rest ++ [[]]
  p :: (above.map (Path.mk p.root) ++ if p.root = .here then [⟨.relative, []⟩] else [])

/-- The ends of a list of parts, one at a time. -/
theorem suffixes_eq (rev : List String) :
    suffixes rev = match counted rev with
      | [] => []
      | part :: rest => (part :: rest) :: suffixes rest := by
  induction rev with
  | nil => rfl
  | cons part rest ih =>
    by_cases h : isFiller part = true
    · have hc : counted (part :: rest) = counted rest := by simp [counted, h]
      rw [hc, ← ih]
      simp [suffixes, h]
    · simp [suffixes, counted, h]

@[simp] theorem counted_nil : counted [] = [] := rfl

@[simp] theorem counted_counted (rev : List String) : counted (counted rev) = counted rev := by
  induction rev with
  | nil => rfl
  | cons part rest ih =>
    by_cases h : isFiller part = true
    · have hc : counted (part :: rest) = counted rest := by simp [counted, h]
      rw [hc, ih]
    · simp [counted, h]

/-- The ancestors of a path are the path and the ancestors of the directory it
lies in. -/
theorem ancestors_eq (p : Path) :
    p.ancestors = p :: match p.parent? with
      | none => []
      | some q => q.ancestors := by
  rcases p with ⟨root, rev⟩
  cases h : counted rev with
  | nil => cases root <;> simp [ancestors, parent?, h]
  | cons part rest =>
    have hs := suffixes_eq rest
    cases hr : counted rest with
    | nil => simp [ancestors, parent?, h, hr, hs]
    | cons next more =>
      have hn : counted (next :: more) = next :: more := by rw [← hr, counted_counted]
      simp [ancestors, parent?, h, hr, hs, hn]

/-- The path of an entry of a directory. -/
def join (p : Path) (name : String) : String :=
  let directory := p.text
  if directory.isEmpty || directory.toList.getLast? = some '/' then directory ++ name
  else directory ++ "/" ++ name

/-- The part of a file name before its last point, if that point is not its
first character. -/
def stem (name : String) : String :=
  match name.toList.reverse.dropWhile (· ≠ '.') with
  | [] | ['.'] => name
  | _ :: before => String.ofList before.reverse

/-- Replaces the last extension of the file name, or adds one. -/
def withExtension (p : Path) (extension : String) : Path :=
  match counted p.rev with
  | [] => p
  | name :: rest =>
    if name = ".." then p else { p with rev := (stem name ++ "." ++ extension) :: rest }

end Path

end StatContract
