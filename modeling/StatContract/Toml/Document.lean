import StatContract.Toml.Lexeme

/-!
# TOML documents

A document is a table that is put together line by line: entries go into the
table of the last header. The rules on what may be extended are those of the
format. A table that a header has defined is closed to other headers and to
dotted keys; a table that exists only as part of a longer header may still get
a header of its own; a table made by dotted keys takes only dotted keys.
-/

namespace StatContract.Toml

/-- A table under construction, as a part of another one. -/
inductive Node where
  | value (v : Toml)
  /-- A table. It is `implicit` when no header has defined it, and `dotted` when
  dotted keys have made it. -/
  | table (implicit dotted : Bool) (entries : List (String × Node))
  /-- The tables of an array of tables, last first. -/
  | tables (rev : List (List (String × Node)))

/-- The entries of a table under construction. -/
abbrev Entries := List (String × Node)

mutual

def Node.toToml : Node → Toml
  | .value v => v
  | .table _ _ entries => .table (entriesToToml entries)
  | .tables rev => .array (tablesToToml rev).reverse

def entriesToToml : List (String × Node) → List (String × Toml)
  | [] => []
  | (key, node) :: rest => (key, node.toToml) :: entriesToToml rest

def tablesToToml : List (List (String × Node)) → List Toml
  | [] => []
  | entries :: rest => .table (entriesToToml entries) :: tablesToToml rest

end

/-- Replaces the entry of a key. -/
def Entries.replace (entries : Entries) (key : String) (node : Node) : Entries :=
  entries.map fun (k, n) => if k = key then (k, node) else (k, n)

/-- Changes the table at a path. Tables on the way that do not exist are made.
`byDots` says that the path is written with dotted keys. The change is told
whether dotted keys have made the table. -/
def modifyAt {α : Type} (byDots : Bool) (change : Bool → Entries → Option (Entries × α)) :
    List String → Bool → Entries → Option (Entries × α)
  | [], dotted, entries => change dotted entries
  | key :: path, _, entries =>
    match entries.lookup key with
    | none => do
      let (inner, a) ← modifyAt byDots change path byDots []
      some (entries ++ [(key, .table true byDots inner)], a)
    | some (.value _) => none
    | some (.tables []) => none
    | some (.tables (last :: before)) => do
      let (inner, a) ← modifyAt byDots change path false last
      some (entries.replace key (.tables (inner :: before)), a)
    | some (.table implicit dotted inner) =>
      if byDots && !implicit then none
      else do
        let (inner, a) ← modifyAt byDots change path dotted inner
        some (entries.replace key (.table implicit dotted inner), a)

/-- Adds an entry under a key, whose parts before the last lead to its
table. -/
def addEntry (entries : Entries) (key : List String) (v : Toml) : Option Entries :=
  match key.getLast? with
  | none => none
  | some last =>
    let path := key.dropLast
    let change (dotted : Bool) (entries : Entries) : Option (Entries × Unit) :=
      if dotted == path.isEmpty || (entries.lookup last).isSome then none
      else some (entries ++ [(last, .value v)], ())
    (modifyAt true change path false entries).map (·.1)

/-- Skips blanks, line breaks and comments inside an array. A comment ends with
a line break. -/
def skipLayout : Nat → List Char → List Char
  | 0, cs => cs
  | fuel + 1, cs =>
    match cs with
    | '#' :: _ =>
      match newline? (skipComment cs) with
      | some rest => skipLayout fuel rest
      | none => cs
    | c :: rest =>
      if isBlank c then skipLayout fuel rest
      else match newline? cs with
        | some rest => skipLayout fuel rest
        | none => cs
    | [] => []

/-- The items of an array after its opening bracket. The last may be followed
by a comma. -/
def arrayItems (item : Parser Toml) : Nat → Parser (List Toml)
  | 0, _ => none
  | fuel + 1, cs =>
    match skipLayout cs.length cs with
    | ']' :: rest => some ([], rest)
    | cs => do
      let (v, rest) ← item cs
      match skipLayout rest.length rest with
      | ',' :: rest => do
        let (vs, rest) ← arrayItems item fuel rest
        some (v :: vs, rest)
      | ']' :: rest => some ([v], rest)
      | _ => none

/-- A key and its value, with the blanks between them. -/
def keyValue (value : Parser Toml) : Parser (List String × Toml) := fun cs => do
  let (key, rest) ← key? cs
  match rest with
  | '=' :: rest => do
    let (v, rest) ← value (skipBlanks rest)
    some ((key, v), rest)
  | _ => none

/-- The entries of an inline table, at least one. -/
def inlineEntries (value : Parser Toml) : Nat → Entries → Parser Entries
  | 0, _, _ => none
  | fuel + 1, entries, cs => do
    let ((key, v), rest) ← keyValue value cs
    let entries ← addEntry entries key v
    match skipBlanks rest with
    | ',' :: rest => inlineEntries value fuel entries rest
    | '\x7d' :: rest => some (entries, rest)
    | _ => none

/-- A value with at most the given levels of arrays and inline tables in
it. -/
def valueUpTo : Nat → Parser Toml
  | room, cs =>
    match cs with
    | '[' :: rest =>
      match room with
      | 0 => none
      | room + 1 =>
        (arrayItems (valueUpTo room) (rest.length + 1) rest).map fun (vs, rest) => (.array vs, rest)
    | '\x7b' :: rest =>
      match room with
      | 0 => none
      | room + 1 =>
        match skipBlanks rest with
        | '\x7d' :: rest => some (.table [], rest)
        | rest =>
          (inlineEntries (valueUpTo room) (rest.length + 1) [] rest).map
            fun (entries, rest) => (.table (entriesToToml entries), rest)
    | cs =>
      match string? cs with
      | some (s, rest) => some (.string s, rest)
      | none => word? cs

/-- A value. -/
def value? : Parser Toml := valueUpTo (depthLimit - 1)

/-- A document that is being read: the tables before the last header, the path
of that header, whether it adds to an array of tables, and the entries since
then. -/
structure Reader where
  root : Entries := []
  path : List String := []
  inArray : Bool := false
  entries : Entries := []

namespace Reader

/-- Puts the entries since the last header into their place. -/
def settle (r : Reader) : Option Entries :=
  match r.path.getLast? with
  | none => some r.entries
  | some last =>
    let change (_ : Bool) (parent : Entries) : Option (Entries × Unit) :=
      match r.inArray, parent.lookup last with
      | true, some (.tables rev) => some (parent.replace last (.tables (r.entries :: rev)), ())
      | true, some _ => none
      | true, none => some (parent ++ [(last, .tables [r.entries])], ())
      | false, none => some (parent ++ [(last, .table false false r.entries)], ())
      | false, some _ => none
    (modifyAt false change r.path.dropLast false r.root).map (·.1)

/-- Starts the table of a header. A table that was only a part of longer
headers is taken up again with its entries. -/
def startTable (r : Reader) (path : List String) : Option Reader := do
  let root ← r.settle
  let last ← path.getLast?
  let change (_ : Bool) (parent : Entries) : Option (Entries × Entries) :=
    match parent.lookup last with
    | none => some (parent, [])
    | some (.table true false inner) => some (parent.filter (·.1 ≠ last), inner)
    | some _ => none
  let (root, entries) ← modifyAt false change path.dropLast false root
  some ⟨root, path, false, entries⟩

/-- Starts a table in an array of tables. -/
def startArrayTable (r : Reader) (path : List String) : Option Reader := do
  let root ← r.settle
  let last ← path.getLast?
  let change (_ : Bool) (parent : Entries) : Option (Entries × Unit) :=
    match parent.lookup last with
    | none => some (parent ++ [(last, .tables [])], ())
    | some (.tables _) => some (parent, ())
    | some _ => none
  let (root, _) ← modifyAt false change path.dropLast false root
  some ⟨root, path, true, []⟩

/-- Reads one line, or what stands for one, at the front of the text. -/
def line (r : Reader) (cs : List Char) : Option (Reader × List Char) :=
  match cs with
  | '[' :: '[' :: rest => do
    let (path, rest) ← key? rest
    match rest with
    | ']' :: ']' :: rest => do
      let rest ← lineEnd? rest
      let r ← r.startArrayTable path
      some (r, rest)
    | _ => none
  | '[' :: rest => do
    let (path, rest) ← key? rest
    match rest with
    | ']' :: rest => do
      let rest ← lineEnd? rest
      let r ← r.startTable path
      some (r, rest)
    | _ => none
  | cs =>
    match lineEnd? cs with
    | some rest => some (r, rest)
    | none => do
      let ((key, v), rest) ← keyValue value? cs
      let rest ← lineEnd? rest
      let entries ← addEntry r.entries key v
      some ({ r with entries }, rest)

/-- Reads line after line. -/
def lines : Nat → Reader → List Char → Option Reader
  | 0, _, _ => none
  | fuel + 1, r, cs =>
    match skipBlanks cs with
    | [] => some r
    | cs => do
      let (r, rest) ← r.line cs
      lines fuel r rest

end Reader

/-- The entries of a document. A byte order mark may stand at its start. -/
def parse? (text : String) : Option (List (String × Toml)) := do
  let cs := match text.toList with
    | '\ufeff' :: cs => cs
    | cs => cs
  let r ← Reader.lines (cs.length + 1) {} cs
  let entries ← r.settle
  some (entriesToToml entries)

end StatContract.Toml
