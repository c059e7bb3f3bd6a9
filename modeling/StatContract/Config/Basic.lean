import StatContract.Checker.Module
import StatContract.Mismatch
import StatContract.Plan.Entry
import StatContract.Toml.Document

/-!
# Settings

Settings come from a TOML file with a table for the checker and one for
sample plans. Everything has a default, and a name that is no setting is an
error. Levels of significance and the like lie strictly between zero and one,
and the library is a dotted name.
-/

namespace StatContract

/-- The settings. -/
structure Config where
  alpha : Float := 0.05
  library : String := "AxProf"
  dataPrefix : String := "outputs/%FILENAME%"
  beta : Float := 0.2
  delta : Float := 0.1

/-- Why settings cannot be used. -/
inductive ConfigError where
  | unreadable (path reason : String)
  /-- The text is not TOML. -/
  | malformed
  | mismatch (m : Mismatch)
  | outOfRange (name : String) (value : Float)
  | badLibrary (name : String)

namespace ConfigError

/-- How a message about a settings file of the wrong form starts. -/
def headline : String := "invalid checkgen.toml"

def message : ConfigError → String
  | unreadable path reason => "cannot read '" ++ path ++ "': " ++ reason
  | malformed => headline
  | mismatch m => headline ++ ": " ++ m.message
  | outOfRange name value =>
    name ++ " must lie strictly between 0 and 1, got " ++ Layout.plain.write value
  | badLibrary name => "checker.library '" ++ name ++ "' is not a module name"

def help : ConfigError → Option String
  | badLibrary _ => some "use a Python module path such as `AxProf`"
  | _ => none

end ConfigError

namespace Config

/-- What a value is, for a message about it. -/
def found : Toml → Found
  | .string s => .text s
  | .integer n => .integer n
  | .float x => .float (Layout.pointed.write x)
  | .boolean b => .boolean b
  | .array _ => .sequence
  | .table _ => .map

/-- A number; an integer will do. -/
def readFloat : Toml → Except Mismatch Float
  | .float x => .ok x
  | .integer n => .ok (Float.ofInt n)
  | v => .error (.invalidType (found v) "f64")

def readText : Toml → Except Mismatch String
  | .string s => .ok s
  | v => .error (.invalidType (found v) "a string")

/-- A setting: its name, and how its value changes the settings. -/
abbrev Setting := String × (Config → Toml → Except Mismatch Config)

/-- Reads a table of settings: entries in the order of the file, or an array of
values in the order of the settings. -/
def readTable (name : String) (settings : List Setting) (c : Config) (v : Toml) :
    Except Mismatch Config :=
  match v with
  | .table entries =>
    entries.foldlM (fun c (key, v) =>
      match settings.lookup key with
      | some read => read c v
      | none => .error (.unknownField key (settings.map (·.1)))) c
  | .array items => (settings.zip items).foldlM (fun c ((_, read), v) => read c v) c
  | v => .error (.invalidType (found v) name)

/-- The settings of the checker. -/
def checkerSettings : List Setting :=
  [("alpha", fun c v => do return { c with alpha := ← readFloat v }),
   ("library", fun c v => do return { c with library := ← readText v }),
   ("data_prefix", fun c v => do return { c with dataPrefix := ← readText v })]

/-- The settings of sample plans. -/
def planSettings : List Setting :=
  [("beta", fun c v => do return { c with beta := ← readFloat v }),
   ("delta", fun c v => do return { c with delta := ← readFloat v })]

/-- The tables of a settings file. -/
def tables : List Setting :=
  [("checker", readTable "struct CheckerConfig" checkerSettings),
   ("plan", readTable "struct PlanConfig" planSettings)]

/-- The settings in a document. -/
def ofToml (entries : List (String × Toml)) : Except Mismatch Config :=
  readTable "struct Config" tables {} (.table entries)

/-- Whether a text can be the name of a library. -/
def isModuleName (s : String) : Bool :=
  !s.isEmpty && s.toList.all fun c => c.isAlphanum || c = '_' || c = '.'

/-- Whether a number lies strictly between zero and one. -/
def isOpenUnit (x : Float) : Bool := 0.0 < x && x < 1.0

/-- Refuses settings that make no sense: the first of the numbers that is out
of range, then the library. -/
def validate (c : Config) : Except ConfigError Unit := do
  for (name, x) in [("checker.alpha", c.alpha), ("plan.beta", c.beta), ("plan.delta", c.delta)] do
    unless isOpenUnit x do throw (.outOfRange name x)
  unless isModuleName c.library do throw (.badLibrary c.library)

/-- The settings in a text. -/
def parse (text : String) : Except ConfigError Config := do
  match Toml.parse? text with
  | none => throw .malformed
  | some entries =>
    match ofToml entries with
    | .error m => throw (.mismatch m)
    | .ok c =>
      c.validate
      return c

/-- The options of the generator. -/
def checkerOptions (c : Config) : CheckerOptions :=
  { alpha := c.alpha, library := c.library, dataPrefix := c.dataPrefix }

/-- The options of sample plans. -/
def planOptions (c : Config) : Plan.Options :=
  { alpha := c.alpha, beta := c.beta, delta := c.delta }

end Config

end StatContract
