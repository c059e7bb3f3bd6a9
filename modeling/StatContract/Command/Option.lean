import StatContract.Decimal.Reader

/-!
# Options on a command line

A level of a command line (the program itself, or one of its commands) has a
table of options. A long option is a word after two dashes, and its value
follows an equals sign or is the next argument. Short options are single
letters after one dash and can stand together; the value of the last one is
the rest of the argument, with or without an equals sign, or the next
argument. A value that is an argument of its own does not look like an option.
Two dashes alone end the options.

Arguments are read from left to right and the first thing that stops the
reading counts, be it a mistake or a call for help.
-/

namespace StatContract

/-- What an option asks for. -/
inductive OptionKind where
  | flag
  | path
  | number
  | help
  | version
  deriving DecidableEq, Repr

/-- An option of a level. -/
structure OptionSpec where
  long : String
  short : Option Char := none
  kind : OptionKind
  deriving DecidableEq, Repr

/-- A mistake on the command line. -/
inductive UsageError where
  | unknownOption (text : String)
  | unexpectedValue (long : String)
  | missingValue (long : String)
  | badValue (long value : String)
  | repeated (long : String)
  | extraWord (word : String)
  | missingInput
  | missingCommand
  | unknownCommand (word : String)
  deriving DecidableEq, Repr

def UsageError.message : UsageError → String
  | unknownOption text => "unknown option '" ++ text ++ "'"
  | unexpectedValue long => "option '--" ++ long ++ "' takes no value"
  | missingValue long => "option '--" ++ long ++ "' needs a value"
  | badValue long value => "bad value '" ++ value ++ "' for option '--" ++ long ++ "'"
  | repeated long => "option '--" ++ long ++ "' is given twice"
  | extraWord word => "unexpected argument '" ++ word ++ "'"
  | missingInput => "no input file is given"
  | missingCommand => "no command is given"
  | unknownCommand word => "unknown command '" ++ word ++ "'"

/-- Why the reading of a command line stops. -/
inductive Stop where
  | help
  | version
  | usage (e : UsageError)
  deriving DecidableEq, Repr

/-- The options that were given, with their values, and the other words. -/
structure Given where
  flags : List String := []
  paths : List (String × String) := []
  numbers : List (String × Float) := []
  words : List String := []

namespace Given

/-- Whether an option was given. -/
def has (g : Given) (long : String) : Bool :=
  g.flags.contains long || (g.paths.lookup long).isSome || (g.numbers.lookup long).isSome

/-- Adds an option without a value. -/
def addFlag (g : Given) (o : OptionSpec) : Except Stop Given :=
  match o.kind with
  | .help => throw .help
  | .version => throw .version
  | _ =>
    if g.has o.long then throw (.usage (.repeated o.long))
    else return { g with flags := o.long :: g.flags }

/-- Adds an option with a value. A path is not empty, and a number is one. -/
def addValue (g : Given) (o : OptionSpec) (value : String) : Except Stop Given := do
  let refuse := throw (.usage (.badValue o.long value))
  if g.has o.long then throw (.usage (.repeated o.long))
  match o.kind with
  | .number =>
    match Decimal.readFloat? value.toList with
    | some x => return { g with numbers := (o.long, x) :: g.numbers }
    | none => refuse
  | _ => if value.isEmpty then refuse else return { g with paths := (o.long, value) :: g.paths }

/-- Adds a word, of which there is at most one, and it is not empty. -/
def addWord (g : Given) (word : String) : Except Stop Given :=
  if word.isEmpty || !g.words.isEmpty then throw (.usage (.extraWord word))
  else return { g with words := [word] }

end Given

/-- Whether an option has to have a value. -/
def OptionSpec.takesValue (o : OptionSpec) : Bool := o.kind = .path || o.kind = .number

/-- Whether an argument is written like an option. -/
def isOptionLike (arg : String) : Bool :=
  match arg.toList with
  | '-' :: _ :: _ => true
  | _ => false

/-- How far the reading of arguments has come: what was given, the option that
waits for its value, and whether the options have ended. -/
structure Progress where
  given : Given := {}
  waiting : Option OptionSpec := none
  ended : Bool := false

/-- The options of a level. -/
abbrev OptionTable := List OptionSpec

namespace OptionTable

/-- Reads a group of short options. Only the last one can wait for its
value. -/
def readShort (table : OptionTable) (g : Given) : List Char → Except Stop Progress
  | [] => return { given := g }
  | c :: cs => do
    match table.find? (·.short = some c) with
    | none => throw (.usage (.unknownOption ("-" ++ c.toString)))
    | some o =>
      if o.takesValue then
        match cs with
        | [] => return { given := g, waiting := some o }
        | '=' :: value | value => return { given := ← g.addValue o (String.ofList value) }
      else table.readShort (← g.addFlag o) cs

/-- Reads a long option, without its dashes. -/
def readLong (table : OptionTable) (g : Given) (cs : List Char) : Except Stop Progress := do
  let name := String.ofList (cs.takeWhile (· ≠ '='))
  match table.find? (·.long = name), cs.dropWhile (· ≠ '=') with
  | none, _ => throw (.usage (.unknownOption ("--" ++ name)))
  | some o, [] =>
    if o.takesValue then return { given := g, waiting := some o }
    else return { given := ← g.addFlag o }
  | some o, _ :: value =>
    if o.takesValue then return { given := ← g.addValue o (String.ofList value) }
    else throw (.usage (.unexpectedValue o.long))

/-- Reads one argument. -/
def step (table : OptionTable) (p : Progress) (arg : String) : Except Stop Progress := do
  match p.waiting with
  | some o =>
    if isOptionLike arg then throw (.usage (.missingValue o.long))
    else return { given := ← p.given.addValue o arg }
  | none =>
    if p.ended || !isOptionLike arg then return { p with given := ← p.given.addWord arg }
    else
      match arg.toList with
      | ['-', '-'] => return { p with ended := true }
      | '-' :: '-' :: cs => table.readLong p.given cs
      | cs => table.readShort p.given cs.tail

/-- Reads all arguments. -/
def read (table : OptionTable) (args : List String) : Except Stop Given := do
  let p ← args.foldlM table.step {}
  match p.waiting with
  | some o => throw (.usage (.missingValue o.long))
  | none => return p.given

end OptionTable

end StatContract
