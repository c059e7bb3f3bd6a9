import StatContract.Command.Option

/-!
# Command lines

There are three commands: one generates a checker, one checks a contract, and
one plans trials. Each takes the file with the contract. The flag for a log
may stand before or after the command.
-/

namespace StatContract

/-- What to generate a checker from, and how. -/
structure BuildCommand where
  input : String
  output : Option String := none
  config : Option String := none
  alpha : Option Float := none
  report : Bool := false
  json : Bool := false

/-- What to plan trials for, and how. -/
structure PlanCommand where
  input : String
  config : Option String := none
  alpha : Option Float := none
  beta : Option Float := none
  delta : Option Float := none
  json : Bool := false

/-- A command. -/
inductive Command where
  | build (c : BuildCommand)
  | check (input : String)
  | plan (c : PlanCommand)

/-- A command line that is in order. -/
structure CommandLine where
  verbose : Bool
  command : Command

namespace CommandLine

/-- The flag for a log. -/
def verboseOption : OptionSpec := ⟨"verbose", some 'v', .flag⟩

def helpOption : OptionSpec := ⟨"help", some 'h', .help⟩

/-- The options before the command. None of them takes a value, so the first
argument that is no option is the command. -/
def mainOptions : OptionTable := [verboseOption, helpOption, ⟨"version", some 'V', .version⟩]

def buildOptions : OptionTable :=
  [verboseOption, helpOption, ⟨"output", some 'o', .path⟩, ⟨"config", none, .path⟩,
   ⟨"alpha", none, .number⟩, ⟨"report", none, .flag⟩, ⟨"json", none, .flag⟩]

def checkOptions : OptionTable := [verboseOption, helpOption]

def planOptions : OptionTable :=
  [verboseOption, helpOption, ⟨"config", none, .path⟩, ⟨"alpha", none, .number⟩,
   ⟨"beta", none, .number⟩, ⟨"delta", none, .number⟩, ⟨"json", none, .flag⟩]

/-- A command of which the input is known, from the options that were given. -/
abbrev CommandMaker := String → Given → Command

def makeBuild : CommandMaker := fun input g =>
  .build { input, output := g.paths.lookup "output", config := g.paths.lookup "config",
           alpha := g.numbers.lookup "alpha", report := g.has "report", json := g.has "json" }

def makeCheck : CommandMaker := fun input _ => .check input

def makePlan : CommandMaker := fun input g =>
  .plan { input, config := g.paths.lookup "config", alpha := g.numbers.lookup "alpha",
          beta := g.numbers.lookup "beta", delta := g.numbers.lookup "delta", json := g.has "json" }

/-- The commands by name. -/
def commands : List (String × OptionTable × CommandMaker) :=
  [("build", buildOptions, makeBuild), ("check", checkOptions, makeCheck),
   ("plan", planOptions, makePlan)]

/-- Whether an argument is an option that stands before the command. -/
def isLeading (arg : String) : Bool := isOptionLike arg && arg ≠ "--"

/-- Reads a command line. -/
def parse (args : List String) : Except Stop CommandLine := do
  let outer ← mainOptions.read (args.takeWhile isLeading)
  match args.dropWhile isLeading with
  | [] | ["--"] => throw (.usage .missingCommand)
  | "--" :: word :: _ => throw (.usage (.extraWord word))
  | "help" :: _ => throw .help
  | name :: rest =>
    match commands.lookup name with
    | none => throw (.usage (.unknownCommand name))
    | some (options, make) =>
      let inner ← options.read rest
      match inner.words with
      | [] => throw (.usage .missingInput)
      | input :: _ =>
        return ⟨outer.has verboseOption.long || inner.has verboseOption.long, make input inner⟩

end CommandLine

end StatContract
