import StatContract.Command.Line
import StatContract.Diagnostic
import StatContract.Report

/-!
# Running a command

The contract is read first, then the settings, and then the level of
significance on the command line is looked at: the first of them that is at
fault decides how the run ends. A checker is written only after everything
about it is known to be right.
-/

namespace StatContract

/-- What a successful run prints. -/
structure Printed where
  stdout : String := ""
  stderr : String := ""
  deriving DecidableEq, Repr

/-- Why a run fails. Diagnostics point into the text of the contract, which is
empty as long as it is not known. -/
inductive Failure where
  | diagnosed (ds : List Diagnostic) (source : String)
  | badAlpha (alpha : Float)
  | unwritable (path : String) (e : FileError)

/-- What a failed run prints. -/
def Failure.text : Failure → String
  | diagnosed ds source => String.join (ds.map (·.text source))
  | badAlpha alpha =>
    "error: --alpha must lie strictly between 0 and 1, got " ++ Layout.plain.write alpha ++ "\n"
  | unwritable path e => "error: cannot write '" ++ path ++ "': " ++ e.message ++ "\n"

/-- How a run ends. -/
inductive Outcome where
  | finished (p : Printed)
  | failed (f : Failure)
  | stopped (s : Stop)

namespace Command

variable {m : Type → Type} [Monad m]

/-- A run on files. -/
abbrev Run (m : Type → Type) := ExceptT Failure m

/-- Goes on with a result, or fails for the reasons it gives. -/
def orFail {α : Type} (source : String) (r : Except (List Diagnostic) α) : Run m α :=
  match r with
  | .ok a => return a
  | .error ds => throw (.diagnosed ds source)

/-- Goes on with what was loaded, or fails for the reason it gives. -/
def orDiagnose {ε α : Type} (explain : ε → Diagnostic) (r : Except ε α) : Run m α :=
  orFail "" (r.mapError fun e => [explain e])

/-- Reads a contract. The file's own name stands in for a missing one. -/
def loadSpec (files : FileAccess m) (path : String) : Run m SpecFile := do
  let text ← orDiagnose (Diagnostic.ofFileError path) (← files.read path)
  let file ← orDiagnose Diagnostic.ofReadError (SpecFile.parse text)
  return { file with filename := some (file.filename.getD path) }

/-- Loads the settings: those of the given file, or those nearest to the
input. -/
def loadConfig (files : FileAccess m) (input : String) (explicit : Option String) :
    Run m Config := do
  let loaded : m (Except ConfigFailure Config) := match explicit with
    | some path => Config.load files path
    | none => Config.discover files ((Path.ofString input).parent?.getD (Path.ofString "."))
  orDiagnose Diagnostic.ofConfigFailure (← loaded)

/-- The settings with the level of significance of the command line. -/
def withAlpha (c : Config) : Option Float → Run m Config
  | none => return c
  | some alpha =>
    if Config.isOpenUnit alpha then return { c with alpha } else throw (.badAlpha alpha)

/-- Generates a checker. -/
def runBuild (files : FileAccess m) (c : BuildCommand) : Run m Printed := do
  let file ← loadSpec files c.input
  let config ← withAlpha (← loadConfig files c.input c.config) c.alpha
  let checker ← orFail file.sourceText (file.spec.compileOrDiagnose config.checkerOptions)
  let path := c.output.getD ((Path.ofString c.input).withExtension "py").text
  match ← files.write path checker.source with
  | .error e => throw (.unwritable path e)
  | .ok () =>
    let done := "Generated -> " ++ path ++ "\n"
    let report := Report.ofModule file.displayName checker
    if c.json then return { stdout := report.toJson.pretty ++ "\n", stderr := done }
    else if c.report then return { stderr := done ++ "\n" ++ report.text ++ "\n" }
    else return { stderr := done }

/-- Checks a contract. -/
def runCheck (files : FileAccess m) (input : String) : Run m Printed := do
  let file ← loadSpec files input
  let domain ← orFail file.sourceText file.spec.checkOrDiagnose
  return { stderr := "OK: " ++ input ++ " (" ++ domain.text ++ ")\n" }

/-- Plans trials. -/
def runPlan (files : FileAccess m) (c : PlanCommand) : Run m Printed := do
  let file ← loadSpec files c.input
  let config ← withAlpha (← loadConfig files c.input c.config) c.alpha
  let _ ← orFail file.sourceText file.spec.checkOrDiagnose
  let options : Plan.Options :=
    { config.planOptions with beta := c.beta.getD config.beta, delta := c.delta.getD config.delta }
  let entries := Plan.ofSpecification options file.spec
  if c.json then return { stdout := (Json.array (entries.map (·.toJson))).pretty ++ "\n" }
  else return { stdout := Plan.table options entries }

/-- Runs a command. -/
def run (files : FileAccess m) : Command → Run m Printed
  | .build c => runBuild files c
  | .check input => runCheck files input
  | .plan c => runPlan files c

end Command

/-- The name and version of the program. -/
def versionText : String := "checkgen 0.1.0"

/-- How the program is called. -/
def usageText : String :=
  "Usage: checkgen [-v] build INPUT [-o PATH] [--config PATH] [--alpha X] [--report] [--json]\n" ++
  "       checkgen [-v] check INPUT\n" ++
  "       checkgen [-v] plan INPUT [--config PATH] [--alpha X] [--beta X] [--delta X] [--json]\n"

namespace Outcome

def exitCode : Outcome → UInt8
  | finished _ | stopped .help | stopped .version => 0
  | failed _ => 1
  | stopped (.usage _) => 2

/-- What is printed as the result. -/
def stdout : Outcome → String
  | finished p => p.stdout
  | stopped .help => usageText
  | stopped .version => versionText ++ "\n"
  | failed _ | stopped (.usage _) => ""

/-- What is printed beside the result. -/
def stderr : Outcome → String
  | finished p => p.stderr
  | failed f => f.text
  | stopped (.usage e) => "error: " ++ e.message ++ "\n\n" ++ usageText
  | stopped .help | stopped .version => ""

end Outcome

/-- Runs a command line. -/
def runCommandLine {m : Type → Type} [Monad m] (files : FileAccess m) (args : List String) :
    m Outcome := do
  match CommandLine.parse args with
  | .error s => return .stopped s
  | .ok line =>
    match ← (line.command.run files).run with
    | .ok p => return .finished p
    | .error f => return .failed f

end StatContract
