import StatContract.Checker.Module
import StatContract.Config.Discovery
import StatContract.Spec.Reader

/-!
# Diagnostics

What is shown of a fatal problem with a contract, its file or the settings: a
headline, the place in the text of the contract, and below it notes and advice.
A file of the wrong form has a short headline, and a note says what is wrong
with it.
-/

namespace StatContract

/-- A fatal problem, ready to be shown. -/
structure Diagnostic where
  code : Option String := none
  message : String
  span : Span := .dummy
  notes : List String := []
  help : Option String := none
  deriving DecidableEq, Repr

namespace Diagnostic

/-- A problem with reading a file. -/
def ofFileError (path : String) (e : FileError) : Diagnostic :=
  { message := "cannot read '" ++ path ++ "': " ++ e.message }

/-- A file that holds no contract. -/
def ofReadError : ReadError → Diagnostic
  | .malformed => { message := ReadError.headline }
  | .mismatch m => { message := ReadError.headline, notes := [m.message] }

/-- A contract that makes no sense. -/
def ofSpecError (e : SpecError) : Diagnostic :=
  { code := some e.code, message := e.message, span := e.span, notes := e.notes, help := e.help }

/-- Settings that cannot be used. -/
def ofConfigFailure (f : ConfigFailure) : Diagnostic :=
  match f.error with
  | .mismatch m => { message := ConfigError.headline, notes := m.message :: f.notes }
  | e => { message := e.message, notes := f.notes, help := e.help }

/-- The message with the code in front of it. -/
def title (d : Diagnostic) : String :=
  let code := match d.code with
    | some code => "[" ++ code ++ "] "
    | none => ""
  code ++ "Error: " ++ d.message

/-- The first line. -/
def headline (d : Diagnostic) : String := String.ofList (d.title.toList.takeWhile (· ≠ '\n'))

/-- The stretch of the source text that is marked, in bytes. It lies within the
text, and nothing is marked when there is no text or no place in it. -/
def mark? (d : Diagnostic) (source : String) : Option (Nat × Nat) :=
  if source.isEmpty || d.span.isDummy then none
  else
    let size := source.utf8ByteSize
    let start := min d.span.start.toNat size
    some (start, max start (min d.span.stop.toNat size))

/-- The whole text, with a line for the marked stretch and for each remark. -/
def text (d : Diagnostic) (source : String) : String :=
  let place := (d.mark? source).toList.map fun (start, stop) =>
    "At: " ++ toString start ++ ".." ++ toString stop
  let remarks := d.notes.map ("Note: " ++ ·) ++ d.help.toList.map ("Help: " ++ ·)
  String.join ((d.title :: place ++ remarks).map (· ++ "\n"))

end Diagnostic

/-- The diagnostics for a defect. There is one, since the first defect ends the
work. -/
def SpecError.diagnostics (e : SpecError) : List Diagnostic := [.ofSpecError e]

namespace Specification

/-- Checks a specification, or says what is wrong with it. -/
def checkOrDiagnose (spec : Specification) : Except (List Diagnostic) Domain :=
  spec.check.mapError SpecError.diagnostics

/-- Generates the module of a specification, or says what is wrong with it. -/
def compileOrDiagnose (spec : Specification) (options : CheckerOptions) :
    Except (List Diagnostic) CheckerModule :=
  (spec.compile options).mapError SpecError.diagnostics

end Specification

end StatContract
