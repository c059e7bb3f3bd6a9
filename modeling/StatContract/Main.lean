import StatContract.Command.Run

/-!
# The program

Runs the command line on the files of the machine.
-/

namespace StatContract

/-- The reason behind an error of the machine. -/
def FileError.ofMachine (e : IO.Error) : FileError :=
  match e with
  | .noFileOrDirectory .. | .noSuchThing .. => .notFound
  | .inappropriateType _ code _ =>
    if code = 21 then .isDirectory else .notDirectory
  | e => .other (toString e)

/-- The files of the machine. A file that may not be opened is still there. -/
def machineFiles : FileAccess IO where
  read path := do
    try return .ok (← IO.FS.readFile path)
    catch e => return .error (.ofMachine e)
  present path := do
    try
      let _ ← IO.FS.Handle.mk path .read
      return true
    catch e =>
      match FileError.ofMachine e with
      | .notFound | .notDirectory => return false
      | _ => return true
  write path content := do
    try
      IO.FS.writeFile path content
      return .ok ()
    catch e => return .error (.ofMachine e)

end StatContract

def main (args : List String) : IO UInt32 := do
  let outcome ← StatContract.runCommandLine StatContract.machineFiles args
  IO.print outcome.stdout
  IO.eprint outcome.stderr
  return outcome.exitCode.toUInt32
