import StatContract.Domain
import StatContract.Spec.Basic

/-!
# Checker functions

The harness calls a checker at the end of a configuration, of an input or of a
run, depending on what the statistics are taken over. Name and parameters of
the checker are fixed by that.
-/

namespace StatContract

/-- The name and the parameters of a checker. -/
structure Signature where
  name : String
  params : List String
  deriving DecidableEq, Repr

namespace Domain

/-- The checker of a domain. Costs alone need none. -/
def signature? : Domain → Option Signature
  | overInputs => some ⟨"perConfigFunc", ["Config", "Runs", "Inputs", outputName]⟩
  | overRuns => some ⟨"perInpFunc", ["Config", inputName, "Runs", outputName]⟩
  | overItems => some ⟨"perRunFunc", ["Config", inputName, outputName]⟩
  | performanceOnly | none | conflict => .none

/-- The names that the body of a checker can read directly. -/
def scopeNames (d : Domain) : List String :=
  ["Config", outputName]
    ++ (if d = overRuns ∨ d = overInputs then ["Runs"] else [])
    ++ (if d = overInputs then ["Inputs"] else [inputName])

end Domain

end StatContract
