import StatContract.Domain
import StatContract.Code.Stmt

/-!
# Aggregators

The harness folds the measurements of the runs of an input with `inpAgg`, and
those of the inputs of a configuration with `cfgAgg`. An aggregate holds the
running means of time and space, and the outputs for as long as the checker
still needs them: those of all runs of an input when the statistics are over
runs, those of all inputs when they are over inputs.
-/

namespace StatContract.Aggregate

/-- The variable that holds the aggregate. -/
def agg : Code := .name "agg"

/-- Starts from an empty aggregate. -/
def init : Stmt :=
  .ifTrue (.binary agg (.compare .eq) (.name "None"))
    [.assign agg (.dict [("acc", .list []), ("time", .nat 0), ("space", .nat 0)])]

/-- Folds the value at a key of `source`, number `index` from zero, into the
mean of the values before it. -/
def runningMean (key index source : String) : Stmt :=
  .assign (.entry agg key)
    (.binary
      (.paren (.binary (.binary (.entry agg key) (.arith .mul) (.name index)) .sum
        (.entry (.name source) key)))
      (.arith .div)
      (.group (.name index) (.arith .add) (.nat 1)))

/-- Folds a run into the aggregate of its input. -/
def ofRuns (d : Domain) : FunctionDef where
  name := "inpAgg"
  params := ["agg", "run", "output"]
  body := [init]
    ++ (if d = .overRuns ∨ d = .overInputs then
        [.append (.entry agg "acc") (.entry (.name "output") "acc")] else [])
    ++ [runningMean "time" "run" "output", runningMean "space" "run" "output", .ret agg]

/-- Folds the aggregate of an input into that of its configuration. -/
def ofInputs (d : Domain) : FunctionDef where
  name := "cfgAgg"
  params := ["agg", "input", "inpAgg"]
  body := [init]
    ++ (if d = .overInputs then
        [.update (.entry agg "acc") .add (.entry (.name "inpAgg") "acc")] else [])
    ++ [runningMean "time" "input" "inpAgg", runningMean "space" "input" "inpAgg", .ret agg]

end StatContract.Aggregate
