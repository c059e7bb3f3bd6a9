import StatContract.Code.Stmt
import StatContract.Cost.Model
import StatContract.Lowering.Library

/-!
# The final function

When all configurations have been measured the harness calls `finalFunc`. It
writes the measured times and spaces to files and fits the cost models, where
the specification has them.
-/

namespace StatContract

/-- A resource whose use is measured. -/
inductive Resource where
  | time | space
  deriving DecidableEq, Repr

namespace Resource

def key : Resource → String
  | time => "time"
  | space => "space"

/-- The variable that holds the measurements. -/
def table : Resource → String
  | time => "times"
  | space => "spaces"

/-- How a printed line about the resource starts. -/
def label : Resource → String
  | time => "Time"
  | space => "space"

/-- Collects the measurements of a resource and writes them to a file. -/
def collect (lib : Library) (dataPrefix : String) (r : Resource) : List Stmt :=
  [.set r.table (.verbatim ("\x7bk:v['" ++ r.key ++ "'] for k, v in outputs.items()\x7d")),
   .eval (lib.dumpData (.name r.table) (dataPrefix ++ "-" ++ r.key ++ "Data.txt") r.key)]

/-- Defines the model of a resource and fits it. -/
def fit (lib : Library) (r : Resource) (model : CostModel) : List Stmt :=
  let function := r.key ++ "FitFunc"
  [.define function model.params [.ret model.body],
   .attempt
    [.assign (.verbatim "popt, rsqd") (lib.fitToData (.name r.table) (.name function) model.inputs),
     .print [.quoted (r.label ++ " usage:\\nOptimal curve fit parameters:"), .name "popt",
      .quoted "\\nR^2 metric:", .name "rsqd"]]
    ["RuntimeError", "TypeError"]
    [.print [.quoted ("Unable to find optimal curve fit parameters for " ++ r.key ++ " data")]]]

/-- The final function for the given models. -/
def finalFunction (lib : Library) (dataPrefix : String) (time? space? : Option CostModel) :
    FunctionDef where
  name := "finalFunc"
  params := ["paramNames", "outputs", "runs", "inputs"]
  body := collect lib dataPrefix .time ++ collect lib dataPrefix .space
    ++ (time?.map (fit lib .time)).getD []
    ++ (space?.map (fit lib .space)).getD []

end Resource

end StatContract
