import StatContract.Checker.Module
import StatContract.Json.Printer
import StatContract.Text.Padding

/-!
# Generation reports

A summary of a generated module, for people as a short text and for tools as
JSON.
-/

namespace StatContract

/-- A fitted cost model in a report. -/
structure FitSummary where
  resource : Resource
  model : CostModel

/-- The summary of a generated module. -/
structure Report where
  file : String
  domain : Domain
  fits : List FitSummary
  functions : List String
  statements : Nat

namespace FitSummary

/-- The name of the function that holds the model. -/
def function (f : FitSummary) : String := f.resource.key ++ "FitFunc"

def toJson (f : FitSummary) : Json :=
  .object [("resource", .string f.resource.key), ("function", .string f.function),
    ("coefficients", .nat f.model.coefficients),
    ("inputs", .array (f.model.inputs.map .string)), ("model", .string f.model.body.text)]

end FitSummary

namespace Report

/-- The version of the machine-readable form. -/
def version : Nat := 1

/-- The report on the module generated for a file. -/
def ofModule (file : String) (m : CheckerModule) : Report where
  file
  domain := m.domain
  fits := (m.timeModel.map fun model => ⟨.time, model⟩).toList
    ++ (m.spaceModel.map fun model => ⟨.space, model⟩).toList
  functions := m.functions.map (·.name)
  statements := m.size

def toJson (r : Report) : Json :=
  let checker : Json := match r.domain.signature? with
    | some s => .object [("name", .string s.name), ("params", .array (s.params.map .string))]
    | none => .null
  .object [("version", .nat version), ("file", .string r.file), ("domain", .string r.domain.slug),
    ("checker", checker), ("fits", .array (r.fits.map FitSummary.toJson)),
    ("functions", .array (r.functions.map .string)), ("statements", .nat r.statements)]

/-- A row of the table of models. -/
def fitRow (function coefficients inputs model : String) : String :=
  Text.padRight 16 function ++ " " ++ Text.padLeft 6 coefficients ++ "  "
    ++ Text.padRight 20 inputs ++ " " ++ model ++ "\n"

/-- The report as a text. -/
def text (r : Report) : String :=
  let checker := match r.domain.signature? with
    | some s => s.name ++ "(" ++ ", ".intercalate s.params ++ ")"
    | none => "(none, performance only)"
  let fits :=
    if r.fits.isEmpty then ""
    else
      "\n" ++ fitRow "Fit function" "coeffs" "inputs" "model" ++ Text.rule 72 ++ "\n"
        ++ String.join (r.fits.map fun f =>
          fitRow f.function (toString f.model.coefficients) (",".intercalate f.model.inputs)
            f.model.body.text)
  "Generation report: " ++ r.file ++ "\n"
    ++ "  domain:     " ++ r.domain.text ++ "\n"
    ++ "  checker:    " ++ checker ++ "\n"
    ++ "  functions:  " ++ ", ".intercalate r.functions ++ "\n"
    ++ "  statements: " ++ toString r.statements ++ "\n"
    ++ fits

end Report

end StatContract
