import StatContract.Decimal.Reader
import StatContract.Json.Basic
import StatContract.Lowering.Library
import StatContract.Plan.Samples
import StatContract.Spec.Printer
import StatContract.Text.Padding

/-!
# Sample plans

A plan has an entry for every comparison of a probability that decides the
accuracy clause, in the order of the clause. Probabilities inside the body of
another statistic have no entry, as their tests are repeated with every trial.
-/

namespace StatContract.Plan

/-- What a plan is made for. -/
structure Options where
  alpha : Float := 0.05
  beta : Float := 0.2
  delta : Float := 0.1

/-- What the trials of a test are. -/
inductive TrialSource where
  | inputs | runs | items
  deriving DecidableEq, Repr

def TrialSource.text : TrialSource → String
  | inputs => "inputs"
  | runs => "runs"
  | items => "items"

/-- The trials of a term, when it is a probability. -/
def trialSource? : Term → Option TrialSource
  | .probability _ .inputs _ => some .inputs
  | .probability _ .runs _ => some .runs
  | .probabilityOverItems .. => some .items
  | _ => none

/-- The plan for one comparison. It has a number of samples, or a reason why
there is none. -/
structure Entry where
  clause : String
  source : TrialSource
  alternative : Option Alternative
  tails : Nat
  p0 : Option Float := none
  samples : Option UInt64 := none
  reason : Option String := none

/-- The probability that a comparison claims, when it is a literal. -/
def claimed? : Term → Option Float
  | .constant _ value => Decimal.readFloat? (Text.trim value.toList)
  | _ => none

/-- The entry for a comparison of a probability. -/
def entryOf (options : Options) (clause : Clause) (source : TrialSource) (op : CmpOp)
    (rhs : Term) : Entry :=
  let tails := if op = .eq then 2 else 1
  let entry : Entry :=
    { clause := clause.text, source, alternative := op.alternative?, tails }
  match op.alternative? with
  | none =>
    { entry with reason := some ("operator `" ++ op.symbol ++ "` has no binomial test") }
  | some _ =>
    match claimed? rhs with
    | none => { entry with reason := some "claimed probability is not a constant" }
    | some p0 =>
      match samplesRequired options.alpha options.beta options.delta tails p0 with
      | .ok n => { entry with p0 := some p0, samples := some n }
      | .error e => { entry with p0 := some p0, reason := some e.message }

/-- The entries for a clause. -/
def ofClause (options : Options) : Clause → List Entry
  | .forAll _ _ body | .letIn _ _ _ body => ofClause options body
  | .not _ inner => ofClause options inner
  | .logic _ lhs _ rhs => ofClause options lhs ++ ofClause options rhs
  | .compare span lhs op rhs =>
    match trialSource? lhs with
    | some source => [entryOf options (.compare span lhs op rhs) source op rhs]
    | none => []
  | .membership .. | .approx .. => []

/-- The plan of a specification. -/
def ofSpecification (options : Options) (spec : Specification) : List Entry :=
  match spec.accuracy with
  | some clause => ofClause options clause
  | none => []

/-- A row of the table. -/
def row (source test tails p0 samples clause : String) : String :=
  Text.padRight 8 source ++ " " ++ Text.padRight 10 test ++ " " ++ Text.padLeft 5 tails
    ++ " " ++ Text.padLeft 6 p0 ++ " " ++ Text.padLeft 8 samples ++ "  " ++ clause ++ "\n"

/-- The lines of the table for an entry. -/
def Entry.text (e : Entry) : String :=
  row e.source.text ((e.alternative.map Alternative.text).getD "-") (toString e.tails)
      ((e.p0.map Layout.plain.write).getD "-") ((e.samples.map toString).getD "-") e.clause
    ++ match e.reason with
      | some reason => "  note: " ++ reason ++ "\n"
      | none => ""

/-- A plan as a table. -/
def table (options : Options) (entries : List Entry) : String :=
  let title := "Sample plan (alpha=" ++ Layout.plain.write options.alpha ++ ", beta="
    ++ Layout.plain.write options.beta ++ ", delta=" ++ Layout.plain.write options.delta ++ ")\n"
  if entries.isEmpty then title ++ "no probability comparisons\n"
  else
    title ++ row "source" "test" "tails" "p0" "samples" "clause" ++ Text.rule 72 ++ "\n"
      ++ String.join (entries.map Entry.text)

/-- An entry in machine-readable form. -/
def Entry.toJson (e : Entry) : Json :=
  let orNull {α : Type} (write : α → Json) (a : Option α) : Json := (a.map write).getD .null
  .object [("clause", .string e.clause), ("source", .string e.source.text),
    ("alternative", orNull (fun a => .string a.text) e.alternative),
    ("tails", .nat e.tails), ("p0", orNull (fun x => .number (.float x)) e.p0),
    ("samples", orNull (fun n => .nat n.toNat) e.samples),
    ("reason", orNull .string e.reason)]

end StatContract.Plan
