import StatContract.Checker.Aggregate
import StatContract.Checker.Final
import StatContract.Checker.Signature
import StatContract.Code.Layout
import StatContract.Lowering.Clause
import StatContract.Typing.Analysis

/-!
# Checker modules

The module generated for a specification: the checker for its accuracy clause,
if it has one, the two aggregators, and the final function. `check` tells
without generating anything whether the analysis accepts a specification and
whether its domain can be checked; `compile` generates after the same checks.
-/

namespace StatContract

/-- What the generator is told from outside. -/
structure CheckerOptions where
  alpha : Float := 0.05
  library : String := "AxProf"
  dataPrefix : String := "outputs/%FILENAME%"

/-- A generated module. -/
structure CheckerModule where
  domain : Domain
  functions : List FunctionDef
  timeModel : Option CostModel
  spaceModel : Option CostModel

namespace CheckerModule

/-- The name of the checker function, if there is one. -/
def checkerName? (m : CheckerModule) : Option String := m.domain.signature?.map (·.name)

/-- The number of statements in the module. -/
def size (m : CheckerModule) : Nat := FunctionDef.totalSize m.functions

/-- The text of the module. -/
def source (m : CheckerModule) : String := FunctionDef.moduleText m.functions

end CheckerModule

/-- Whether a text is a name. -/
def isPlainName (text : String) : Bool :=
  !text.isEmpty && text.toList.all fun c => c.isAlphanum || c = '_'

open Lower in
/-- Lowers the accuracy clause to the body of its checker: it puts the verdict
into a variable, warns when the verdict is negative, and returns it. -/
def Clause.lowerBody (target : Target) (clause : Clause) : Lower Unit := do
  emit (.set outputName (.entry (.name outputName) "acc"))
  let verdict ← clause.lower target .boolean
  let result ←
    if isPlainName verdict.code.text then pure verdict.code
    else do
      let temp ← fresh
      emit (.set temp verdict.code)
      pure (.name temp)
  emit (.ifTrue (.not result) [.print [.quoted "Checker detected a possible error"]])
  emit (.ret result)

/-- The checker of a clause in a domain with the given signature. -/
def Clause.checker (target : Target) (domain : Domain) (signature : Signature)
    (clause : Clause) : Except SpecError FunctionDef :=
  match (clause.lowerBody target).run (Context.start domain.scopeNames) with
  | (.error e, _) => .error e
  | (.ok _, ctx) => .ok ⟨signature.name, signature.params, ctx.statements⟩

namespace Specification

/-- Why a specification has no domain that can be checked. -/
def domainError? (spec : Specification) : Option SpecError :=
  match spec.domain with
  | .conflict => some (.mixedDomains spec.span)
  | .none =>
    match spec.accuracy with
    | some clause => some (.noStatistic clause.span)
    | none => some (.emptySpecification spec.span)
  | .overInputs | .overRuns | .overItems | .performanceOnly => none

/-- The checker of the accuracy clause, if the specification has one. -/
def checkers (spec : Specification) (target : Target) : Except SpecError (List FunctionDef) :=
  match spec.domain.signature?, spec.accuracy with
  | some signature, some clause => do
    let f ← clause.checker target spec.domain signature
    return [f]
  | _, _ => return []

/-- Generates the module of an analysed specification. -/
def generate (spec : Specification) (options : CheckerOptions) :
    Except SpecError CheckerModule := do
  if let some e := spec.domainError? then throw e
  let library : Library := ⟨options.library⟩
  let checkers ← spec.checkers { library, alpha := options.alpha }
  let timeModel ← spec.time.mapM CostModel.synthesize
  let spaceModel ← spec.space.mapM CostModel.synthesize
  let functions := checkers
    ++ [Aggregate.ofRuns spec.domain, Aggregate.ofInputs spec.domain,
      Resource.finalFunction library options.dataPrefix timeModel spaceModel]
  return { domain := spec.domain, functions, timeModel, spaceModel }

/-- Whether a specification passes the analysis and has a domain that can be
checked; gives that domain. -/
def check (spec : Specification) : Except SpecError Domain := do
  let (spec, result) := spec.analyze
  let domain ← result
  match spec.domainError? with
  | some e => throw e
  | none => return domain

/-- Analyses a specification and generates its module. -/
def compile (spec : Specification) (options : CheckerOptions) :
    Except SpecError CheckerModule := do
  let (spec, result) := spec.analyze
  let _ ← result
  spec.generate options

end Specification

end StatContract
