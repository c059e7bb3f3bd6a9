import StatContract.Domain
import StatContract.Spec.Basic

/-!
# The domain of a clause

A statistic commits its clause to what it is taken over, whatever stands in
its body. An approximate comparison compares the samples of several runs, so
it commits to runs and tolerates no statistic in its operands. Only the
positions in which a statistic is compared count: a statistic hidden in an
index, a tuple or an argument commits to nothing.
-/

namespace StatContract

/-- The domain that a kind of trial commits to. -/
def Trials.domain : Trials → Domain
  | inputs => .overInputs
  | runs => .overRuns

/-- The domain that a term commits its clause to. -/
def Term.domain : Term → Domain
  | probability _ trials _ | expectation _ trials _ => trials.domain
  | probabilityOverItems .. | expectationOverItems .. => .overItems
  | binary _ lhs _ rhs => lhs.domain.merge rhs.domain
  | _ => .none

/-- The domain that a clause commits its specification to. -/
def Clause.domain : Clause → Domain
  | forAll _ _ body | letIn _ _ _ body => body.domain
  | not _ inner => inner.domain
  | membership .. => .none
  | approx _ lhs rhs =>
    if lhs.domain = .none ∧ rhs.domain = .none then .overRuns else .conflict
  | compare _ lhs _ rhs => lhs.domain.merge rhs.domain
  | logic _ lhs _ rhs => lhs.domain.merge rhs.domain

/-- The domain of a specification: its accuracy clause decides, and without
one the costs alone are checked. -/
def Specification.domain (spec : Specification) : Domain :=
  match spec.accuracy with
  | some clause => clause.domain
  | none =>
    if spec.time.isSome || spec.space.isSome then .performanceOnly else .none

end StatContract
