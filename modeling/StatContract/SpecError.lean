import StatContract.Span
import StatContract.ValueType
import StatContract.Operator

/-!
# Defects of a specification

Every defect stops the compilation. It carries the place of the offending node
and, where it helps, that node in specification syntax, so that a message can
be understood without the source at hand.
-/

namespace StatContract

/-- The statistical tests that a comparison can turn into. -/
inductive TestKind where
  | binomial
  | tTest
  | twoSidedTTest
  deriving DecidableEq, Repr

def TestKind.text : TestKind → String
  | binomial => "binomial test"
  | tTest => "t-test"
  | twoSidedTTest => "two-sided t-test"

/-- A reason to reject a specification. -/
inductive SpecError where
  /-- A name that every specification declares is missing. -/
  | missingDeclaration (name : String) (span : Span)
  /-- A range over something that is not a list. -/
  | notIterable (node : String) (ty : ValueType) (span : Span)
  /-- A lookup in something that is neither list nor map. -/
  | notIndexable (node : String) (ty : ValueType) (span : Span)
  /-- A membership test in something that is neither list nor map. -/
  | notSearchable (node : String) (ty : ValueType) (span : Span)
  /-- Arithmetic between two types. -/
  | operandMismatch (node : String) (lhs rhs : ValueType) (span : Span)
  /-- An approximate comparison of something else than the output. -/
  | approxTarget (node : String) (span : Span)
  /-- An expectation over trials of something else than the output. -/
  | expectationTarget (node : String) (span : Span)
  /-- A comparison that the test for its left side cannot decide. -/
  | unsupportedTest (op : CmpOp) (test : TestKind) (node : String) (span : Span)
  /-- An operator without a matrix version. -/
  | unsupportedMatrixOp (op : ArithOp) (node : String) (span : Span)
  /-- A statistic that is not compared with anything. -/
  | misplacedStatistic (node : String) (span : Span)
  /-- A cost that no curve can be fitted to. -/
  | unsupportedCost (node : String) (span : Span)
  /-- A term whose type is needed and was not found. -/
  | untyped (node : String) (span : Span)
  /-- Statistics over different domains. -/
  | mixedDomains (span : Span)
  /-- No contract at all. -/
  | emptySpecification (span : Span)
  /-- An accuracy clause without a statistic. -/
  | noStatistic (span : Span)
  deriving DecidableEq, Repr

namespace SpecError

/-- The place of the offending node. -/
def span : SpecError → Span
  | missingDeclaration _ s | notIterable _ _ s | notIndexable _ _ s
  | notSearchable _ _ s | operandMismatch _ _ _ s | approxTarget _ s
  | expectationTarget _ s | unsupportedTest _ _ _ s | unsupportedMatrixOp _ _ s
  | misplacedStatistic _ s | unsupportedCost _ s | untyped _ s | mixedDomains s
  | emptySpecification s | noStatistic s => s

/-- The code under which a defect is documented. -/
def code : SpecError → String
  | missingDeclaration .. => "E0001"
  | notIterable .. => "E0002"
  | notIndexable .. => "E0003"
  | notSearchable .. => "E0004"
  | operandMismatch .. => "E0005"
  | approxTarget .. => "E0006"
  | expectationTarget .. => "E0007"
  | unsupportedTest .. => "E0008"
  | unsupportedMatrixOp .. => "E0009"
  | misplacedStatistic .. => "E0010"
  | unsupportedCost .. => "E0011"
  | untyped .. => "E0012"
  | mixedDomains .. => "E0013"
  | emptySpecification .. => "E0014"
  | noStatistic .. => "E0015"

/-- The message of a defect. -/
def message : SpecError → String
  | missingDeclaration name _ => "specification does not declare `" ++ name ++ "`"
  | notIterable node ty _ => "cannot iterate over `" ++ node ++ "` of type " ++ ty.text
  | notIndexable node ty _ => "cannot index into `" ++ node ++ "` of type " ++ ty.text
  | notSearchable node ty _ =>
    "cannot test membership in `" ++ node ++ "` of type " ++ ty.text
  | operandMismatch node lhs rhs _ =>
    "operand types differ in `" ++ node ++ "`: " ++ lhs.text ++ " vs " ++ rhs.text
  | approxTarget node _ =>
    "approximate comparison must compare `Output`, found `" ++ node ++ "`"
  | expectationTarget node _ =>
    "expectation over inputs or runs must be taken of `Output`, found `" ++ node ++ "`"
  | unsupportedTest op test node _ =>
    "operator `" ++ op.symbol ++ "` is not supported by the " ++ test.text ++ " in `"
      ++ node ++ "`"
  | unsupportedMatrixOp op node _ =>
    "operator `" ++ op.symbol ++ "` is not defined on matrices in `" ++ node ++ "`"
  | misplacedStatistic node _ =>
    "statistic `" ++ node ++ "` may only appear as the left side of a comparison"
  | unsupportedCost node _ =>
    "cost term `" ++ node ++ "` cannot be turned into a fit function"
  | untyped node _ => "expression `" ++ node ++ "` has no resolved type"
  | mixedDomains _ => "specification mixes incompatible probability domains"
  | emptySpecification _ => "specification is empty: no accuracy, time or space clause"
  | noStatistic _ =>
    "accuracy clause contains no probability, expectation or approximate comparison"

/-- What is worth knowing besides the message. -/
def notes : SpecError → List String
  | notIterable .. => ["only lists can be quantified over"]
  | notIndexable .. => ["only lists and maps support lookup"]
  | operandMismatch .. => ["arithmetic requires both operands to have the same shape"]
  | mixedDomains _ =>
    ["a specification may quantify over inputs, runs or items, but only one of them"]
  | noStatistic _ =>
    ["without a statistic the clause cannot be tied to inputs, runs or items"]
  | _ => []

/-- What to do about a defect. -/
def help : SpecError → Option String
  | missingDeclaration name _ =>
    some ("add a declaration such as `" ++ name ++ " real;`")
  | unsupportedTest .. =>
    some "use `==` for a two-sided test, or `<`/`>` in a plain boolean context"
  | mixedDomains _ => some "split the clause into separate specifications"
  | emptySpecification _ =>
    some "add an `ACC`, `TIME` or `SPACE` clause to the specification"
  | noStatistic _ =>
    some "state the clause as a probability or expectation over inputs, runs or items"
  | _ => none

end SpecError

end StatContract
