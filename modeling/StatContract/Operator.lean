/-!
# Operators of the specification language

Each operator has one written form, `symbol`, shared by the specification
printer, the serialized tree and the generated code.
-/

namespace StatContract

/-- Comparisons between two data expressions. -/
inductive CmpOp where
  | eq | ne | lt | le | gt | ge
  deriving DecidableEq, Repr, Inhabited

/-- Arithmetic between two data expressions of one type. -/
inductive ArithOp where
  | add | sub | mul | div | pow
  deriving DecidableEq, Repr, Inhabited

/-- Connectives between two clauses. -/
inductive LogicOp where
  | and | or
  deriving DecidableEq, Repr, Inhabited

/-- What a quantified variable runs through: the elements of a list, its
distinct elements, or its indices. -/
inductive RangeMode where
  | elements | uniqueElements | indices
  deriving DecidableEq, Repr, Inhabited

/-- What the trials of a probability or expectation are: the inputs of a
configuration or the runs of one input. -/
inductive Trials where
  | inputs | runs
  deriving DecidableEq, Repr, Inhabited

/-- The written form of a comparison. -/
def CmpOp.symbol : CmpOp → String
  | eq => "=="
  | ne => "!="
  | lt => "<"
  | le => "<="
  | gt => ">"
  | ge => ">="

/-- The written form of an arithmetic operator. -/
def ArithOp.symbol : ArithOp → String
  | add => "+"
  | sub => "-"
  | mul => "*"
  | div => "/"
  | pow => "**"

/-- The written form of a connective. -/
def LogicOp.symbol : LogicOp → String
  | and => "and"
  | or => "or"

/-- The spelling of a range mode in the serialized tree. -/
def RangeMode.slug : RangeMode → String
  | elements => "elements"
  | uniqueElements => "unique_elements"
  | indices => "indices"

/-- The word for a kind of trial in the specification language. -/
def Trials.text : Trials → String
  | inputs => "inputs"
  | runs => "runs"

/-- All comparisons, in the order in which messages list them. -/
def CmpOp.all : List CmpOp := [eq, ne, lt, le, gt, ge]

/-- All arithmetic operators, in the order in which messages list them. -/
def ArithOp.all : List ArithOp := [add, sub, mul, div, pow]

/-- All connectives, in the order in which messages list them. -/
def LogicOp.all : List LogicOp := [and, or]

/-- All range modes, in the order in which messages list them. -/
def RangeMode.all : List RangeMode := [elements, uniqueElements, indices]

end StatContract
