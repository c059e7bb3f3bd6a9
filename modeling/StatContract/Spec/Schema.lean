import StatContract.Spec.Basic

/-!
# Layout of the serialized tree

In the serialized tree an expression is an object: a member `kind` names its
form, `span` its place, and the other members are the parts of that form. This
module is the one table of kinds, of their parts and of what each part holds;
the writer and the reader both go by it.
-/

namespace StatContract

/-- What a member of an expression object holds. -/
inductive FieldKind where
  | text | clause | term | terms | ranges | cmpOp | arithOp | logicOp | rangeMode | span
  deriving DecidableEq, Repr

/-- The members of an object, in the order in which they are declared. -/
abbrev Schema := List (String × FieldKind)

/-- The forms of a clause. -/
inductive ClauseKind where
  | forAll | letIn | membership | approx | compare | logic | not
  deriving DecidableEq, Repr

namespace ClauseKind

def slug : ClauseKind → String
  | forAll => "for_all"
  | letIn => "let_in"
  | membership => "membership"
  | approx => "approx_eq"
  | compare => "compare"
  | logic => "logic"
  | not => "not"

/-- All forms, in the order in which messages list them. -/
def all : List ClauseKind := [forAll, letIn, membership, approx, compare, logic, not]

def schema : ClauseKind → Schema
  | forAll => [("ranges", .ranges), ("body", .clause)]
  | letIn => [("name", .text), ("value", .term), ("body", .clause)]
  | membership => [("item", .term), ("collection", .term)]
  | approx => [("lhs", .term), ("rhs", .term)]
  | compare => [("lhs", .term), ("op", .cmpOp), ("rhs", .term)]
  | logic => [("lhs", .clause), ("op", .logicOp), ("rhs", .clause)]
  | not => [("inner", .clause)]

end ClauseKind

/-- The forms of a term. -/
inductive TermKind where
  | constant
  | probability (trials : Trials)
  | probabilityOverItems
  | expectation (trials : Trials)
  | expectationOverItems
  | lookup | identifier | tuple | binary | sizeOf | call
  deriving DecidableEq, Repr

namespace TermKind

def slug : TermKind → String
  | constant => "constant"
  | probability .inputs => "probability_over_inputs"
  | probability .runs => "probability_over_runs"
  | probabilityOverItems => "probability_over_items"
  | expectation .inputs => "expectation_over_inputs"
  | expectation .runs => "expectation_over_runs"
  | expectationOverItems => "expectation_over_items"
  | lookup => "lookup"
  | identifier => "identifier"
  | tuple => "tuple"
  | binary => "binary"
  | sizeOf => "size_of"
  | call => "call"

/-- All forms, in the order in which messages list them. -/
def all : List TermKind :=
  [constant, probability .inputs, probability .runs, probabilityOverItems,
   expectation .inputs, expectation .runs, expectationOverItems,
   lookup, identifier, tuple, binary, sizeOf, call]

def schema : TermKind → Schema
  | constant => [("value", .text)]
  | probability _ => [("body", .clause)]
  | probabilityOverItems => [("ranges", .ranges), ("body", .clause)]
  | expectation _ => [("body", .term)]
  | expectationOverItems => [("ranges", .ranges), ("body", .term)]
  | lookup => [("collection", .term), ("key", .term)]
  | identifier => [("name", .text)]
  | tuple => [("elements", .terms)]
  | binary => [("lhs", .term), ("op", .arithOp), ("rhs", .term)]
  | sizeOf => [("collection", .term)]
  | call => [("name", .text), ("args", .terms)]

end TermKind

/-- The members of a range object. -/
def rangeSchema : Schema :=
  [("var", .text), ("collection", .term), ("mode", .rangeMode), ("span", .span)]

/-- The spellings of each comparison. -/
def CmpOp.spellings : List (String × CmpOp) := CmpOp.all.map fun op => (op.symbol, op)

/-- The spellings of each arithmetic operator; a power may also be written
with a caret. -/
def ArithOp.spellings : List (String × ArithOp) :=
  (ArithOp.all.map fun op => (op.symbol, op)) ++ [("^", .pow)]

/-- The spellings of each connective. -/
def LogicOp.spellings : List (String × LogicOp) := LogicOp.all.map fun op => (op.symbol, op)

/-- The spellings of each range mode. -/
def RangeMode.spellings : List (String × RangeMode) := RangeMode.all.map fun m => (m.slug, m)

end StatContract
