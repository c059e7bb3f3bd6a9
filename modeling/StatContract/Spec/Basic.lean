import StatContract.Span
import StatContract.ValueType
import StatContract.Operator

/-!
# The specification tree

A specification declares the names it talks about and states up to three
contracts: an accuracy clause, a time cost and a space cost. Clauses
(`Clause`) are the boolean part, terms (`Term`) the data part, and ranges
(`Range`) bind the variables of quantifiers.

Every node carries the span it was read from. A term also carries a slot for
its type, empty in a tree that was just read and filled by the analysis. The
two are kept together in a `Note`, so that the constructors stay readable and
a change of annotation is a change of one field.
-/

namespace StatContract

/-- What is recorded at a term besides its meaning: where it was read, and its
type once the analysis has found it. -/
structure Note where
  span : Span := Span.dummy
  ty : Option ValueType := none
  deriving DecidableEq, Repr, Inhabited

mutual

/-- A boolean statement about the program under test. -/
inductive Clause where
  /-- The body holds for every choice of the range variables. -/
  | forAll (span : Span) (ranges : List Range) (body : Clause)
  /-- The body, with a name for the value of a term. -/
  | letIn (span : Span) (name : String) (value : Term) (body : Clause)
  /-- The item occurs in the collection. -/
  | membership (span : Span) (item collection : Term)
  /-- The samples on the left are distributed around the right side. -/
  | approx (span : Span) (lhs rhs : Term)
  | compare (span : Span) (lhs : Term) (op : CmpOp) (rhs : Term)
  | logic (span : Span) (lhs : Clause) (op : LogicOp) (rhs : Clause)
  | not (span : Span) (inner : Clause)

/-- A data expression. The four statistics come first after literals. -/
inductive Term where
  | constant (note : Note) (value : String)
  /-- The share of the trials in which the body holds. -/
  | probability (note : Note) (trials : Trials) (body : Clause)
  /-- The share of the items for which the body holds. -/
  | probabilityOverItems (note : Note) (ranges : List Range) (body : Clause)
  /-- The mean over the trials. -/
  | expectation (note : Note) (trials : Trials) (body : Term)
  /-- The mean over the items. -/
  | expectationOverItems (note : Note) (ranges : List Range) (body : Term)
  | lookup (note : Note) (collection key : Term)
  | identifier (note : Note) (name : String)
  | tuple (note : Note) (elements : List Term)
  | binary (note : Note) (lhs : Term) (op : ArithOp) (rhs : Term)
  | sizeOf (note : Note) (collection : Term)
  | call (note : Note) (name : String) (args : List Term)

/-- A variable and the collection it runs through. -/
inductive Range where
  | mk (span : Span) (var : String) (collection : Term) (mode : RangeMode)

end

instance : Inhabited Term := ⟨.constant {} ""⟩
instance : Inhabited Clause := ⟨.membership Span.dummy default default⟩
instance : Inhabited Range := ⟨.mk Span.dummy "" default .elements⟩

/-- The name of the measured output of the program under test. -/
def outputName : String := "Output"

/-- The name of the input of the program under test. -/
def inputName : String := "Input"

namespace Clause

/-- Where the clause was read. -/
def span : Clause → Span
  | forAll s _ _ | letIn s _ _ _ | membership s _ _ | approx s _ _
  | compare s _ _ _ | logic s _ _ _ | not s _ => s

end Clause

namespace Term

/-- The annotation of a term. -/
def note : Term → Note
  | constant n _ | probability n _ _ | probabilityOverItems n _ _
  | expectation n _ _ | expectationOverItems n _ _ | lookup n _ _
  | identifier n _ | tuple n _ | binary n _ _ _ | sizeOf n _
  | call n _ _ => n

/-- Where the term was read. -/
def span (t : Term) : Span := t.note.span

/-- The type the analysis recorded, if any. -/
def ty (t : Term) : Option ValueType := t.note.ty

/-- The name of a term that is just a name. -/
def asIdentifier : Term → Option String
  | identifier _ name => some name
  | _ => none

/-- Whether the term is just the given name. -/
def isIdentifier (t : Term) (name : String) : Bool :=
  t.asIdentifier == some name

/-- Whether the term is a probability or an expectation. -/
def isStatistic : Term → Bool
  | probability .. | probabilityOverItems .. | expectation ..
  | expectationOverItems .. => true
  | _ => false

end Term

namespace Range

def span : Range → Span
  | mk s _ _ _ => s

def var : Range → String
  | mk _ v _ _ => v

def collection : Range → Term
  | mk _ _ c _ => c

def mode : Range → RangeMode
  | mk _ _ _ m => m

end Range

/-- A name with its type. -/
structure Decl where
  name : String
  ty : ValueType
  span : Span := Span.dummy
  deriving DecidableEq, Repr, Inhabited

/-- The declarations and contracts of one program. -/
structure Specification where
  decls : List Decl
  accuracy : Option Clause := none
  time : Option Term := none
  space : Option Term := none
  span : Span := Span.dummy
  deriving Inhabited

/-- A specification with the name and the text of the file it was parsed
from, when these are known. -/
structure SpecFile where
  filename : Option String := none
  source : Option String := none
  spec : Specification
  deriving Inhabited

namespace SpecFile

/-- The name shown to the user. -/
def displayName (f : SpecFile) : String := f.filename.getD "<spec>"

/-- The text that the spans point into, empty when it was not kept. -/
def sourceText (f : SpecFile) : String := f.source.getD ""

end SpecFile

end StatContract
