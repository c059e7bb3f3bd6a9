import StatContract.Lowering.Context
import StatContract.Lowering.Library
import StatContract.Spec.Printer

/-!
# Lowering terms

A term becomes one expression and no statement, so lowering reads the state
and leaves it alone. Statistics have no expression of their own: they are
lowered with the comparison they stand in.
-/

namespace StatContract

namespace Term

/-- The recorded type of a term. -/
def requireType (t : Term) : Except SpecError ValueType :=
  match t.ty with
  | some ty => .ok ty
  | none => .error (.untyped t.text t.span)

/-- A lookup in a collection of the given type. -/
def lookupCode (collection : Term) (ty : ValueType) (c k : Code) : Except SpecError Code :=
  match ty with
  | .sequence _ => .ok (.item c k)
  | .map _ _ => .ok (.getOrZero c k)
  | other => .error (.notIndexable collection.text other collection.span)

mutual

/-- The expression for a term. -/
def lower (ctx : Context) : Term → Except SpecError Code
  | constant _ value => .ok (.verbatim value)
  | t@(probability ..) | t@(probabilityOverItems ..) | t@(expectation ..)
  | t@(expectationOverItems ..) => .error (.misplacedStatistic t.text t.span)
  | lookup _ collection key => do
    let c ← lower ctx collection
    let k ← lower ctx key
    let ty ← collection.requireType
    lookupCode collection ty c k
  | identifier _ name => .ok (ctx.resolve name).code
  | tuple _ elements => do
    let items ← lowerList ctx elements
    return .list items
  | binary note lhs op rhs => do
    let lhsTy ← lhs.requireType
    let rhsTy ← rhs.requireType
    let node := (binary note lhs op rhs).text
    if lhsTy ≠ rhsTy then
      throw (.operandMismatch node lhsTy rhsTy note.span)
    let a ← lower ctx lhs
    let b ← lower ctx rhs
    if lhsTy.isMatrix then
      match op.matrixFunction? with
      | some f => return .apply f [a, b]
      | none => throw (.unsupportedMatrixOp op node note.span)
    else return .group a (.arith op) b
  | sizeOf _ collection => do
    let c ← lower ctx collection
    return .len c
  | call _ name args => do
    let args ← lowerList ctx args
    return .apply name args

/-- The expressions for several terms. -/
def lowerList (ctx : Context) : List Term → Except SpecError (List Code)
  | [] => .ok []
  | t :: ts => do
    let c ← lower ctx t
    let cs ← lowerList ctx ts
    return c :: cs

end

end Term

/-- Lowers a term in the current state. -/
def Lower.term (t : Term) : Lower Code := do
  MonadExcept.ofExcept (t.lower (← get))

end StatContract
