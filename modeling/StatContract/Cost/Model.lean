import StatContract.SpecError
import StatContract.Code.Expr
import StatContract.Decimal.Reader
import StatContract.Spec.Printer

/-!
# Cost models

A time or space contract states a cost up to constant factors. Its model is an
expression with free coefficients `p0`, `p1`, … that the harness fits to its
measurements. Every name in the cost gets a factor and an offset, products,
quotients, powers and calls get an offset too, and a power with a literal
exponent becomes a full polynomial. The names themselves are entries of the
measured configuration `Cfg`, numbered in the order of their first use.
-/

namespace StatContract

/-- A model of a cost: its expression, the number of its coefficients, and the
names that the entries of the configuration stand for. -/
structure CostModel where
  body : Code
  coefficients : Nat
  inputs : List String

namespace CostModel

/-- The name of a coefficient. -/
def coefficientName (i : Nat) : String := "p" ++ toString i

/-- The parameters of the model as a function. -/
def params (m : CostModel) : List String :=
  "Cfg" :: (List.range m.coefficients).map coefficientName

/-- The highest exponent that becomes a polynomial. -/
def maxDegree : Nat := 16

/-- What a model has used up so far. -/
structure Usage where
  coefficients : Nat := 0
  inputs : List String := []

/-- A step of building a model. -/
abbrev Build := StateT Usage (Except SpecError)

/-- Takes the next `n` coefficients and gives the number of the first. -/
def take (n : Nat) : Build Nat := do
  let u ← get
  set { u with coefficients := u.coefficients + n }
  return u.coefficients

/-- The number of a name among the inputs, which it joins when it is new. -/
def inputIndex (name : String) : Build Nat := do
  let u ← get
  match u.inputs.idxOf? name with
  | some i => return i
  | none =>
    set { u with inputs := u.inputs ++ [name] }
    return u.inputs.length

/-- A coefficient in the model. -/
def coefficient (i : Nat) : Code := .name (coefficientName i)

/-- An entry of the configuration in the model. -/
def input (i : Nat) : Code := .item (.name "Cfg") (.nat i)

/-- A sum. -/
def plus (a b : Code) : Code := .binary a (.arith .add) b

/-- A product. -/
def times (a b : Code) : Code := .binary a (.arith .mul) b

/-- A measured quantity with a factor and an offset. -/
def affine (quantity : Code) : Build Code := do
  let p ← take 2
  return .paren (plus (times (coefficient p) quantity) (coefficient (p + 1)))

/-- The exponent of a power, when it is a literal natural number. -/
def literalExponent? : Term → Option Nat
  | .constant _ value => Decimal.readWord? (Text.trim value.toList)
  | _ => none

/-- The polynomial of degree `n` in a quantity, with the coefficients from `p`
on: the constant term first, then falling powers. -/
def polynomial (quantity : Code) (n p : Nat) : Code :=
  .paren <| (List.range n).foldl
    (fun sum k =>
      plus sum (times (coefficient (p + 1 + k))
        (.binary quantity (.arith .pow) (.nat (n - k)))))
    (coefficient p)

/-- Refuses a cost. -/
def unsupported {α : Type} (t : Term) : Build α := throw (.unsupportedCost t.text t.span)

mutual

/-- The model of a part of a cost. Literals are kept. -/
def ofPart : Term → Build Code
  | .constant _ value => return .verbatim value
  | .identifier _ name => do
    let i ← inputIndex name
    affine (input i)
  | .sizeOf note collection =>
    match collection with
    | .identifier _ name => do
      let i ← inputIndex name
      affine (.len (input i))
    | collection => unsupported (.sizeOf note collection)
  | .binary note lhs op rhs =>
    let exponent := if op = .pow then literalExponent? rhs else none
    match exponent with
    | some 0 => return .nat 1
    | some 1 => ofPart lhs
    | some n =>
      if n > maxDegree then unsupported (.binary note lhs op rhs)
      else do
        let base ← ofPart lhs
        let p ← take (n + 1)
        return polynomial base n p
    | none => do
      let a ← ofPart lhs
      let b ← ofPart rhs
      match op with
      | .add | .sub => return .group a (.arith op) b
      | .mul | .div =>
        let p ← take 1
        return .paren (plus (.binary a (.arith op) b) (coefficient p))
      | .pow =>
        let p ← take 2
        return .paren (plus (times (.group a (.arith .pow) b) (coefficient p))
          (coefficient (p + 1)))
  | .call _ name args => do
    let args ← ofParts args
    let p ← take 2
    return .paren (plus (times (.apply name args) (coefficient p)) (coefficient (p + 1)))
  | t => unsupported t

/-- The models of several parts, from left to right. -/
def ofParts : List Term → Build (List Code)
  | [] => return []
  | t :: ts => do
    let c ← ofPart t
    let cs ← ofParts ts
    return c :: cs

end

/-- The expression of the model of a cost. A cost that is a literal is an
unknown constant. -/
def ofCost : Term → Build Code
  | .constant _ _ => do return coefficient (← take 1)
  | t => ofPart t

/-- The model of a cost. -/
def synthesize (cost : Term) : Except SpecError CostModel := do
  let (code, usage) ← (ofCost cost).run {}
  return ⟨code, usage.coefficients, usage.inputs⟩

end CostModel

end StatContract
