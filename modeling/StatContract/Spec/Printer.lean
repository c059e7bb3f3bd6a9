import StatContract.Spec.Basic

/-!
# Specification syntax

Clauses and terms as they are written in the specification language. The text
is used to quote a node in messages, so spans and types leave no trace in it.
Connectives and arithmetic are bracketed; binders, negation and comparisons
are not.
-/

namespace StatContract

mutual

/-- A clause in specification syntax. -/
def Clause.text : Clause → String
  | .forAll _ ranges body =>
    "forall " ++ ", ".intercalate (Range.texts ranges) ++ " : " ++ body.text
  | .letIn _ name value body =>
    "let " ++ name ++ " = " ++ value.text ++ " in " ++ body.text
  | .membership _ item collection => item.text ++ " in " ++ collection.text
  | .approx _ lhs rhs => lhs.text ++ " ~ " ++ rhs.text
  | .compare _ lhs op rhs => lhs.text ++ " " ++ op.symbol ++ " " ++ rhs.text
  | .logic _ lhs op rhs =>
    "(" ++ lhs.text ++ " " ++ op.symbol ++ " " ++ rhs.text ++ ")"
  | .not _ inner => "not " ++ inner.text

/-- A term in specification syntax. -/
def Term.text : Term → String
  | .constant _ value => value
  | .probability _ trials body =>
    "Probability over " ++ trials.text ++ " [" ++ body.text ++ "]"
  | .probabilityOverItems _ ranges body =>
    "Probability over " ++ ", ".intercalate (Range.texts ranges) ++ " ["
      ++ body.text ++ "]"
  | .expectation _ trials body =>
    "Expectation over " ++ trials.text ++ " [" ++ body.text ++ "]"
  | .expectationOverItems _ ranges body =>
    "Expectation over " ++ ", ".intercalate (Range.texts ranges) ++ " ["
      ++ body.text ++ "]"
  | .lookup _ collection key => collection.text ++ "[" ++ key.text ++ "]"
  | .identifier _ name => name
  | .tuple _ elements => "(" ++ ", ".intercalate (Term.texts elements) ++ ")"
  | .binary _ lhs op rhs =>
    "(" ++ lhs.text ++ " " ++ op.symbol ++ " " ++ rhs.text ++ ")"
  | .sizeOf _ collection => "size(" ++ collection.text ++ ")"
  | .call _ name args => name ++ "(" ++ ", ".intercalate (Term.texts args) ++ ")"

/-- A range in specification syntax. -/
def Range.text : Range → String
  | .mk _ var collection .elements => var ++ " in " ++ collection.text
  | .mk _ var collection .uniqueElements =>
    var ++ " in uniques(" ++ collection.text ++ ")"
  | .mk _ var collection .indices =>
    var ++ " in indices(" ++ collection.text ++ ")"

/-- The texts of several ranges. -/
def Range.texts : List Range → List String
  | [] => []
  | r :: rs => r.text :: Range.texts rs

/-- The texts of several terms. -/
def Term.texts : List Term → List String
  | [] => []
  | t :: ts => t.text :: Term.texts ts

end

@[simp] theorem Range.texts_eq_map (rs : List Range) :
    Range.texts rs = rs.map Range.text := by
  induction rs with
  | nil => rfl
  | cons r rs ih => simp [Range.texts, ih]

@[simp] theorem Term.texts_eq_map (ts : List Term) :
    Term.texts ts = ts.map Term.text := by
  induction ts with
  | nil => rfl
  | cons t ts ih => simp [Term.texts, ih]

end StatContract
