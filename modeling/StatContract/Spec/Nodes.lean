import StatContract.Spec.Basic

/-!
# The nodes of a specification

All nodes of a tree in the order in which they are written: a node before its
parts, a range before its collection, and the ranges of a quantifier before
its body.
-/

namespace StatContract

/-- A node of a specification tree. -/
inductive Node where
  | clause (c : Clause)
  | term (t : Term)
  | range (r : Range)

mutual

/-- The nodes of a clause. -/
def Clause.nodes : Clause → List Node
  | c@(.forAll _ ranges body) => .clause c :: (Range.nodesOfAll ranges ++ body.nodes)
  | c@(.letIn _ _ value body) => .clause c :: (value.nodes ++ body.nodes)
  | c@(.membership _ item collection) => .clause c :: (item.nodes ++ collection.nodes)
  | c@(.approx _ lhs rhs) => .clause c :: (lhs.nodes ++ rhs.nodes)
  | c@(.compare _ lhs _ rhs) => .clause c :: (lhs.nodes ++ rhs.nodes)
  | c@(.logic _ lhs _ rhs) => .clause c :: (lhs.nodes ++ rhs.nodes)
  | c@(.not _ inner) => .clause c :: inner.nodes

/-- The nodes of a term. -/
def Term.nodes : Term → List Node
  | t@(.constant ..) | t@(.identifier ..) => [.term t]
  | t@(.probability _ _ body) => .term t :: body.nodes
  | t@(.probabilityOverItems _ ranges body) =>
    .term t :: (Range.nodesOfAll ranges ++ body.nodes)
  | t@(.expectation _ _ body) => .term t :: body.nodes
  | t@(.expectationOverItems _ ranges body) =>
    .term t :: (Range.nodesOfAll ranges ++ body.nodes)
  | t@(.lookup _ collection key) => .term t :: (collection.nodes ++ key.nodes)
  | t@(.tuple _ elements) => .term t :: Term.nodesOfAll elements
  | t@(.binary _ lhs _ rhs) => .term t :: (lhs.nodes ++ rhs.nodes)
  | t@(.sizeOf _ collection) => .term t :: collection.nodes
  | t@(.call _ _ args) => .term t :: Term.nodesOfAll args

/-- The nodes of several ranges. -/
def Range.nodesOfAll : List Range → List Node
  | [] => []
  | r@(.mk _ _ collection _) :: rest =>
    .range r :: (collection.nodes ++ Range.nodesOfAll rest)

/-- The nodes of several terms. -/
def Term.nodesOfAll : List Term → List Node
  | [] => []
  | t :: rest => t.nodes ++ Term.nodesOfAll rest

end

/-- The nodes of a specification: accuracy, then time, then space. -/
def Specification.nodes (spec : Specification) : List Node :=
  (spec.accuracy.map Clause.nodes).getD [] ++ (spec.time.map Term.nodes).getD []
    ++ (spec.space.map Term.nodes).getD []

/-- The terms of a specification. -/
def Specification.terms (spec : Specification) : List Term :=
  spec.nodes.filterMap fun
    | .term t => some t
    | _ => none

end StatContract
