import StatContract.Spec.Nodes

/-!
# Free names and binders

The names that a clause reads from its surroundings, and the names that its
lets and ranges bind. A let binds its name in its body only, a range in the
later ranges and in the body.
-/

namespace StatContract

mutual

/-- The names that a clause reads from outside, as identifiers or as names of
calls. -/
def Clause.freeNames : Clause → List String
  | .forAll _ ranges body => Range.freeNamesOfAll ranges body.freeNames
  | .letIn _ name value body => value.freeNames ++ body.freeNames.filter (· != name)
  | .membership _ item collection => item.freeNames ++ collection.freeNames
  | .approx _ lhs rhs => lhs.freeNames ++ rhs.freeNames
  | .compare _ lhs _ rhs => lhs.freeNames ++ rhs.freeNames
  | .logic _ lhs _ rhs => lhs.freeNames ++ rhs.freeNames
  | .not _ inner => inner.freeNames

/-- The names that a term reads from outside. -/
def Term.freeNames : Term → List String
  | .constant .. => []
  | .probability _ _ body => body.freeNames
  | .probabilityOverItems _ ranges body => Range.freeNamesOfAll ranges body.freeNames
  | .expectation _ _ body => body.freeNames
  | .expectationOverItems _ ranges body => Range.freeNamesOfAll ranges body.freeNames
  | .lookup _ collection key => collection.freeNames ++ key.freeNames
  | .identifier _ name => [name]
  | .tuple _ elements => Term.freeNamesOfAll elements
  | .binary _ lhs _ rhs => lhs.freeNames ++ rhs.freeNames
  | .sizeOf _ collection => collection.freeNames
  | .call _ name args => name :: Term.freeNamesOfAll args

/-- The names that ranges and what they are around read from outside. -/
def Range.freeNamesOfAll : List Range → List String → List String
  | [], inner => inner
  | .mk _ var collection _ :: rest, inner =>
    collection.freeNames ++ (Range.freeNamesOfAll rest inner).filter (· != var)

/-- The names that several terms read from outside. -/
def Term.freeNamesOfAll : List Term → List String
  | [] => []
  | t :: rest => t.freeNames ++ Term.freeNamesOfAll rest

end

/-- The name that a node binds. -/
def Node.binder? : Node → Option String
  | .clause (.letIn _ name _ _) => some name
  | .range (.mk _ var _ _) => some var
  | _ => none

/-- The names bound in a clause, once for each let and each range. -/
def Clause.binders (c : Clause) : List String := c.nodes.filterMap Node.binder?

/-- The names bound in a term. -/
def Term.binders (t : Term) : List String := t.nodes.filterMap Node.binder?

/-- The names bound by ranges and in their collections. -/
def Range.bindersOfAll (ranges : List Range) : List String :=
  (Range.nodesOfAll ranges).filterMap Node.binder?

/-- The names bound in several terms. -/
def Term.bindersOfAll (ts : List Term) : List String :=
  (Term.nodesOfAll ts).filterMap Node.binder?

@[simp] theorem Clause.binders_forAll (span : Span) (ranges : List Range) (body : Clause) :
    (Clause.forAll span ranges body).binders = Range.bindersOfAll ranges ++ body.binders :=
  List.filterMap_append

@[simp] theorem Clause.binders_letIn (span : Span) (name : String) (value : Term)
    (body : Clause) :
    (Clause.letIn span name value body).binders = name :: (value.binders ++ body.binders) :=
  congrArg (name :: ·) List.filterMap_append

@[simp] theorem Clause.binders_membership (span : Span) (item collection : Term) :
    (Clause.membership span item collection).binders = item.binders ++ collection.binders :=
  List.filterMap_append

@[simp] theorem Clause.binders_approx (span : Span) (lhs rhs : Term) :
    (Clause.approx span lhs rhs).binders = lhs.binders ++ rhs.binders :=
  List.filterMap_append

@[simp] theorem Clause.binders_compare (span : Span) (lhs : Term) (op : CmpOp) (rhs : Term) :
    (Clause.compare span lhs op rhs).binders = lhs.binders ++ rhs.binders :=
  List.filterMap_append

@[simp] theorem Clause.binders_logic (span : Span) (lhs : Clause) (op : LogicOp) (rhs : Clause) :
    (Clause.logic span lhs op rhs).binders = lhs.binders ++ rhs.binders :=
  List.filterMap_append

@[simp] theorem Clause.binders_not (span : Span) (inner : Clause) :
    (Clause.not span inner).binders = inner.binders := rfl

@[simp] theorem Term.binders_probability (note : Note) (trials : Trials) (body : Clause) :
    (Term.probability note trials body).binders = body.binders := rfl

@[simp] theorem Term.binders_probabilityOverItems (note : Note) (ranges : List Range)
    (body : Clause) :
    (Term.probabilityOverItems note ranges body).binders =
      Range.bindersOfAll ranges ++ body.binders :=
  List.filterMap_append

@[simp] theorem Term.binders_expectation (note : Note) (trials : Trials) (body : Term) :
    (Term.expectation note trials body).binders = body.binders := rfl

@[simp] theorem Term.binders_expectationOverItems (note : Note) (ranges : List Range)
    (body : Term) :
    (Term.expectationOverItems note ranges body).binders =
      Range.bindersOfAll ranges ++ body.binders :=
  List.filterMap_append

@[simp] theorem Term.binders_sizeOf (note : Note) (collection : Term) :
    (Term.sizeOf note collection).binders = collection.binders := rfl

@[simp] theorem Term.binders_binary (note : Note) (lhs : Term) (op : ArithOp) (rhs : Term) :
    (Term.binary note lhs op rhs).binders = lhs.binders ++ rhs.binders :=
  List.filterMap_append

@[simp] theorem Term.binders_lookup (note : Note) (collection key : Term) :
    (Term.lookup note collection key).binders = collection.binders ++ key.binders :=
  List.filterMap_append

@[simp] theorem Term.binders_tuple (note : Note) (elements : List Term) :
    (Term.tuple note elements).binders = Term.bindersOfAll elements := rfl

@[simp] theorem Term.binders_call (note : Note) (name : String) (args : List Term) :
    (Term.call note name args).binders = Term.bindersOfAll args := rfl

@[simp] theorem Term.bindersOfAll_cons (t : Term) (rest : List Term) :
    Term.bindersOfAll (t :: rest) = t.binders ++ Term.bindersOfAll rest :=
  List.filterMap_append

@[simp] theorem Range.bindersOfAll_cons (span : Span) (var : String) (collection : Term)
    (mode : RangeMode) (rest : List Range) :
    Range.bindersOfAll (.mk span var collection mode :: rest) =
      var :: (collection.binders ++ Range.bindersOfAll rest) :=
  congrArg (var :: ·) List.filterMap_append

end StatContract
