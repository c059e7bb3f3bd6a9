import StatContract.SpecError
import StatContract.Spec.Domain
import StatContract.Spec.Printer
import StatContract.Typing.Env

/-!
# Type analysis

The analysis fills the type slot of every term and checks what the types have
to satisfy. It goes through a specification once, accuracy before time before
space, operands before the node they belong to, and it stops at the first
defect. The tree is handed back in either case: after a defect it holds the
types that were found before it.

The whole analysis works on one environment. A node that binds names enters a
scope, defines the names in it, and leaves it after its body. A defect ends the
analysis where it is found, inside of the scopes that are open there.
-/

namespace StatContract

/-- The annotation with a type filled in. -/
def Note.typed (n : Note) (ty : ValueType) : Note := { n with ty := some ty }

/-- The type that a range gives to its variable, from the type of the elements
it runs through. -/
def RangeMode.varType (mode : RangeMode) (element : ValueType) : ValueType :=
  match mode with
  | indices => .scalar
  | elements | uniqueElements => element

/-- A step of the analysis, which works on the environment. -/
abbrev Typing : Type → Type := StateM TypeEnv

mutual

/-- Checks a clause. -/
def Clause.typecheck : Clause → Typing (Clause × Except SpecError Unit)
  | .forAll span ranges body => do
    modify TypeEnv.push
    match ← Range.typecheckList ranges with
    | (ranges, .error e) => return (.forAll span ranges body, .error e)
    | (ranges, .ok _) =>
      match ← body.typecheck with
      | (body, .error e) => return (.forAll span ranges body, .error e)
      | (body, .ok _) =>
        modify TypeEnv.pop
        return (.forAll span ranges body, .ok ())
  | .letIn span name value body => do
    match ← value.typecheck with
    | (value, .error e) => return (.letIn span name value body, .error e)
    | (value, .ok ty) =>
      modify TypeEnv.push
      modify (·.define name ty)
      match ← body.typecheck with
      | (body, .error e) => return (.letIn span name value body, .error e)
      | (body, .ok _) =>
        modify TypeEnv.pop
        return (.letIn span name value body, .ok ())
  | .membership span item collection => do
    match ← item.typecheck with
    | (item, .error e) => return (.membership span item collection, .error e)
    | (item, .ok _) =>
      let (collection, result) ← collection.typecheck
      return (.membership span item collection, result.map fun _ => ())
  | .approx span lhs rhs => do
    if lhs.isIdentifier outputName then
      match ← lhs.typecheck with
      | (lhs, .error e) => return (.approx span lhs rhs, .error e)
      | (lhs, .ok _) =>
        let (rhs, result) ← rhs.typecheck
        return (.approx span lhs rhs, result.map fun _ => ())
    else return (.approx span lhs rhs, .error (.approxTarget lhs.text lhs.span))
  | .compare span lhs op rhs => do
    match ← lhs.typecheck with
    | (lhs, .error e) => return (.compare span lhs op rhs, .error e)
    | (lhs, .ok _) =>
      let (rhs, result) ← rhs.typecheck
      return (.compare span lhs op rhs, result.map fun _ => ())
  | .logic span lhs op rhs => do
    match ← lhs.typecheck with
    | (lhs, .error e) => return (.logic span lhs op rhs, .error e)
    | (lhs, .ok _) =>
      let (rhs, result) ← rhs.typecheck
      return (.logic span lhs op rhs, result)
  | .not span inner => do
    let (inner, result) ← inner.typecheck
    return (.not span inner, result)

/-- Checks a term and gives its type. -/
def Term.typecheck : Term → Typing (Term × Except SpecError ValueType)
  | .constant note value => return (.constant (note.typed .scalar) value, .ok .scalar)
  | .probability note trials body => do
    match ← body.typecheck with
    | (body, .error e) => return (.probability note trials body, .error e)
    | (body, .ok _) => return (.probability (note.typed .scalar) trials body, .ok .scalar)
  | .probabilityOverItems note ranges body => do
    modify TypeEnv.push
    match ← Range.typecheckList ranges with
    | (ranges, .error e) => return (.probabilityOverItems note ranges body, .error e)
    | (ranges, .ok _) =>
      match ← body.typecheck with
      | (body, .error e) => return (.probabilityOverItems note ranges body, .error e)
      | (body, .ok _) =>
        modify TypeEnv.pop
        return (.probabilityOverItems (note.typed .scalar) ranges body, .ok .scalar)
  | .expectation note trials body => do
    match ← body.typecheck with
    | (body, .error e) => return (.expectation note trials body, .error e)
    | (body, .ok _) => return (.expectation (note.typed .scalar) trials body, .ok .scalar)
  | .expectationOverItems note ranges body => do
    modify TypeEnv.push
    match ← Range.typecheckList ranges with
    | (ranges, .error e) => return (.expectationOverItems note ranges body, .error e)
    | (ranges, .ok _) =>
      match ← body.typecheck with
      | (body, .error e) => return (.expectationOverItems note ranges body, .error e)
      | (body, .ok _) =>
        modify TypeEnv.pop
        return (.expectationOverItems (note.typed .scalar) ranges body, .ok .scalar)
  | .lookup note collection key => do
    match ← collection.typecheck with
    | (collection, .error e) => return (.lookup note collection key, .error e)
    | (collection, .ok ty) =>
      match ← key.typecheck with
      | (key, .error e) => return (.lookup note collection key, .error e)
      | (key, .ok _) =>
        match ty.entry? with
        | some entry => return (.lookup (note.typed entry) collection key, .ok entry)
        | none =>
          return (.lookup note collection key,
            .error (.notIndexable collection.text ty collection.span))
  | .identifier note name => do
    let ty := (← get).typeOf name
    return (.identifier (note.typed ty) name, .ok ty)
  | .tuple note elements => do
    match ← Term.typecheckList elements with
    | (elements, .error e) => return (.tuple note elements, .error e)
    | (elements, .ok types) =>
      -- The first element decides; the others are not compared with it.
      let ty := ValueType.sequence (types.headD .scalar)
      return (.tuple (note.typed ty) elements, .ok ty)
  | .binary note lhs op rhs => do
    match ← lhs.typecheck with
    | (lhs, .error e) => return (.binary note lhs op rhs, .error e)
    | (lhs, .ok lhsTy) =>
      match ← rhs.typecheck with
      | (rhs, .error e) => return (.binary note lhs op rhs, .error e)
      | (rhs, .ok rhsTy) =>
        if lhsTy = rhsTy then return (.binary (note.typed lhsTy) lhs op rhs, .ok lhsTy)
        else
          return (.binary note lhs op rhs,
            .error (.operandMismatch (lhs.text ++ " " ++ op.symbol ++ " " ++ rhs.text)
              lhsTy rhsTy (lhs.span.merge rhs.span)))
  | .sizeOf note collection => do
    match ← collection.typecheck with
    | (collection, .error e) => return (.sizeOf note collection, .error e)
    | (collection, .ok _) => return (.sizeOf (note.typed .scalar) collection, .ok .scalar)
  | .call note name args => do
    match ← Term.typecheckList args with
    | (args, .error e) => return (.call note name args, .error e)
    | (args, .ok _) =>
      let ty := (← get).typeOf name
      return (.call (note.typed ty) name args, .ok ty)

/-- Checks ranges in order and defines their variables in the innermost scope, so
that each is visible in the ranges after its own. -/
def Range.typecheckList : List Range → Typing (List Range × Except SpecError Unit)
  | [] => return ([], .ok ())
  | .mk span var collection mode :: rest => do
    match ← collection.typecheck with
    | (collection, .error e) => return (.mk span var collection mode :: rest, .error e)
    | (collection, .ok ty) =>
      match ty.element? with
      | none =>
        return (.mk span var collection mode :: rest,
          .error (.notIterable collection.text ty collection.span))
      | some element =>
        modify (·.define var (mode.varType element))
        let (rest, result) ← Range.typecheckList rest
        return (.mk span var collection mode :: rest, result)

/-- Checks terms from left to right and gives their types. -/
def Term.typecheckList : List Term → Typing (List Term × Except SpecError (List ValueType))
  | [] => return ([], .ok [])
  | t :: rest => do
    match ← t.typecheck with
    | (t, .error e) => return (t :: rest, .error e)
    | (t, .ok ty) =>
      let (rest, result) ← Term.typecheckList rest
      return (t :: rest, result.map (ty :: ·))

end

namespace Specification

/-- The first of the names every specification declares that this one does
not. -/
def missingDeclaration? (spec : Specification) : Option String :=
  [outputName, inputName].find? fun name => !spec.decls.any (·.name == name)

/-- The environment of the declarations. Of several declarations of one name
the last counts. -/
def env (spec : Specification) : TypeEnv :=
  spec.decls.foldl (fun env d => env.define d.name d.ty) {}

/-- Checks the contracts in turn. Each starts in the environment that the one
before it leaves. -/
def typecheck (spec : Specification) : Typing (Specification × Except SpecError Domain) := do
  match ← typecheckPart Clause.typecheck spec.accuracy with
  | (accuracy, .error e) => return ({ spec with accuracy }, .error e)
  | (accuracy, .ok _) =>
    match ← typecheckPart Term.typecheck spec.time with
    | (time, .error e) => return ({ spec with accuracy, time }, .error e)
    | (time, .ok _) =>
      match ← typecheckPart Term.typecheck spec.space with
      | (space, .error e) => return ({ spec with accuracy, time, space }, .error e)
      | (space, .ok _) => return ({ spec with accuracy, time, space }, .ok spec.domain)
where
  /-- Checks a contract that may be absent. -/
  typecheckPart {α β : Type} (typecheck : α → Typing (α × Except SpecError β)) :
      Option α → Typing (Option α × Except SpecError Unit)
    | none => return (none, .ok ())
    | some part => do
      let (part, result) ← typecheck part
      return (some part, result.map fun _ => ())

/-- Analyses a specification: its declarations, then its contracts. -/
def analyze (spec : Specification) : Specification × Except SpecError Domain :=
  match spec.missingDeclaration? with
  | some name => (spec, .error (.missingDeclaration name spec.span))
  | none => (spec.typecheck spec.env).1

end Specification

end StatContract
