import StatContract.ValueType

/-!
# Typing environments

The types of the visible names, as a stack of scopes on top of the scope of
the declarations, which is never left. The innermost scope that knows a name
decides, and in one scope the latest definition.
-/

namespace StatContract

/-- The names of one scope with their types, latest first. -/
abbrev TypeScope := List (String × ValueType)

/-- The visible names: the scopes of enclosing binders, innermost first, and
the scope of the declarations. -/
structure TypeEnv where
  inner : List TypeScope := []
  declared : TypeScope := []
  deriving Repr, Inhabited

namespace TypeEnv

/-- Enters a scope. -/
def push (env : TypeEnv) : TypeEnv := { env with inner := [] :: env.inner }

/-- Leaves the innermost scope; the declarations stay. -/
def pop (env : TypeEnv) : TypeEnv := { env with inner := env.inner.tail }

/-- Gives a name a type in the innermost scope. -/
def define (env : TypeEnv) (name : String) (ty : ValueType) : TypeEnv :=
  match env.inner with
  | [] => { env with declared := (name, ty) :: env.declared }
  | scope :: outer => { env with inner := ((name, ty) :: scope) :: outer }

/-- The type of a name, when it is known. -/
def find? (env : TypeEnv) (name : String) : Option ValueType :=
  (env.inner ++ [env.declared]).findSome? (·.lookup name)

/-- The type of a name. An unknown name is a parameter of the configuration,
and these are scalars. -/
def typeOf (env : TypeEnv) (name : String) : ValueType :=
  (env.find? name).getD .scalar

@[simp] theorem pop_push (env : TypeEnv) : env.push.pop = env := rfl

@[simp] theorem find?_push (env : TypeEnv) (name : String) :
    env.push.find? name = env.find? name := by
  simp [find?, push, List.findSome?_cons]

@[simp] theorem find?_define_self (env : TypeEnv) (name : String) (ty : ValueType) :
    (env.define name ty).find? name = some ty := by
  rcases env with ⟨_ | ⟨scope, outer⟩, declared⟩ <;>
    simp [find?, define]

theorem find?_define_of_ne (env : TypeEnv) (name other : String) (ty : ValueType)
    (h : other ≠ name) : (env.define name ty).find? other = env.find? other := by
  have h' : (other == name) = false := by simpa using h
  rcases env with ⟨_ | ⟨scope, outer⟩, declared⟩ <;>
    simp [find?, define, List.findSome?_cons, List.lookup_cons, h']

end TypeEnv

end StatContract
