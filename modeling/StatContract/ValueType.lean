/-!
# Value types

The four shapes of data a specification can talk about. There are no type
variables and no subtyping, so two types agree exactly when they are equal.
-/

namespace StatContract

/-- The shape of a piece of data. -/
inductive ValueType where
  | scalar
  | matrix
  | sequence (element : ValueType)
  | map (key value : ValueType)
  deriving DecidableEq, Repr, Inhabited

namespace ValueType

/-- The wording used in messages. Lists and maps are written without
brackets. -/
def text : ValueType → String
  | scalar => "real"
  | matrix => "matrix"
  | sequence element => "list of " ++ element.text
  | map key value => "map from " ++ key.text ++ " to " ++ value.text

/-- Whether the type is a list type. -/
def isSequence : ValueType → Bool
  | sequence _ => true
  | _ => false

/-- Whether the type is the matrix type. -/
def isMatrix : ValueType → Bool
  | matrix => true
  | _ => false

/-- The type of the elements of a list type. -/
def element? : ValueType → Option ValueType
  | sequence element => some element
  | _ => none

/-- The type of what a lookup in a value of this type gives. -/
def entry? : ValueType → Option ValueType
  | sequence element => some element
  | map _ value => some value
  | _ => none

@[simp] theorem element?_eq_some_iff (t e : ValueType) :
    t.element? = some e ↔ t = sequence e := by
  cases t <;> simp [element?]

@[simp] theorem isSequence_eq_true_iff (t : ValueType) :
    t.isSequence = true ↔ ∃ e, t = sequence e := by
  cases t <;> simp [isSequence]

@[simp] theorem isMatrix_eq_true_iff (t : ValueType) :
    t.isMatrix = true ↔ t = matrix := by
  cases t <;> simp [isMatrix]

end ValueType

end StatContract
