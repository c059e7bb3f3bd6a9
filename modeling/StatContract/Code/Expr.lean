import StatContract.Operator

/-!
# Expressions of the generated code

Generated checkers are Python modules. An expression of such a module is kept
as a tree, with brackets as nodes of their own, and `Code.text` is the only
place where it becomes text. Literals of the specification go into the code as
they are, so they appear as `verbatim` leaves.
-/

namespace StatContract

/-- A binary operator of the generated code. -/
inductive CodeOp where
  /-- Arithmetic, written without blanks. -/
  | arith (op : ArithOp)
  /-- Addition of longer operands, written with blanks. -/
  | sum
  | compare (op : CmpOp)
  | logic (op : LogicOp)
  /-- Membership. -/
  | within
  deriving DecidableEq, Repr

/-- The text between the operands. -/
def CodeOp.text : CodeOp → String
  | arith op => op.symbol
  | sum => " + "
  | compare op => op.symbol
  | logic op => " " ++ op.symbol ++ " "
  | within => " in "

/-- An expression of the generated code. -/
inductive Code where
  /-- Text that is taken over as it is. -/
  | verbatim (text : String)
  | name (n : String)
  /-- A string in single quotes. -/
  | quoted (s : String)
  | paren (inner : Code)
  | binary (lhs : Code) (op : CodeOp) (rhs : Code)
  | not (inner : Code)
  /-- `yes` if the condition holds, `no` otherwise. -/
  | choice (yes condition no : Code)
  /-- The entry of a container at a key. -/
  | item (container key : Code)
  | attr (object : Code) (field : String)
  | call (function : Code) (args : List Code)
  /-- An argument that is passed by name. -/
  | keyword (param : String) (value : Code)
  | list (items : List Code)
  /-- A dictionary with string keys. -/
  | dict (entries : List (String × Code))
  /-- The list of the values of `element` for all `var` in `source`. -/
  | comprehension (element : Code) (var : String) (source : Code)

instance : Inhabited Code := ⟨.verbatim ""⟩

namespace Code

mutual

/-- The text of an expression. -/
def text : Code → String
  | verbatim t => t
  | name n => n
  | quoted s => "'" ++ s ++ "'"
  | paren inner => "(" ++ inner.text ++ ")"
  | binary lhs op rhs => lhs.text ++ op.text ++ rhs.text
  | not inner => "not " ++ inner.text
  | choice yes condition no => yes.text ++ " if " ++ condition.text ++ " else " ++ no.text
  | item container key => container.text ++ "[" ++ key.text ++ "]"
  | attr object field => object.text ++ "." ++ field
  | call function args => function.text ++ "(" ++ ",".intercalate (texts args) ++ ")"
  | keyword param value => param ++ "=" ++ value.text
  | list items => "[" ++ ",".intercalate (texts items) ++ "]"
  | dict entries => "\x7b" ++ ", ".intercalate (entryTexts entries) ++ "\x7d"
  | comprehension element var source =>
    "[" ++ element.text ++ " for " ++ var ++ " in " ++ source.text ++ "]"

def texts : List Code → List String
  | [] => []
  | c :: cs => c.text :: texts cs

def entryTexts : List (String × Code) → List String
  | [] => []
  | (key, value) :: rest => ("'" ++ key ++ "':" ++ value.text) :: entryTexts rest

end

@[simp] theorem texts_eq_map (cs : List Code) : texts cs = cs.map text := by
  induction cs with
  | nil => rfl
  | cons c cs ih => simp [texts, ih]

/-- A whole number. -/
def nat (n : Nat) : Code := verbatim (toString n)

/-- A call of a function by its name. -/
def apply (function : String) (args : List Code) : Code := call (name function) args

/-- Two operands and an operator in brackets. -/
def group (lhs : Code) (op : CodeOp) (rhs : Code) : Code := paren (binary lhs op rhs)

/-- The number of elements of a collection. -/
def len (collection : Code) : Code := apply "len" [collection]

/-- The numbers below a bound. -/
def range (bound : Code) : Code := apply "range" [bound]

/-- The entry of a dictionary at a fixed key. -/
def entry (container : Code) (key : String) : Code := item container (quoted key)

/-- The entry of a dictionary at a key, and zero where it has none. -/
def getOrZero (container key : Code) : Code :=
  call (attr container "get") [key, verbatim "0"]

/-- One or zero, as the condition holds or not. -/
def indicator (condition : Code) : Code := choice (verbatim "1") condition (verbatim "0")

/-- The constant for a condition that holds. -/
def yes : Code := verbatim "True"

end Code

end StatContract
