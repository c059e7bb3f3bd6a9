import StatContract.Code.Expr

/-!
# Statements of the generated code

Statements form a tree; which line is indented how far is decided once, when
the tree is laid out.
-/

namespace StatContract

/-- A statement. -/
inductive Stmt where
  | assign (target value : Code)
  /-- Changes a variable in place. -/
  | update (target : Code) (op : ArithOp) (value : Code)
  /-- Adds a value at the end of a list. -/
  | append (list value : Code)
  /-- Evaluates an expression for its effect. -/
  | eval (value : Code)
  | forIn (var : String) (source : Code) (body : List Stmt)
  | ifTrue (condition : Code) (body : List Stmt)
  /-- Leaves the innermost loop when the condition fails. -/
  | breakUnless (condition : Code)
  | ret (value : Code)
  | define (name : String) (params : List String) (body : List Stmt)
  /-- Runs the handler when the body fails with one of the listed errors; an
  empty list stands for every error. -/
  | attempt (body : List Stmt) (errors : List String) (handler : List Stmt)

/-- A top-level function. -/
structure FunctionDef where
  name : String
  params : List String
  body : List Stmt

namespace Stmt

mutual

/-- The number of statements in a statement, itself included. -/
def size : Stmt → Nat
  | forIn _ _ body | ifTrue _ body | define _ _ body => 1 + sizeOfAll body
  | attempt body _ handler => 1 + (sizeOfAll body + sizeOfAll handler)
  | _ => 1

/-- The number of statements in a block. -/
def sizeOfAll : List Stmt → Nat
  | [] => 0
  | s :: rest => s.size + sizeOfAll rest

end

@[simp] theorem sizeOfAll_append (a b : List Stmt) :
    sizeOfAll (a ++ b) = sizeOfAll a + sizeOfAll b := by
  induction a with
  | nil => simp [sizeOfAll]
  | cons s a ih => simp [sizeOfAll, ih, Nat.add_assoc]

/-- Assigns to a variable. -/
def set (var : String) (value : Code) : Stmt := assign (.name var) value

/-- Prints values. -/
def print (args : List Code) : Stmt := eval (.apply "print" args)

end Stmt

end StatContract
