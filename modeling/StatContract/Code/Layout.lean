import StatContract.Code.Stmt
import StatContract.Text.Padding

/-!
# Laying out statements

A statement becomes lines of text. A block is indented by two blanks more than
the line that opens it, and a block without statements holds the single line
`pass`. Functions end with a line break and are separated by an empty line.
-/

namespace StatContract

namespace Stmt

/-- What follows the word `except`. -/
def errorList : List String → String
  | [] => ""
  | [error] => " " ++ error
  | errors => " (" ++ ", ".intercalate errors ++ ")"

mutual

/-- The lines of a statement at a depth. -/
def lines (depth : Nat) : Stmt → List String
  | assign target value => [Text.indent depth ++ target.text ++ " = " ++ value.text]
  | update target op value =>
    [Text.indent depth ++ target.text ++ " " ++ op.symbol ++ "= " ++ value.text]
  | append list value => [Text.indent depth ++ list.text ++ ".append(" ++ value.text ++ ")"]
  | eval value => [Text.indent depth ++ value.text]
  | forIn var source body =>
    (Text.indent depth ++ "for " ++ var ++ " in " ++ source.text ++ ":") :: block (depth + 1) body
  | ifTrue condition body =>
    (Text.indent depth ++ "if " ++ condition.text ++ ":") :: block (depth + 1) body
  | breakUnless condition =>
    [Text.indent depth ++ "if not " ++ condition.text ++ ":", Text.indent (depth + 1) ++ "break"]
  | ret value => [Text.indent depth ++ "return " ++ value.text]
  | define name params body =>
    (Text.indent depth ++ "def " ++ name ++ "(" ++ ",".intercalate params ++ "):")
      :: block (depth + 1) body
  | attempt body errors handler =>
    (Text.indent depth ++ "try:") :: (block (depth + 1) body
      ++ (Text.indent depth ++ "except" ++ errorList errors ++ ":") :: block (depth + 1) handler)

/-- The lines of a block at a depth. -/
def block (depth : Nat) : List Stmt → List String
  | [] => [Text.indent depth ++ "pass"]
  | s :: rest => lines depth s ++ linesOfAll depth rest

/-- The lines of several statements at a depth. -/
def linesOfAll (depth : Nat) : List Stmt → List String
  | [] => []
  | s :: rest => lines depth s ++ linesOfAll depth rest

end

end Stmt

namespace FunctionDef

/-- The text of a function. -/
def text (f : FunctionDef) : String :=
  let header := "def " ++ f.name ++ "(" ++ ", ".intercalate f.params ++ "):"
  "\n".intercalate (header :: Stmt.block 1 f.body) ++ "\n"

/-- The text of a module. -/
def moduleText (fs : List FunctionDef) : String := "\n".intercalate (fs.map text)

/-- The number of statements in the bodies of functions. -/
def totalSize (fs : List FunctionDef) : Nat :=
  Stmt.sizeOfAll (fs.flatMap (·.body))

end FunctionDef

end StatContract
