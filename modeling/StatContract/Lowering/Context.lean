import StatContract.SpecError
import StatContract.Code.Stmt
import StatContract.Spec.Basic

/-!
# The state of lowering

Lowering hands out temporaries, keeps track of the names that the code can
read directly, of the trial whose sample is under consideration, and of the
blocks that statements are being written to. All of it is in one value, so a
clause can be lowered in any surroundings.

The scope of the function's own names and the outermost block are never left;
they are separate fields, and the state cannot be without them.
-/

namespace StatContract

/-- How a name is reached from the code. -/
inductive Reference where
  /-- A variable of the code. -/
  | here (name : String)
  /-- The output of one trial. -/
  | trialOutput (trial : String)
  /-- A parameter of the configuration. -/
  | config (name : String)
  deriving DecidableEq, Repr

/-- The expression that reads a reference. -/
def Reference.code : Reference → Code
  | here name => .name name
  | trialOutput trial => .paren (.item (.name outputName) (.name trial))
  | config name => .entry (.name "Config") name

/-- The state of lowering. -/
structure Context where
  /-- The number of temporaries handed out. -/
  temps : Nat := 0
  /-- The names bound in enclosing scopes, innermost scope first. -/
  scopes : List (List String) := []
  /-- The names of the function itself. -/
  names : List String
  /-- The index of the trial under consideration. -/
  trial : Option String := none
  /-- The block that statements are added to. -/
  block : List Stmt := []
  /-- The blocks around it, innermost first. -/
  enclosing : List (List Stmt) := []

namespace Context

/-- The state at the start of a function with the given names. -/
def start (names : List String) : Context := { names }

/-- The name of the next temporary. -/
def nextTemp (ctx : Context) : String := "t" ++ toString ctx.temps

/-- Enters a scope. -/
def push (ctx : Context) : Context := { ctx with scopes := [] :: ctx.scopes }

/-- Leaves the innermost scope. -/
def pop (ctx : Context) : Context := { ctx with scopes := ctx.scopes.tail }

/-- Makes a name visible in the innermost scope. -/
def declare (ctx : Context) (name : String) : Context :=
  match ctx.scopes with
  | [] => { ctx with names := name :: ctx.names }
  | scope :: outer => { ctx with scopes := (name :: scope) :: outer }

/-- Whether the code can read a name directly. -/
def isVisible (ctx : Context) (name : String) : Bool :=
  (ctx.scopes ++ [ctx.names]).any (·.contains name)

/-- How the code reads a name: the output is the sample of the trial under
consideration, and a name that is not visible comes from the configuration. -/
def resolve (ctx : Context) (name : String) : Reference :=
  if ctx.isVisible name then
    match ctx.trial with
    | some trial => if name = outputName then .trialOutput trial else .here name
    | none => .here name
  else .config name

/-- Adds a statement. -/
def emit (ctx : Context) (s : Stmt) : Context := { ctx with block := ctx.block ++ [s] }

/-- Starts a block inside the current one. -/
def openBlock (ctx : Context) : Context :=
  { ctx with block := [], enclosing := ctx.block :: ctx.enclosing }

/-- Ends the current block and hands out its statements. The outermost block
stays. -/
def closeBlock (ctx : Context) : List Stmt × Context :=
  match ctx.enclosing with
  | [] => ([], ctx)
  | outer :: rest => (ctx.block, { ctx with block := outer, enclosing := rest })

/-- All statements; blocks that are still open become part of the block around
them. -/
def statements (ctx : Context) : List Stmt :=
  ctx.enclosing.foldl (fun inner outer => outer ++ inner) ctx.block

@[simp] theorem pop_push (ctx : Context) : ctx.push.pop = ctx := rfl

@[simp] theorem statements_emit (ctx : Context) (s : Stmt) (h : ctx.enclosing = []) :
    (ctx.emit s).statements = ctx.statements ++ [s] := by
  simp [statements, emit, h]

@[simp] theorem closeBlock_openBlock (ctx : Context) :
    ctx.openBlock.closeBlock = ([], ctx) := rfl

end Context

/-- A step of lowering: it may fail, and the state is there afterwards in any
case. -/
abbrev Lower := ExceptT SpecError (StateM Context)

namespace Lower

/-- Hands out a temporary. -/
def fresh : Lower String := do
  let ctx ← get
  set { ctx with temps := ctx.temps + 1 }
  return ctx.nextTemp

/-- Adds a statement. -/
def emit (s : Stmt) : Lower Unit := modify (·.emit s)

/-- Enters a scope. -/
def pushScope : Lower Unit := modify Context.push

/-- Leaves the innermost scope. -/
def popScope : Lower Unit := modify Context.pop

/-- Makes a name visible in the innermost scope. -/
def declare (name : String) : Lower Unit := modify (·.declare name)

/-- Starts a block. -/
def openBlock : Lower Unit := modify Context.openBlock

/-- Ends the current block and gives its statements. -/
def closeBlock : Lower (List Stmt) := do
  let (body, ctx) := (← get).closeBlock
  set ctx
  return body

/-- Runs a step with a name visible in a scope of its own, and leaves the
innermost scope afterwards, whether the step succeeded or not. -/
def withName {α : Type} (name : String) (step : Lower α) : Lower α :=
  ExceptT.mk do
    modify fun ctx => ctx.push.declare name
    let result ← step.run
    modify Context.pop
    return result

/-- Runs a step for the sample of one trial, and goes back to the trial from
before it, whether the step succeeded or not. -/
def withTrial {α : Type} (index : String) (step : Lower α) : Lower α :=
  ExceptT.mk do
    let previous := (← get).trial
    modify fun ctx => { ctx with trial := some index }
    let result ← step.run
    modify fun ctx => { ctx with trial := previous }
    return result

end Lower

end StatContract
