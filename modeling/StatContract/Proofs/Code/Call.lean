import StatContract.Checker.Module
import StatContract.Proofs.Code.Evaluation
import StatContract.Proofs.Code.Value

/-!
# Calling generated functions

What a call of a function of a generated module returns. To the statements of a
lowered clause a function body adds conditionals, expressions that are evaluated for
their effect, entries of containers as places to write to, and the return of a
value. A container is a value like any other: to write to one of its entries is to
put the changed container where the old one was.

The values are those that aggregators work on (`Object`): numbers are rationals with
exact arithmetic, lists and dictionaries are what they consist of. All that goes
beyond, such as the functions of a library and the results of tests, is left to
given operations.
-/

namespace StatContract

variable {V : Type}

/-- Operations on values, with the change of an entry of a container. -/
structure Runtime (V : Type) extends Operations V where
  setItem : V → V → V → Option V

/-- How a statement of a function ends: the next one follows, the innermost loop is left,
or the function returns. -/
inductive Ending (V : Type) where
  | next (σ : Store V)
  | leave (σ : Store V)
  | returned (v : V)

/-- The ending of a statement that does not return. -/
def Ending.ofFlow : Flow × Store V → Ending V
  | (.next, σ) => .next σ
  | (.leave, σ) => .leave σ

namespace Runtime

/-- Puts a value into a variable, or into an entry of what is at a place. -/
def put (rt : Runtime V) : Code → V → Store V → Option (Store V)
  | .name n, v, σ => some (σ.set n v)
  | .item place key, v, σ => do
    let container ← rt.eval place σ
    let k ← rt.eval key σ
    let changed ← rt.setItem container k v
    rt.put place changed σ
  | _, _, _ => none

mutual

/-- Runs a statement of a function. -/
def exec (rt : Runtime V) : Stmt → Store V → Option (Ending V)
  | .assign (.item place key) value, σ => do
    let v ← rt.eval value σ
    (rt.put (.item place key) v σ).map .next
  | .update (.item place key) op value, σ => do
    let old ← rt.eval (.item place key) σ
    let v ← rt.eval value σ
    let new ← rt.update op old v
    (rt.put (.item place key) new σ).map .next
  | .append (.item place key) value, σ => do
    let old ← rt.eval (.item place key) σ
    let v ← rt.eval value σ
    let new ← rt.append old v
    (rt.put (.item place key) new σ).map .next
  | .eval value, σ => do
    let _ ← rt.eval value σ
    some (.next σ)
  | .ifTrue condition body, σ => do
    let v ← rt.eval condition σ
    if rt.truth v then rt.execAll body σ else some (.next σ)
  | .ret value, σ => do
    let v ← rt.eval value σ
    some (.returned v)
  | s, σ => (s.run rt.interpretation σ).map .ofFlow

/-- Runs the statements of a block, up to one that leaves it. -/
def execAll (rt : Runtime V) : List Stmt → Store V → Option (Ending V)
  | [], σ => some (.next σ)
  | s :: rest, σ => do
    match ← rt.exec s σ with
    | .next σ' => rt.execAll rest σ'
    | ending => some ending

end

variable {rt : Runtime V} {σ σ' : Store V}

/-- A statement that a clause can be lowered to does here what it does there. -/
theorem exec_of_run {s : Stmt} {f : Flow} (h : s.run rt.interpretation σ = some (f, σ')) :
    rt.exec s σ = some (.ofFlow (f, σ')) := by
  unfold exec
  split
  -- The statements that only functions have do not run in a clause.
  case h_7 => rw [h, Option.map_some]
  all_goals
    rw [Stmt.run] at h
    · cases h
    all_goals simp

theorem exec_set {n : String} {value : Code} {v : V} (h : rt.eval value σ = some v) :
    rt.exec (.set n value) σ = some (.next (σ.set n v)) :=
  exec_of_run (Stmt.run_set h)

theorem execAll_cons_of_next {s : Stmt} (h : rt.exec s σ = some (.next σ')) (rest : List Stmt) :
    rt.execAll (s :: rest) σ = rt.execAll rest σ' := by
  rw [execAll, h]
  rfl

theorem execAll_append_of_next {a : List Stmt} (h : rt.execAll a σ = some (.next σ'))
    (b : List Stmt) : rt.execAll (a ++ b) σ = rt.execAll b σ' := by
  induction a generalizing σ with
  | nil =>
      cases h
      rfl
  | cons s a ih =>
      rw [execAll] at h
      rw [List.cons_append, execAll]
      rcases hs : rt.exec s σ with _ | ⟨σ₁ | σ₁ | v⟩
      · simp [hs] at h
      · simp only [hs] at h
        exact ih h
      · simp [hs] at h
      · simp [hs] at h

theorem execAll_ret {value : Code} {v : V} (h : rt.eval value σ = some v) (rest : List Stmt) :
    rt.execAll (.ret value :: rest) σ = some (.returned v) := by
  rw [execAll, exec, h]
  rfl

/-- What a function returns from the values of its variables at the start. Without a
return statement that is nothing. -/
def returns (rt : Runtime V) (body : List Stmt) (σ : Store V) : Option V :=
  (rt.execAll body σ).bind fun
    | .returned v => some v
    | _ => rt.global "None"

end Runtime

/-- The parameters of a function with the values passed for them. -/
def Store.ofArgs (params : List String) (args : List V) : Store V :=
  fun name => (params.zip args).lookup name

/-- Calls a function with as many values as it has parameters. -/
def FunctionDef.call (rt : Runtime V) (f : FunctionDef) (args : List V) : Option V :=
  if args.length = f.params.length then rt.returns f.body (.ofArgs f.params args) else none

/-- The function of a name in a module. -/
def CheckerModule.function? (m : CheckerModule) (name : String) : Option FunctionDef :=
  m.functions.find? (·.name == name)

/-- Calls the function of a name in a module. -/
def CheckerModule.call (rt : Runtime V) (m : CheckerModule) (name : String) (args : List V) :
    Option V :=
  (m.function? name).bind fun f => f.call rt args

/-- A value that is measured or aggregated. Those that are none of the language of the
generated code's own come from outside. -/
inductive Object (α : Type) where
  | absent
  | truth (b : Bool)
  | number (x : ℚ)
  | text (s : String)
  | list (items : List (Object α))
  | dict (entries : List (String × Object α))
  /-- A function that is there without a definition. -/
  | builtin (name : String)
  | outside (a : α)

namespace Object

variable {α : Type}

/-- The numbers below a bound. -/
def countUp (n : Nat) : Object α := list ((List.range n).map fun i : Nat => number i)

/-- Changes the entry of a dictionary at a key, or adds it at the end. -/
def setEntry (key : String) (v : Object α) :
    List (String × Object α) → List (String × Object α)
  | [] => [(key, v)]
  | (k, w) :: rest => if k = key then (k, v) :: rest else (k, w) :: setEntry key v rest

/-- Numbers with exact arithmetic, lists and dictionaries; for all else the given
operations. -/
def runtime (ops : Operations (Object α)) : Runtime (Object α) where
  global name :=
    if name = "None" then some absent
    else if name = "range" then some (builtin name)
    else ops.global name
  literal t := ((numeral? t).map fun n : Nat => number n).or (ops.literal t)
  text := text
  list := list
  dict := dict
  ofBool := truth
  truth
    | absent => false
    | truth b => b
    | number x => x ≠ 0
    | text s => !s.isEmpty
    | list items => !items.isEmpty
    | dict entries => !entries.isEmpty
    | v => ops.truth v
  number
    | number x => some x
    | v => ops.number v
  arith
    | .add, number x, number y => some (number (x + y))
    | .sub, number x, number y => some (number (x - y))
    | .mul, number x, number y => some (number (x * y))
    | .div, number x, number y => if y = 0 then none else some (number (x / y))
    | op, v, w => ops.arith op v w
  compare
    | .eq, absent, absent => some (truth true)
    | .eq, dict _, absent => some (truth false)
    | op, v, w => ops.compare op v w
  within := ops.within
  item
    | dict entries, text key => entries.lookup key
    | list items, number x =>
      if x.den = 1 ∧ 0 ≤ x then items[x.num.toNat]? else ops.item (list items) (number x)
    | v, w => ops.item v w
  attr := ops.attr
  call
    | builtin "range", [(none, number x)] =>
      if x.den = 1 then some (countUp x.num.toNat) else none
    | f, args => ops.call f args
  items
    | list items => some items
    | v => ops.items v
  update
    | .add, number x, number y => some (number (x + y))
    | .add, list vs, list ws => some (list (vs ++ ws))
    | op, v, w => ops.update op v w
  append
    | list vs, v => some (list (vs ++ [v]))
    | v, w => ops.append v w
  setItem
    | dict entries, text key, v => some (dict (setEntry key v entries))
    | _, _, _ => none
  truth_ofBool _ := rfl

section Runtime

variable (ops : Operations (Object α))

@[simp] theorem literal_toString (n : Nat) :
    (runtime ops).literal (toString n) = some (number n) := by
  simp only [runtime, numeral?_toString, Option.map_some, Option.some_or]

@[simp] theorem global_None : (runtime ops).global "None" = some absent := rfl

@[simp] theorem truth_truth (b : Bool) : (runtime ops).truth (truth b) = b := rfl

@[simp] theorem compare_absent : (runtime ops).compare .eq absent absent = some (truth true) := rfl

@[simp] theorem compare_dict_absent (entries : List (String × Object α)) :
    (runtime ops).compare .eq (dict entries) absent = some (truth false) := rfl

@[simp] theorem arith_add (x y : ℚ) :
    (runtime ops).arith .add (number x) (number y) = some (number (x + y)) := rfl

@[simp] theorem arith_mul (x y : ℚ) :
    (runtime ops).arith .mul (number x) (number y) = some (number (x * y)) := rfl

theorem arith_div (x : ℚ) {y : ℚ} (h : y ≠ 0) :
    (runtime ops).arith .div (number x) (number y) = some (number (x / y)) := if_neg h

@[simp] theorem item_dict (entries : List (String × Object α)) (key : String) :
    (runtime ops).item (dict entries) (text key) = entries.lookup key := rfl

@[simp] theorem global_range : (runtime ops).global "range" = some (builtin "range") := rfl

/-- The function that counts up to a bound. -/
@[simp] theorem call_range (n : Nat) :
    (runtime ops).call (builtin "range") [(none, number n)] = some (countUp n) := by
  have hcall : (runtime ops).call (builtin "range") [(none, number n)] =
      if (n : ℚ).den = 1 then some (countUp (n : ℚ).num.toNat) else none := rfl
  rw [hcall, if_pos (Rat.den_natCast n), Rat.num_natCast, Int.toNat_natCast]

@[simp] theorem items_list (vs : List (Object α)) : (runtime ops).items (list vs) = some vs := rfl

@[simp] theorem update_list (vs ws : List (Object α)) :
    (runtime ops).update .add (list vs) (list ws) = some (list (vs ++ ws)) := rfl

@[simp] theorem append_list (vs : List (Object α)) (v : Object α) :
    (runtime ops).append (list vs) v = some (list (vs ++ [v])) := rfl

@[simp] theorem setItem_dict (entries : List (String × Object α)) (key : String) (v : Object α) :
    (runtime ops).setItem (dict entries) (text key) v = some (dict (setEntry key v entries)) := rfl

variable {ops} {σ : Store (Object α)} {n key : String}

@[simp] theorem eval_nat (m : Nat) (σ : Store (Object α)) :
    (runtime ops).eval (.nat m) σ = some (number m) := by
  rw [Code.nat, Operations.eval, literal_toString]

theorem eval_entry {v : Object α} (h : σ n = some v) :
    (runtime ops).eval (.entry (.name n) key) σ = (runtime ops).item v (text key) := by
  simp only [Code.entry, Operations.eval, h]
  rfl

theorem put_entry {entries : List (String × Object α)} (h : σ n = some (dict entries))
    (v : Object α) :
    (runtime ops).put (.entry (.name n) key) v σ =
      some (σ.set n (dict (setEntry key v entries))) := by
  simp only [Code.entry, Runtime.put, Operations.eval, h]
  rfl

theorem eval_range {bound : Nat} (hrange : σ "range" = none) (h : σ n = some (number bound)) :
    (runtime ops).eval (.range (.name n)) σ = some (countUp bound) := by
  simp only [Code.range, Code.apply, Operations.eval, Operations.evalAll, hrange, h,
    Option.none_or, Option.some_or, global_range, Option.bind_eq_bind, Option.bind_some,
    List.map_cons, List.map_nil, Code.param?, List.zip_cons_cons, List.zip_nil_right, call_range]

/-- An entry of a dictionary in a variable is given a value. -/
theorem exec_assign_entry {entries : List (String × Object α)} {value : Code} {v : Object α}
    (h : σ n = some (dict entries)) (hv : (runtime ops).eval value σ = some v) :
    (runtime ops).exec (.assign (.entry (.name n) key) value) σ =
      some (.next (σ.set n (dict (setEntry key v entries)))) := by
  rw [Code.entry, Runtime.exec, hv]
  exact congrArg (Option.map Ending.next) (put_entry h v)

/-- A value is added to a list in an entry. -/
theorem exec_append_entry {entries : List (String × Object α)} {value : Code}
    {vs : List (Object α)} {v : Object α} (h : σ n = some (dict entries))
    (hold : entries.lookup key = some (list vs)) (hv : (runtime ops).eval value σ = some v) :
    (runtime ops).exec (.append (.entry (.name n) key) value) σ =
      some (.next (σ.set n (dict (setEntry key (list (vs ++ [v])) entries)))) := by
  have hlist : (runtime ops).eval (.item (.name n) (.quoted key)) σ = some (list vs) :=
    (eval_entry h).trans hold
  rw [Code.entry, Runtime.exec, hlist, hv]
  exact congrArg (Option.map Ending.next) (put_entry h _)

/-- A list is added to a list in an entry. -/
theorem exec_extend_entry {entries : List (String × Object α)} {value : Code}
    {vs ws : List (Object α)} (h : σ n = some (dict entries))
    (hold : entries.lookup key = some (list vs))
    (hv : (runtime ops).eval value σ = some (list ws)) :
    (runtime ops).exec (.update (.entry (.name n) key) .add value) σ =
      some (.next (σ.set n (dict (setEntry key (list (vs ++ ws)) entries)))) := by
  have hlist : (runtime ops).eval (.item (.name n) (.quoted key)) σ = some (list vs) :=
    (eval_entry h).trans hold
  rw [Code.entry, Runtime.exec, hlist, hv]
  exact congrArg (Option.map Ending.next) (put_entry h _)

end Runtime

end Object

end StatContract
