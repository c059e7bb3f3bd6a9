import StatContract.Lowering.Library
import StatContract.Proofs.Code.Execution
import Mathlib.Algebra.Order.Ring.Rat

/-!
# Evaluating expressions over given operations

What an expression of the generated code evaluates to, for all forms of
expressions. The values and what can be done with them are left open: an
`Operations` says which values there are, which of them are numbers, what the
operators and calls give, and what the names outside the generated function
stand for. How an expression is evaluated from its parts is fixed. A variable hides
what its name stands for outside, connectives stop where the outcome is known,
and an expression with a part that fails to evaluate fails, if that part is
reached.

The second half is about p-values. Numbers are rationals, and a difference may be
rounded, as long as the rounding keeps the order and is exact at zero and one
(`Operations.Counts`). The tests of the library are taken to give numbers between
zero and one whenever they return (`Operations.TestsIn`). Then the forms that
p-values are written in keep to these bounds, and `Code.premises` lists what has to
evaluate for them to evaluate.
-/

namespace StatContract

variable {V : Type}

/-- Values and what can be done with them. Whatever can fail has an optional
result. -/
structure Operations (V : Type) where
  /-- What a name stands for outside the function. -/
  global : String → Option V
  /-- The value of text that is taken over as it is. -/
  literal : String → Option V
  text : String → V
  list : List V → V
  dict : List (String × V) → V
  ofBool : Bool → V
  /-- Whether a value counts as true. -/
  truth : V → Bool
  /-- The number that a value is. -/
  number : V → Option ℚ
  arith : ArithOp → V → V → Option V
  compare : CmpOp → V → V → Option V
  /-- Whether the second value has the first among its members. -/
  within : V → V → Option V
  item : V → V → Option V
  attr : V → String → Option V
  /-- Calls a value. Arguments come with the parameter they are passed for, if it is
  given. -/
  call : V → List (Option String × V) → Option V
  /-- What a loop over a value runs through. -/
  items : V → Option (List V)
  update : ArithOp → V → V → Option V
  append : V → V → Option V
  truth_ofBool : ∀ b, truth (ofBool b) = b

/-- The parameter that an argument names. -/
def Code.param? : Code → Option String
  | .keyword param _ => some param
  | _ => none

namespace Operations

/-- The outcome of an operator, from the left operand and what the right one
evaluates to. -/
def binary (ops : Operations V) (op : CodeOp) (v : V) (w : Option V) : Option V :=
  match op with
  | .arith op => w.bind (ops.arith op v)
  | .sum => w.bind (ops.arith .add v)
  | .compare op => w.bind (ops.compare op v)
  | .logic .and => if ops.truth v then w else some v
  | .logic .or => if ops.truth v then some v else w
  | .within => w.bind (ops.within v)

mutual

/-- The value of an expression. -/
def eval (ops : Operations V) : Code → Store V → Option V
  | .verbatim t, _ => ops.literal t
  | .name n, σ => (σ n).or (ops.global n)
  | .quoted s, _ => some (ops.text s)
  | .paren inner, σ => ops.eval inner σ
  | .binary lhs op rhs, σ => do
    let v ← ops.eval lhs σ
    ops.binary op v (ops.eval rhs σ)
  | .not inner, σ => do
    let v ← ops.eval inner σ
    some (ops.ofBool (!ops.truth v))
  | .choice yes condition no, σ => do
    let v ← ops.eval condition σ
    if ops.truth v then ops.eval yes σ else ops.eval no σ
  | .item container key, σ => do
    let v ← ops.eval container σ
    let k ← ops.eval key σ
    ops.item v k
  | .attr object field, σ => do
    let v ← ops.eval object σ
    ops.attr v field
  | .call function args, σ => do
    let f ← ops.eval function σ
    let vs ← ops.evalAll args σ
    ops.call f ((args.map Code.param?).zip vs)
  | .keyword _ value, σ => ops.eval value σ
  | .list items, σ => do
    let vs ← ops.evalAll items σ
    some (ops.list vs)
  | .dict entries, σ => do
    let vs ← ops.evalEntries entries σ
    some (ops.dict vs)
  | .comprehension element var source, σ => do
    let v ← ops.eval source σ
    let items ← ops.items v
    let vs ← items.mapM fun w => ops.eval element (σ.set var w)
    some (ops.list vs)

/-- The values of several expressions. -/
def evalAll (ops : Operations V) : List Code → Store V → Option (List V)
  | [], _ => some []
  | c :: cs, σ => do
    let v ← ops.eval c σ
    let vs ← ops.evalAll cs σ
    some (v :: vs)

/-- The entries of a dictionary. -/
def evalEntries (ops : Operations V) : List (String × Code) → Store V →
    Option (List (String × V))
  | [], _ => some []
  | (key, c) :: rest, σ => do
    let v ← ops.eval c σ
    let vs ← ops.evalEntries rest σ
    some ((key, v) :: vs)

end

/-- The meaning of the generated code. -/
def interpretation (ops : Operations V) : Interpretation V where
  eval := fun σ c => ops.eval c σ
  truth := ops.truth
  items := ops.items
  update := ops.update
  append := ops.append

/-- What a function of the library returns. -/
def library (ops : Operations V) (lib : Library) (f : String)
    (args : List (Option String × V)) : Option V := do
  let m ← ops.global lib.module
  let g ← ops.attr m f
  ops.call g args

/-- The value is a number between zero and one. -/
def IsEvidence (ops : Operations V) (v : V) : Prop :=
  ∃ x, ops.number v = some x ∧ 0 ≤ x ∧ x ≤ 1

/-- The value has a p-value at index 1. -/
def HoldsPValue (ops : Operations V) (r : V) : Prop :=
  ∃ k v, ops.literal "1" = some k ∧ ops.item r k = some v ∧ ops.IsEvidence v

end Operations

/-- The function that takes the place of a connective between p-values. -/
def LogicOp.extremeName : LogicOp → String
  | and => "min"
  | or => "max"

/-- What it does to numbers. -/
def LogicOp.extreme : LogicOp → ℚ → ℚ → ℚ
  | and => min
  | or => max

/-- The numbers behave as numbers: `0` and `1` are written so, differences are
rounded at most, and `min` and `max` are the functions of these names. -/
structure Operations.Counts (ops : Operations V) : Prop where
  zero : ∃ v, ops.literal "0" = some v ∧ ops.number v = some 0
  one : ∃ v, ops.literal "1" = some v ∧ ops.number v = some 1
  sub : ∃ round : ℚ → ℚ, Monotone round ∧ round 0 = 0 ∧ round 1 = 1 ∧
    ∀ {v w x y}, ops.number v = some x → ops.number w = some y → 0 ≤ x - y → x - y ≤ 1 →
      ∃ u, ops.arith .sub v w = some u ∧ ops.number u = some (round (x - y))
  extreme (op : LogicOp) : ∃ f, ops.global op.extremeName = some f ∧
    ∀ {v w x y}, ops.number v = some x → ops.number w = some y →
      ∃ u, ops.call f [(none, v), (none, w)] = some u ∧ ops.number u = some (op.extreme x y)

/-- Whenever a test of the library returns, its p-value is between zero and one. -/
structure Operations.TestsIn (ops : Operations V) (lib : Library) : Prop where
  binomialTest {args v} : ops.library lib "binomialTest" args = some v → ops.IsEvidence v
  tTest {args r} : ops.library lib "ttest_1samp" args = some r → ops.HoldsPValue r
  wilcoxon {args r} : ops.library lib "wilcoxon" args = some r →
    ∃ v, ops.attr r "pvalue" = some v ∧ ops.IsEvidence v
  combinePValues {args r} : ops.library lib "combine_pvalues" args = some r → ops.HoldsPValue r

/-- The expressions that a p-value is put together from: the conditions and the
tests in it. What a test has left in a variable is not evaluated again. -/
def Code.premises : Code → List Code
  | .paren (.choice _ condition _) => [condition]
  | .paren (.binary _ _ p) => p.premises
  | .call (.name _) [p, q] => p.premises ++ q.premises
  | .attr test _ => [test]
  | .name _ | .item _ _ => []
  | c => [c]

namespace Code

@[simp] theorem premises_indicator (c : Code) : (paren (indicator c)).premises = [c] := by
  rw [indicator, premises]

@[simp] theorem premises_group (c : Code) (op : CodeOp) (p : Code) :
    (group c op p).premises = p.premises := by
  rw [group, premises]

@[simp] theorem premises_apply (f : String) (p q : Code) :
    (apply f [p, q]).premises = p.premises ++ q.premises := by
  rw [apply, premises]

@[simp] theorem premises_binomialTest (lib : Library) (count trials probability : Code)
    (alternative : String) :
    (lib.binomialTest count trials probability alternative).premises =
      [lib.binomialTest count trials probability alternative] := by
  simp [Library.binomialTest, Library.function, premises]

end Code

namespace Operations

/-- The expression is a p-value: it evaluates exactly if its premises do, and then to
a number between zero and one. It can be an argument without naming a parameter. -/
structure Weighs (ops : Operations V) (σ : Store V) (p : Code) : Prop where
  param_eq : p.param? = none
  isSome_iff : (ops.eval p σ).isSome ↔ ∀ c ∈ p.premises, (ops.eval c σ).isSome
  isEvidence {v} : ops.eval p σ = some v → ops.IsEvidence v

/-- Where the first expression evaluates, so does the second, and the first is one or
zero as the second counts as true or not. -/
def Indicates (ops : Operations V) (σ : Store V) (p b : Code) : Prop :=
  ∀ ⦃v⦄, ops.eval p σ = some v →
    ∃ w, ops.eval b σ = some w ∧ ops.number v = some (if ops.truth w then 1 else 0)

variable {ops : Operations V} {σ : Store V}

theorem eval_name_of_some {n : String} {v : V} (h : σ n = some v) :
    ops.eval (.name n) σ = some v := by
  rw [eval, h]
  rfl

/-- What a call of a library function evaluates to was returned by the library, if
its module is not hidden by a variable. -/
theorem exists_library_of_eval {lib : Library} (hσ : σ lib.module = none) {f : String}
    {args : List Code} {r : V} (h : ops.eval (lib.function f args) σ = some r) :
    ∃ vs, ops.library lib f vs = some r := by
  simp only [Library.function, eval, hσ, Option.none_or] at h
  obtain ⟨g, hg, h⟩ := Option.bind_eq_some_iff.1 h
  obtain ⟨m, hm, hg⟩ := Option.bind_eq_some_iff.1 hg
  obtain ⟨vs, -, h⟩ := Option.bind_eq_some_iff.1 h
  refine ⟨(args.map Code.param?).zip vs, ?_⟩
  simp only [library, hm, hg, h, Option.bind_eq_bind, Option.bind_some]

/-- A p-value is taken out of the result of a test at index 1. -/
theorem HoldsPValue.eval_item {c : Code} {r : V} (h : ops.HoldsPValue r)
    (hr : ops.eval c σ = some r) :
    ∃ v, ops.eval (.item c (.nat 1)) σ = some v ∧ ops.IsEvidence v := by
  obtain ⟨k, v, hk, hv, hevidence⟩ := h
  have hone : ops.eval (.nat 1) σ = some k := hk
  exact ⟨v, by simp only [eval, hr, hone, hv, Option.bind_eq_bind, Option.bind_some], hevidence⟩

/-- What p-values combine to is a p-value. -/
theorem isEvidence_of_combinePValues {lib : Library} (htests : ops.TestsIn lib)
    (hσ : σ lib.module = none) {list : Code} {v : V}
    (h : ops.eval (lib.combinePValues list) σ = some v) : ops.IsEvidence v := by
  obtain ⟨r, hr, -⟩ := Option.bind_eq_some_iff.1
    (show (ops.eval (lib.function "combine_pvalues" [list]) σ).bind _ = some v from h)
  obtain ⟨args, hargs⟩ := exists_library_of_eval hσ hr
  obtain ⟨v', hv', hevidence⟩ := (htests.combinePValues hargs).eval_item hr
  obtain rfl : v' = v := Option.some.inj (hv'.symm.trans h)
  exact hevidence

/-- A function of two p-values is evaluated from both of them. -/
theorem eval_extreme {op : LogicOp} (hσ : σ op.extremeName = none) {f : V}
    (hf : ops.global op.extremeName = some f) {p q : Code} (hp : p.param? = none)
    (hq : q.param? = none) :
    ops.eval (.apply op.extremeName [p, q]) σ =
      (ops.eval p σ).bind fun v => (ops.eval q σ).bind fun w =>
        ops.call f [(none, v), (none, w)] := by
  simp only [Code.apply, eval, hσ, hf, Option.none_or, Option.bind_eq_bind, Option.bind_some,
    evalAll, List.map_cons, List.map_nil, hp, hq]
  cases ops.eval p σ with
  | none => rfl
  | some v => cases ops.eval q σ <;> rfl

/-- A p-value is taken from one. -/
theorem eval_complement {one : V} (hone : ops.literal "1" = some one) (p : Code) :
    ops.eval (.group (.nat 1) (.arith .sub) p) σ =
      (ops.eval p σ).bind (ops.arith .sub one) := by
  have hnat : ops.eval (.nat 1) σ = some one := hone
  simp only [Code.group, eval, hnat, Option.bind_eq_bind, Option.bind_some, binary]

/-- The p-value of a condition is there if the condition is, and it is one or zero. -/
theorem eval_indicator (hops : ops.Counts) (c : Code) :
    (ops.eval (.paren (.indicator c)) σ).isSome = (ops.eval c σ).isSome ∧
    ops.Indicates σ (.paren (.indicator c)) c := by
  obtain ⟨zero, hzero, hzero'⟩ := hops.zero
  obtain ⟨one, hone, hone'⟩ := hops.one
  rw [Indicates]
  simp only [Code.indicator, eval, hzero, hone]
  cases ops.eval c σ with
  | none => simp
  | some w =>
      rcases htruth : ops.truth w with _ | _
      · simp [htruth, hzero']
      · simp [htruth, hone']

namespace Weighs

variable {p q : Code}

theorem indicator (hops : ops.Counts) (c : Code) : ops.Weighs σ (.paren (.indicator c)) where
  param_eq := rfl
  isSome_iff := by
    rw [(eval_indicator hops c).1, Code.premises_indicator, List.forall_mem_singleton]
  isEvidence {v} hv := by
    obtain ⟨w, -, hnumber⟩ := (eval_indicator hops c).2 hv
    refine ⟨_, hnumber, ?_⟩
    split
    · exact ⟨zero_le_one, le_rfl⟩
    · exact ⟨le_rfl, zero_le_one⟩

/-- The smaller and the larger of two p-values are p-values. -/
theorem extreme (hops : ops.Counts) {op : LogicOp} (hσ : σ op.extremeName = none)
    (hp : ops.Weighs σ p) (hq : ops.Weighs σ q) :
    ops.Weighs σ (.apply op.extremeName [p, q]) := by
  obtain ⟨f, hf, hcall⟩ := hops.extreme op
  have heval := eval_extreme hσ hf hp.param_eq hq.param_eq
  refine ⟨rfl, ?_, ?_⟩
  · rw [Code.premises_apply, List.forall_mem_append, ← hp.isSome_iff, ← hq.isSome_iff, heval]
    cases hv : ops.eval p σ with
    | none => simp
    | some v =>
        cases hw : ops.eval q σ with
        | none => simp
        | some w =>
            obtain ⟨x, hx, -⟩ := hp.isEvidence hv
            obtain ⟨y, hy, -⟩ := hq.isEvidence hw
            obtain ⟨u, hu, -⟩ := hcall hx hy
            simp [hu]
  · intro u hu
    rw [heval] at hu
    obtain ⟨v, hv, hu⟩ := Option.bind_eq_some_iff.1 hu
    obtain ⟨w, hw, hu⟩ := Option.bind_eq_some_iff.1 hu
    obtain ⟨x, hx, hx₀, hx₁⟩ := hp.isEvidence hv
    obtain ⟨y, hy, hy₀, hy₁⟩ := hq.isEvidence hw
    obtain ⟨u', hu', hnumber⟩ := hcall hx hy
    obtain rfl : u' = u := Option.some.inj (hu'.symm.trans hu)
    refine ⟨_, hnumber, ?_⟩
    cases op with
    | and => exact ⟨le_min hx₀ hy₀, min_le_of_left_le hx₁⟩
    | or => exact ⟨le_max_of_le_left hx₀, max_le hx₁ hy₁⟩

/-- What a p-value lacks to one is a p-value. -/
theorem complement (hops : ops.Counts) (hp : ops.Weighs σ p) :
    ops.Weighs σ (.group (.nat 1) (.arith .sub) p) := by
  obtain ⟨one, hone, hone'⟩ := hops.one
  obtain ⟨round, hmono, hround₀, hround₁, hsub⟩ := hops.sub
  have heval : ops.eval (.group (.nat 1) (.arith .sub) p) σ = _ := eval_complement hone p
  have hdiff {v : V} (hv : ops.eval p σ = some v) :
      ∃ u x, ops.arith .sub one v = some u ∧ ops.number u = some (round x) ∧ 0 ≤ x ∧ x ≤ 1 := by
    obtain ⟨x, hx, hx₀, hx₁⟩ := hp.isEvidence hv
    have h₀ : 0 ≤ 1 - x := sub_nonneg.2 hx₁
    have h₁ : 1 - x ≤ 1 := sub_le_self 1 hx₀
    obtain ⟨u, hu, hnumber⟩ := hsub hone' hx h₀ h₁
    exact ⟨u, 1 - x, hu, hnumber, h₀, h₁⟩
  refine ⟨rfl, ?_, ?_⟩
  · rw [Code.premises_group, ← hp.isSome_iff, heval]
    cases hv : ops.eval p σ with
    | none => simp
    | some v =>
        obtain ⟨u, x, hu, -⟩ := hdiff hv
        simp [hu]
  · intro u hu
    rw [heval] at hu
    obtain ⟨v, hv, hu⟩ := Option.bind_eq_some_iff.1 hu
    obtain ⟨u', x, hu', hnumber, h₀, h₁⟩ := hdiff hv
    obtain rfl : u' = u := Option.some.inj (hu'.symm.trans hu)
    -- Rounding keeps the order and leaves the bounds where they are.
    exact ⟨_, hnumber, hround₀ ▸ hmono h₀, hround₁ ▸ hmono h₁⟩

theorem binomialTest {lib : Library} (htests : ops.TestsIn lib) (hσ : σ lib.module = none)
    (count trials probability : Code) (alternative : String) :
    ops.Weighs σ (lib.binomialTest count trials probability alternative) where
  param_eq := rfl
  isSome_iff := by rw [Code.premises_binomialTest, List.forall_mem_singleton]
  isEvidence {v} hv := by
    obtain ⟨args, hargs⟩ := exists_library_of_eval hσ hv
    exact htests.binomialTest hargs

theorem wilcoxon {lib : Library} (htests : ops.TestsIn lib) (hσ : σ lib.module = none)
    (differences : Code) : ops.Weighs σ (lib.wilcoxonPValue differences) := by
  have hpvalue {r : V} (hr : ops.eval (lib.function "wilcoxon" [differences]) σ = some r) :
      ∃ v, ops.eval (lib.wilcoxonPValue differences) σ = some v ∧ ops.IsEvidence v := by
    obtain ⟨args, hargs⟩ := exists_library_of_eval hσ hr
    obtain ⟨v, hv, hevidence⟩ := htests.wilcoxon hargs
    exact ⟨v, by simp only [Library.wilcoxonPValue, eval, hr, hv, Option.bind_eq_bind,
      Option.bind_some], hevidence⟩
  refine ⟨rfl, ?_, ?_⟩
  · rw [Library.wilcoxonPValue, Code.premises, List.forall_mem_singleton]
    cases hr : ops.eval (lib.function "wilcoxon" [differences]) σ with
    | none => simp [eval, hr]
    | some r =>
        obtain ⟨v, hv, -⟩ := hpvalue hr
        rw [Library.wilcoxonPValue] at hv
        simp [hv]
  · intro v hv
    obtain ⟨r, hr, -⟩ := Option.bind_eq_some_iff.1
      (show (ops.eval (lib.function "wilcoxon" [differences]) σ).bind _ = some v from hv)
    obtain ⟨v', hv', hevidence⟩ := hpvalue hr
    obtain rfl : v' = v := Option.some.inj (hv'.symm.trans hv)
    exact hevidence

/-- A p-value that is kept in a variable. -/
theorem name {n : String} {v : V} (h : σ n = some v) (hv : ops.IsEvidence v) :
    ops.Weighs σ (.name n) where
  param_eq := rfl
  isSome_iff := by simp [eval_name_of_some h, Code.premises]
  isEvidence {w} hw := by
    obtain rfl : v = w := Option.some.inj ((eval_name_of_some h).symm.trans hw)
    exact hv

/-- A p-value in the result of a test that is kept in a variable. -/
theorem item {n : String} {r : V} (h : σ n = some r) (hr : ops.HoldsPValue r) :
    ops.Weighs σ (.item (.name n) (.nat 1)) := by
  obtain ⟨v, hv, hevidence⟩ := hr.eval_item (eval_name_of_some h)
  refine ⟨rfl, by simp [hv, Code.premises], ?_⟩
  intro w hw
  obtain rfl : v = w := Option.some.inj (hv.symm.trans hw)
  exact hevidence

end Weighs

namespace Indicates

variable {p q a b : Code}

/-- The smaller and the larger of ones and zeros follow the connectives. -/
theorem extreme (hops : ops.Counts) {op : LogicOp} (hσ : σ op.extremeName = none)
    (hp : p.param? = none) (hq : q.param? = none) (hpa : ops.Indicates σ p a)
    (hqb : ops.Indicates σ q b) :
    ops.Indicates σ (.apply op.extremeName [p, q]) (.group a (.logic op) b) := by
  obtain ⟨f, hf, hcall⟩ := hops.extreme op
  intro u hu
  rw [eval_extreme hσ hf hp hq] at hu
  obtain ⟨v, hv, hu⟩ := Option.bind_eq_some_iff.1 hu
  obtain ⟨w, hw, hu⟩ := Option.bind_eq_some_iff.1 hu
  obtain ⟨v', hv', hx⟩ := hpa hv
  obtain ⟨w', hw', hy⟩ := hqb hw
  obtain ⟨u', hu', hnumber⟩ := hcall hx hy
  obtain rfl : u' = u := Option.some.inj (hu'.symm.trans hu)
  rw [hnumber]
  simp only [Code.group, eval, hv', hw', Option.bind_eq_bind, Option.bind_some]
  cases op <;> rcases htruth : ops.truth v' with _ | _ <;>
    rcases htruth' : ops.truth w' with _ | _ <;>
    simp [binary, LogicOp.extreme, htruth, htruth']

/-- What a one or zero lacks to one follows the negation. -/
theorem complement (hops : ops.Counts) (h : ops.Indicates σ p b) :
    ops.Indicates σ (.group (.nat 1) (.arith .sub) p) (.paren (.not b)) := by
  obtain ⟨one, hone, hone'⟩ := hops.one
  obtain ⟨round, -, hround₀, hround₁, hsub⟩ := hops.sub
  intro u hu
  rw [eval_complement hone] at hu
  obtain ⟨v, hv, hu⟩ := Option.bind_eq_some_iff.1 hu
  obtain ⟨w, hw, hnumber⟩ := h hv
  refine ⟨ops.ofBool (!ops.truth w), by simp [eval, hw], ?_⟩
  rw [ops.truth_ofBool]
  rcases htruth : ops.truth w with _ | _ <;> rw [htruth] at hnumber
  · obtain ⟨u', hu', hround⟩ := hsub hone' hnumber (by simp) (by simp)
    obtain rfl : u' = u := Option.some.inj (hu'.symm.trans hu)
    simpa [hround₁] using hround
  · obtain ⟨u', hu', hround⟩ := hsub hone' hnumber (by simp) (by simp)
    obtain rfl : u' = u := Option.some.inj (hu'.symm.trans hu)
    simpa [hround₀] using hround

end Indicates

end Operations

end StatContract
