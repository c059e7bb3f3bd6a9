import StatContract.Proofs.Lowering.Run
import StatContract.Proofs.Typing.Inspection

/-!
# Watching lowering

Which terms lowering comes to, at which path of the tree and in which state. A
watched step does what a step of lowering does and notes its arrivals besides.
`Clause.watch` is the lowering of a clause with an arrival noted whenever a term is
about to be lowered, and `Clause.follows_watch` says that nothing else is
different: the result and the state are those of `Clause.lower`, also when
lowering fails half way.
-/

namespace StatContract

/-- That lowering comes to a term at a path, and the state it is in. -/
structure Arrival where
  path : TreePath
  term : Term
  state : Context

/-- A watched step of lowering: the arrivals, the result, and the state it leaves. -/
def Watched (α : Type) : Type := Context → List Arrival × Except SpecError α × Context

namespace Watched

variable {α β : Type}

/-- One step after the other. What was come to before a failure stays noted. -/
protected def bind (x : Watched α) (f : α → Watched β) : Watched β := fun ctx =>
  match x ctx with
  | (arrivals, .ok a, ctx') => (arrivals ++ (f a ctx').1, (f a ctx').2)
  | (arrivals, .error e, ctx') => (arrivals, .error e, ctx')

instance : Monad Watched where
  pure a := fun ctx => ([], .ok a, ctx)
  bind := Watched.bind

/-- A step that comes to no term. -/
def ofStep (x : Lower α) : Watched α := fun ctx => ([], x.exec ctx)

/-- A result that does not depend on the state. -/
def ofResult (r : Except SpecError α) : Watched α := fun ctx => ([], r, ctx)

/-- Lowering comes to a term. -/
def arrive (path : TreePath) (t : Term) : Watched Unit := fun ctx =>
  ([⟨path, t, ctx⟩], .ok (), ctx)

/-- The step with a name visible in a scope of its own. -/
def withName (name : String) (x : Watched α) : Watched α := fun ctx =>
  let (arrivals, result, ctx') := x (ctx.push.declare name)
  (arrivals, result, ctx'.pop)

/-- The step for the sample of one trial. -/
def withTrial (index : String) (x : Watched α) : Watched α := fun ctx =>
  let (arrivals, result, ctx') := x { ctx with trial := some index }
  (arrivals, result, { ctx' with trial := ctx.trial })

/-- The watched step does what the step does. -/
def Follows (x : Watched α) (y : Lower α) : Prop := ∀ ctx, (x ctx).2 = y.exec ctx

theorem bind_of_ok {x : Watched α} {ctx ctx' : Context} {a : α} (h : (x ctx).2 = (.ok a, ctx'))
    (f : α → Watched β) : (x >>= f) ctx = ((x ctx).1 ++ (f a ctx').1, (f a ctx').2) := by
  rcases hx : x ctx with ⟨arrivals, result⟩
  obtain rfl : result = (.ok a, ctx') := by rwa [hx] at h
  change Watched.bind x f ctx = _
  rw [Watched.bind, hx]

theorem bind_of_error {x : Watched α} {ctx ctx' : Context} {e : SpecError}
    (h : (x ctx).2 = (.error e, ctx')) (f : α → Watched β) :
    (x >>= f) ctx = ((x ctx).1, .error e, ctx') := by
  rcases hx : x ctx with ⟨arrivals, result⟩
  obtain rfl : result = (.error e, ctx') := by rwa [hx] at h
  change Watched.bind x f ctx = _
  rw [Watched.bind, hx]

namespace Follows

theorem pure (a : α) : (Pure.pure a : Watched α).Follows (Pure.pure a) := fun _ => rfl

theorem ofStep (x : Lower α) : (Watched.ofStep x).Follows x := fun _ => rfl

theorem bind {x : Watched α} {y : Lower α} {f : α → Watched β} {g : α → Lower β}
    (hx : x.Follows y) (hf : ∀ a, (f a).Follows (g a)) : (x >>= f).Follows (y >>= g) := by
  intro ctx
  rw [Lower.exec_bind, ← hx ctx]
  rcases hr : (x ctx).2 with ⟨e | a, ctx'⟩
  · rw [bind_of_error hr]
  · rw [bind_of_ok hr]
    exact hf a ctx'

theorem withName {x : Watched α} {y : Lower α} (h : x.Follows y) (name : String) :
    (x.withName name).Follows (Lower.withName name y) := by
  intro ctx
  rw [Lower.exec_withName, ← h]
  rfl

theorem withTrial {x : Watched α} {y : Lower α} (h : x.Follows y) (index : String) :
    (x.withTrial index).Follows (Lower.withTrial index y) := by
  intro ctx
  rw [Lower.exec_withTrial, ← h]
  rfl

end Follows

/-- Two steps that leave the state alone give what their results give one after
the other. -/
theorem result_bind {x : Watched α} {f : α → Watched β} {ctx : Context}
    {r : Except SpecError α} {s : α → Except SpecError β} (hx : (x ctx).2 = (r, ctx))
    (hf : ∀ a, (f a ctx).2 = (s a, ctx)) : ((x >>= f) ctx).2 = (r >>= s, ctx) := by
  cases r with
  | error e => rw [bind_of_error hx]; rfl
  | ok a =>
      rw [bind_of_ok hx]
      exact hf a

end Watched

open Watched

mutual

/-- Lowers a term and notes the arrivals. -/
def Term.watch (path : TreePath) : Term → Watched Code
  | t@(.constant ..) | t@(.identifier ..) | t@(.probability ..) | t@(.probabilityOverItems ..)
  | t@(.expectation ..) | t@(.expectationOverItems ..) => do
    arrive path t
    ofStep (Lower.term t)
  | .lookup note collection key => do
    arrive path (.lookup note collection key)
    let c ← collection.watch (path ++ [0])
    let k ← key.watch (path ++ [1])
    ofResult do
      let ty ← collection.requireType
      collection.lookupCode ty c k
  | .tuple note elements => do
    arrive path (.tuple note elements)
    let items ← Term.watchList path 0 elements
    return .list items
  | .binary note lhs op rhs => do
    arrive path (.binary note lhs op rhs)
    let lhsTy ← ofResult lhs.requireType
    let rhsTy ← ofResult rhs.requireType
    let node := (Term.binary note lhs op rhs).text
    if lhsTy ≠ rhsTy then
      ofResult (throw (.operandMismatch node lhsTy rhsTy note.span))
    let a ← lhs.watch (path ++ [0])
    let b ← rhs.watch (path ++ [1])
    ofResult do
      if lhsTy.isMatrix then
        match op.matrixFunction? with
        | some f => return .apply f [a, b]
        | none => throw (.unsupportedMatrixOp op node note.span)
      else return .group a (.arith op) b
  | .sizeOf note collection => do
    arrive path (.sizeOf note collection)
    let c ← collection.watch (path ++ [0])
    return .len c
  | .call note name args => do
    arrive path (.call note name args)
    let args ← Term.watchList path 0 args
    return .apply name args

/-- Lowers several terms and notes the arrivals. The terms are parts of the node at
the path, numbered from `i` on. -/
def Term.watchList (path : TreePath) (i : Nat) : List Term → Watched (List Code)
  | [] => return []
  | t :: ts => do
    let c ← t.watch (path ++ [i])
    let cs ← Term.watchList path (i + 1) ts
    return c :: cs

end

mutual

theorem Term.result_watch (ctx : Context) :
    ∀ (t : Term) (path : TreePath), (t.watch path ctx).2 = (t.lower ctx, ctx)
  | .constant .., _ | .identifier .., _ | .probability .., _ | .probabilityOverItems .., _
  | .expectation .., _ | .expectationOverItems .., _ => by
      rw [Term.watch]
      exact Lower.exec_term _ ctx
  | .lookup note collection key, path => by
      rw [Term.watch, Term.lower]
      refine Watched.result_bind (Term.result_watch ctx collection _) fun c => ?_
      exact Watched.result_bind (Term.result_watch ctx key _) fun k => rfl
  | .tuple note elements, path => by
      rw [Term.watch, Term.lower]
      exact Watched.result_bind (Term.result_watchList ctx elements _ _) fun items => rfl
  | .binary note lhs op rhs, path => by
      rw [Term.watch, Term.lower]
      refine Watched.result_bind (x := ofResult lhs.requireType) rfl fun lhsTy => ?_
      refine Watched.result_bind (x := ofResult rhs.requireType) rfl fun rhsTy => ?_
      by_cases hty : lhsTy = rhsTy
      · simp only [hty, ne_eq, not_true_eq_false, if_false]
        refine Watched.result_bind (Term.result_watch ctx lhs _) fun a => ?_
        exact Watched.result_bind (Term.result_watch ctx rhs _) fun b => rfl
      · simp only [hty, ne_eq, not_false_eq_true, if_true]
        rfl
  | .sizeOf note collection, path => by
      rw [Term.watch, Term.lower]
      exact Watched.result_bind (Term.result_watch ctx collection _) fun c => rfl
  | .call note name args, path => by
      rw [Term.watch, Term.lower]
      exact Watched.result_bind (Term.result_watchList ctx args _ _) fun args => rfl

theorem Term.result_watchList (ctx : Context) : ∀ (ts : List Term) (path : TreePath) (i : Nat),
    (Term.watchList path i ts ctx).2 = (Term.lowerList ctx ts, ctx)
  | [], _, _ => rfl
  | t :: ts, path, i => by
      rw [Term.watchList, Term.lowerList]
      refine Watched.result_bind (Term.result_watch ctx t _) fun c => ?_
      exact Watched.result_bind (Term.result_watchList ctx ts _ _) fun cs => rfl

end

theorem Term.follows_watch (t : Term) (path : TreePath) :
    (t.watch path).Follows (Lower.term t) := by
  intro ctx
  rw [Term.result_watch, Lower.exec_term]

/-- Opens loops and notes the arrivals. The collections are parts of the node at
the path, numbered from `i` on. -/
def Range.watchAll (path : TreePath) (i : Nat) : List Range → Watched (List Loop)
  | [] => return []
  | .mk _ var collection mode :: rest => do
    let c ← collection.watch (path ++ [i])
    ofStep (Lower.declare var)
    ofStep Lower.openBlock
    let loops ← Range.watchAll path (i + 1) rest
    return ⟨var, Loop.sourceOf mode c, c, mode⟩ :: loops

theorem Range.follows_watchAll (ranges : List Range) (path : TreePath) (i : Nat) :
    (Range.watchAll path i ranges).Follows (Lower.openRanges ranges) := by
  induction ranges generalizing i with
  | nil => exact .pure []
  | cons r rest ih =>
      obtain ⟨_, var, collection, mode⟩ := r
      refine .bind (collection.follows_watch _) fun c => ?_
      refine .bind (.ofStep _) fun _ => .bind (.ofStep _) fun _ => ?_
      exact .bind (ih (i + 1)) fun loops => .pure _

open Lower in
/-- Lowers a clause and notes the arrivals. -/
def Clause.watch (target : Target) : Clause → TreePath → Mode → Watched Verdict
  | .forAll _ ranges body, path, mode => do
    let result ← ofStep fresh
    if body.domain = .overRuns then
      let pvalues ← ofStep fresh
      ofStep (emit (.set pvalues (.list [])))
      ofStep pushScope
      let loops ← Range.watchAll path 1 ranges
      let p ← body.watch target (path ++ [0]) .probability
      ofStep (emit (.append (.name pvalues) p.code))
      ofStep (closeRanges loops none)
      ofStep popScope
      ofStep (emit (.set result (target.library.combinePValues (.name pvalues))))
      return target.ofPValue mode (.name result)
    else
      ofStep (emit (.set result .yes))
      ofStep pushScope
      let loops ← Range.watchAll path 1 ranges
      let holds ← body.watch target (path ++ [0]) .boolean
      ofStep (emit (.set result (.binary (.name result) (.logic .and) holds.code)))
      ofStep (closeRanges loops (some result))
      ofStep popScope
      return .ofCondition mode (.name result)
  | .letIn _ name value body, path, mode => do
    let v ← value.watch (path ++ [0])
    ofStep (emit (.set name v))
    Watched.withName name (body.watch target (path ++ [1]) mode)
  | .membership _ item collection, path, mode => do
    let i ← item.watch (path ++ [0])
    let itemTy ← ofStep (MonadExcept.ofExcept item.requireType)
    let i := if itemTy.isSequence then .apply "tuple" [i] else i
    let c ← collection.watch (path ++ [1])
    ofStep do
      match ← MonadExcept.ofExcept collection.requireType with
      | .sequence _ => return .ofCondition mode (.group i .within c)
      | .map _ _ => return .ofCondition mode (.getOrZero c i)
      | other => throw (.notSearchable collection.text other collection.span)
  | .approx _ lhs rhs, path, mode => do
    ofStep do
      unless lhs.isIdentifier outputName do
        throw (.approxTarget lhs.text lhs.span)
    let expected ← rhs.watch (path ++ [1])
    ofStep do
      let differences ← fresh
      let sample ← fresh
      emit (.set differences (.comprehension
        (.binary (.name sample) (.arith .sub) expected) sample (.name outputName)))
      return target.ofPValue mode (target.library.wilcoxonPValue (.name differences))
  | .compare span lhs op rhs, path, mode =>
    let clause := Clause.compare span lhs op rhs
    match lhs with
    | .probability _ trials body => do
      let alternative ← ofStep (requireAlternative clause op)
      let count ← ofStep fresh
      ofStep (emit (.set count (.nat 0)))
      let index ← ofStep fresh
      ofStep openBlock
      let hit ← Watched.withTrial index (body.watch target (path ++ [0] ++ [0]) .boolean)
      ofStep (countHit count hit.code)
      let loopBody ← ofStep closeBlock
      ofStep (emit (.forIn index (.range (.name (trialCount trials))) loopBody))
      let probability ← rhs.watch (path ++ [1])
      return target.ofPValue mode (target.library.binomialTest (.name count)
        (.name (trialCount trials)) probability alternative.text)
    | .probabilityOverItems _ ranges body => do
      let alternative ← ofStep (requireAlternative clause op)
      let count ← ofStep fresh
      ofStep (emit (.set count (.nat 0)))
      ofStep pushScope
      let loops ← Range.watchAll (path ++ [0]) 1 ranges
      let hit ← body.watch target (path ++ [0] ++ [0]) .boolean
      ofStep (countHit count hit.code)
      ofStep (closeRanges loops none)
      ofStep popScope
      let probability ← rhs.watch (path ++ [1])
      return target.ofPValue mode (target.library.binomialTest (.name count)
        (Loop.countAll loops) probability alternative.text)
    | .expectation _ _ body => do
      ofStep do
        unless body.isIdentifier outputName do
          throw (.expectationTarget body.text body.span)
      let expected ← rhs.watch (path ++ [1])
      ofStep (tTest target clause (.name outputName) expected op mode)
    | .expectationOverItems _ ranges body => do
      let samples ← ofStep fresh
      ofStep (emit (.set samples (.list [])))
      ofStep pushScope
      let loops ← Range.watchAll (path ++ [0]) 1 ranges
      let value ← body.watch (path ++ [0] ++ [0])
      ofStep (emit (.append (.name samples) value))
      ofStep (closeRanges loops none)
      ofStep popScope
      let expected ← rhs.watch (path ++ [1])
      ofStep (tTest target clause (.name samples) expected op mode)
    | lhs => do
      let a ← lhs.watch (path ++ [0])
      let b ← rhs.watch (path ++ [1])
      return .ofCondition mode (.group a (.compare op) b)
  | .logic _ lhs op rhs, path, mode => do
    let a ← lhs.watch target (path ++ [0]) mode
    let b ← rhs.watch target (path ++ [1]) mode
    match mode, op with
    | .boolean, op => return .boolean (.group a.code (.logic op) b.code)
    | .probability, .and => return .probability (.apply "min" [a.code, b.code])
    | .probability, .or => return .probability (.apply "max" [a.code, b.code])
  | .not _ inner, path, mode => do
    let v ← inner.watch target (path ++ [0]) mode
    match mode with
    | .boolean => return .boolean (.paren (.not v.code))
    | .probability => return .probability (.group (.nat 1) (.arith .sub) v.code)

/-- Watching changes nothing: lowering comes to the same result and leaves the
same state. -/
theorem Clause.follows_watch (target : Target) : ∀ (c : Clause) (path : TreePath) (mode : Mode),
    (c.watch target path mode).Follows (c.lower target mode)
  | .forAll _ ranges body, path, mode => by
      rw [Clause.watch, Clause.lower]
      refine .bind (.ofStep _) fun result => ?_
      split
      · refine .bind (.ofStep _) fun pvalues => ?_
        refine .bind (.ofStep _) fun _ => .bind (.ofStep _) fun _ => ?_
        refine .bind (Range.follows_watchAll ranges path 1) fun loops => ?_
        refine .bind (body.follows_watch target _ _) fun p => ?_
        refine .bind (.ofStep _) fun _ => .bind (.ofStep _) fun _ => ?_
        exact .bind (.ofStep _) fun _ => .bind (.ofStep _) fun _ => .pure _
      · refine .bind (.ofStep _) fun _ => .bind (.ofStep _) fun _ => ?_
        refine .bind (Range.follows_watchAll ranges path 1) fun loops => ?_
        refine .bind (body.follows_watch target _ _) fun p => ?_
        refine .bind (.ofStep _) fun _ => .bind (.ofStep _) fun _ => ?_
        exact .bind (.ofStep _) fun _ => .pure _
  | .letIn _ name value body, path, mode => by
      rw [Clause.watch, Clause.lower]
      refine .bind (value.follows_watch _) fun v => .bind (.ofStep _) fun _ => ?_
      exact (body.follows_watch target _ mode).withName name
  | .membership _ item collection, path, mode => by
      rw [Clause.watch, Clause.lower]
      refine .bind (item.follows_watch _) fun i => .bind (.ofStep _) fun itemTy => ?_
      exact .bind (collection.follows_watch _) fun c => .ofStep _
  | .approx _ lhs rhs, path, mode => by
      rw [Clause.watch, Clause.lower]
      cases lhs.isIdentifier outputName with
      | false => exact .bind (.ofStep _) fun _ => .bind (rhs.follows_watch _) fun _ => .ofStep _
      | true => exact .bind (.ofStep _) fun _ => .bind (rhs.follows_watch _) fun _ => .ofStep _
  | .compare span (.probability _ trials body) op rhs, path, mode => by
      rw [Clause.watch, Clause.lower]
      refine .bind (.ofStep _) fun alternative => .bind (.ofStep _) fun count => ?_
      refine .bind (.ofStep _) fun _ => .bind (.ofStep _) fun index => .bind (.ofStep _) fun _ => ?_
      refine .bind ((body.follows_watch target _ _).withTrial index) fun hit => ?_
      refine .bind (.ofStep _) fun _ => .bind (.ofStep _) fun loopBody => ?_
      exact .bind (.ofStep _) fun _ => .bind (rhs.follows_watch _) fun probability => .pure _
  | .compare span (.probabilityOverItems _ ranges body) op rhs, path, mode => by
      rw [Clause.watch, Clause.lower]
      refine .bind (.ofStep _) fun alternative => .bind (.ofStep _) fun count => ?_
      refine .bind (.ofStep _) fun _ => .bind (.ofStep _) fun _ => ?_
      refine .bind (Range.follows_watchAll ranges _ 1) fun loops => ?_
      refine .bind (body.follows_watch target _ _) fun hit => ?_
      refine .bind (.ofStep _) fun _ => .bind (.ofStep _) fun _ => .bind (.ofStep _) fun _ => ?_
      exact .bind (rhs.follows_watch _) fun probability => .pure _
  | .compare span (.expectation _ trials body) op rhs, path, mode => by
      rw [Clause.watch, Clause.lower]
      cases body.isIdentifier outputName with
      | false => exact .bind (.ofStep _) fun _ => .bind (rhs.follows_watch _) fun _ => .ofStep _
      | true => exact .bind (.ofStep _) fun _ => .bind (rhs.follows_watch _) fun _ => .ofStep _
  | .compare span (.expectationOverItems _ ranges body) op rhs, path, mode => by
      rw [Clause.watch, Clause.lower]
      refine .bind (.ofStep _) fun samples => ?_
      refine .bind (.ofStep _) fun _ => .bind (.ofStep _) fun _ => ?_
      refine .bind (Range.follows_watchAll ranges _ 1) fun loops => ?_
      refine .bind (body.follows_watch _) fun value => ?_
      refine .bind (.ofStep _) fun _ => .bind (.ofStep _) fun _ => .bind (.ofStep _) fun _ => ?_
      exact .bind (rhs.follows_watch _) fun expected => .ofStep _
  | .compare _ (.constant ..) _ rhs, _, _ | .compare _ (.lookup ..) _ rhs, _, _
  | .compare _ (.identifier ..) _ rhs, _, _ | .compare _ (.tuple ..) _ rhs, _, _
  | .compare _ (.binary ..) _ rhs, _, _ | .compare _ (.sizeOf ..) _ rhs, _, _
  | .compare _ (.call ..) _ rhs, _, _ =>
      .bind (Term.follows_watch _ _) fun _ => .bind (rhs.follows_watch _) fun _ => .pure _
  | .logic _ lhs op rhs, path, mode => by
      rw [Clause.watch, Clause.lower]
      refine .bind (lhs.follows_watch target _ mode) fun a => ?_
      refine .bind (rhs.follows_watch target _ mode) fun b => ?_
      cases mode <;> cases op <;> exact .pure _
  | .not _ inner, path, mode => by
      rw [Clause.watch, Clause.lower]
      refine .bind (inner.follows_watch target _ mode) fun v => ?_
      cases mode <;> exact .pure _

end StatContract
