import StatContract.Typing.Analysis

/-!
# The balance of scopes

The analysis works on one stack of scopes, which it enters and leaves as it goes.
`Clause.analyze` is the same analysis with the environment passed down: what a
binder adds is simply not seen outside of it, and nothing has to be taken back.

The two agree (`Clause.gives_typecheck`): they find the same types and the same
defect, and a clause or term that passes leaves the stack as it was. So every
scope that is entered is left, and what stands after a binder sees the names that
it would see without it. After a defect the stack stays as it is at that point.
-/

namespace StatContract

mutual

/-- Analyses a clause. -/
def Clause.analyze (env : TypeEnv) : Clause → Clause × Except SpecError Unit
  | .forAll span ranges body =>
    match Range.analyzeList env.push ranges with
    | (ranges, .error e) => (.forAll span ranges body, .error e)
    | (ranges, .ok env) =>
      let (body, result) := body.analyze env
      (.forAll span ranges body, result)
  | .letIn span name value body =>
    match value.analyze env with
    | (value, .error e) => (.letIn span name value body, .error e)
    | (value, .ok ty) =>
      let (body, result) := body.analyze (env.push.define name ty)
      (.letIn span name value body, result)
  | .membership span item collection =>
    match item.analyze env with
    | (item, .error e) => (.membership span item collection, .error e)
    | (item, .ok _) =>
      let (collection, result) := collection.analyze env
      (.membership span item collection, result.map fun _ => ())
  | .approx span lhs rhs =>
    if lhs.isIdentifier outputName then
      match lhs.analyze env with
      | (lhs, .error e) => (.approx span lhs rhs, .error e)
      | (lhs, .ok _) =>
        let (rhs, result) := rhs.analyze env
        (.approx span lhs rhs, result.map fun _ => ())
    else (.approx span lhs rhs, .error (.approxTarget lhs.text lhs.span))
  | .compare span lhs op rhs =>
    match lhs.analyze env with
    | (lhs, .error e) => (.compare span lhs op rhs, .error e)
    | (lhs, .ok _) =>
      let (rhs, result) := rhs.analyze env
      (.compare span lhs op rhs, result.map fun _ => ())
  | .logic span lhs op rhs =>
    match lhs.analyze env with
    | (lhs, .error e) => (.logic span lhs op rhs, .error e)
    | (lhs, .ok _) =>
      let (rhs, result) := rhs.analyze env
      (.logic span lhs op rhs, result)
  | .not span inner =>
    let (inner, result) := inner.analyze env
    (.not span inner, result)

/-- Analyses a term and gives its type. -/
def Term.analyze (env : TypeEnv) : Term → Term × Except SpecError ValueType
  | .constant note value => (.constant (note.typed .scalar) value, .ok .scalar)
  | .probability note trials body =>
    match body.analyze env with
    | (body, .error e) => (.probability note trials body, .error e)
    | (body, .ok _) => (.probability (note.typed .scalar) trials body, .ok .scalar)
  | .probabilityOverItems note ranges body =>
    match Range.analyzeList env.push ranges with
    | (ranges, .error e) => (.probabilityOverItems note ranges body, .error e)
    | (ranges, .ok env) =>
      match body.analyze env with
      | (body, .error e) => (.probabilityOverItems note ranges body, .error e)
      | (body, .ok _) => (.probabilityOverItems (note.typed .scalar) ranges body, .ok .scalar)
  | .expectation note trials body =>
    match body.analyze env with
    | (body, .error e) => (.expectation note trials body, .error e)
    | (body, .ok _) => (.expectation (note.typed .scalar) trials body, .ok .scalar)
  | .expectationOverItems note ranges body =>
    match Range.analyzeList env.push ranges with
    | (ranges, .error e) => (.expectationOverItems note ranges body, .error e)
    | (ranges, .ok env) =>
      match body.analyze env with
      | (body, .error e) => (.expectationOverItems note ranges body, .error e)
      | (body, .ok _) => (.expectationOverItems (note.typed .scalar) ranges body, .ok .scalar)
  | .lookup note collection key =>
    match collection.analyze env with
    | (collection, .error e) => (.lookup note collection key, .error e)
    | (collection, .ok ty) =>
      match key.analyze env with
      | (key, .error e) => (.lookup note collection key, .error e)
      | (key, .ok _) =>
        match ty.entry? with
        | some entry => (.lookup (note.typed entry) collection key, .ok entry)
        | none =>
          (.lookup note collection key,
            .error (.notIndexable collection.text ty collection.span))
  | .identifier note name =>
    (.identifier (note.typed (env.typeOf name)) name, .ok (env.typeOf name))
  | .tuple note elements =>
    match Term.analyzeList env elements with
    | (elements, .error e) => (.tuple note elements, .error e)
    | (elements, .ok types) =>
      -- The first element decides; the others are not compared with it.
      let ty := ValueType.sequence (types.headD .scalar)
      (.tuple (note.typed ty) elements, .ok ty)
  | .binary note lhs op rhs =>
    match lhs.analyze env with
    | (lhs, .error e) => (.binary note lhs op rhs, .error e)
    | (lhs, .ok lhsTy) =>
      match rhs.analyze env with
      | (rhs, .error e) => (.binary note lhs op rhs, .error e)
      | (rhs, .ok rhsTy) =>
        if lhsTy = rhsTy then (.binary (note.typed lhsTy) lhs op rhs, .ok lhsTy)
        else
          (.binary note lhs op rhs,
            .error (.operandMismatch (lhs.text ++ " " ++ op.symbol ++ " " ++ rhs.text)
              lhsTy rhsTy (lhs.span.merge rhs.span)))
  | .sizeOf note collection =>
    match collection.analyze env with
    | (collection, .error e) => (.sizeOf note collection, .error e)
    | (collection, .ok _) => (.sizeOf (note.typed .scalar) collection, .ok .scalar)
  | .call note name args =>
    match Term.analyzeList env args with
    | (args, .error e) => (.call note name args, .error e)
    | (args, .ok _) => (.call (note.typed (env.typeOf name)) name args, .ok (env.typeOf name))

/-- Analyses ranges in order; each variable is visible in the ranges after its
own. Gives the environment of what follows the ranges. -/
def Range.analyzeList (env : TypeEnv) : List Range → List Range × Except SpecError TypeEnv
  | [] => ([], .ok env)
  | .mk span var collection mode :: rest =>
    match collection.analyze env with
    | (collection, .error e) => (.mk span var collection mode :: rest, .error e)
    | (collection, .ok ty) =>
      match ty.element? with
      | none =>
        (.mk span var collection mode :: rest,
          .error (.notIterable collection.text ty collection.span))
      | some element =>
        let (rest, result) := Range.analyzeList (env.define var (mode.varType element)) rest
        (.mk span var collection mode :: rest, result)

/-- Analyses terms from left to right and gives their types. -/
def Term.analyzeList (env : TypeEnv) : List Term → List Term × Except SpecError (List ValueType)
  | [] => ([], .ok [])
  | t :: rest =>
    match t.analyze env with
    | (t, .error e) => (t :: rest, .error e)
    | (t, .ok ty) =>
      let (rest, result) := Term.analyzeList env rest
      (t :: rest, result.map (ty :: ·))

end

namespace TypeEnv

/-- Leaving a scope undoes what was defined in it. -/
theorem pop_define {env : TypeEnv} (h : env.inner ≠ []) (name : String) (ty : ValueType) :
    (env.define name ty).inner ≠ [] ∧ (env.define name ty).pop = env.pop := by
  rcases env with ⟨_ | ⟨scope, outer⟩, declared⟩
  · exact absurd rfl h
  · exact ⟨List.cons_ne_nil _ _, rfl⟩

end TypeEnv

/-- Ranges define their variables in the innermost scope. -/
theorem Range.pop_of_analyzeList {ranges ranges' : List Range} {env env' : TypeEnv}
    (hinner : env.inner ≠ []) (h : Range.analyzeList env ranges = (ranges', .ok env')) :
    env'.pop = env.pop := by
  induction ranges generalizing env ranges' with
  | nil =>
      rw [Range.analyzeList] at h
      cases h
      rfl
  | cons range rest ih =>
      obtain ⟨span, var, collection, mode⟩ := range
      rw [Range.analyzeList] at h
      rcases hc : collection.analyze env with ⟨collection', e | ty⟩
      · simp [hc] at h
      · cases helement : ty.element? with
        | none => simp [hc, helement] at h
        | some element =>
            simp only [hc, helement, Prod.mk.injEq] at h
            obtain ⟨hinner', hpop⟩ := TypeEnv.pop_define hinner var (mode.varType element)
            exact (ih hinner' (Prod.ext rfl h.2)).trans hpop

theorem Range.pop_of_analyzeList_push {ranges ranges' : List Range} {env env' : TypeEnv}
    (h : Range.analyzeList env.push ranges = (ranges', .ok env')) : env'.pop = env :=
  (Range.pop_of_analyzeList (List.cons_ne_nil _ _) h).trans env.pop_push

namespace Typing

variable {α β γ δ : Type} {env env₁ env₂ : TypeEnv}

/-- From the first environment the step gives the result, and if that is a success
it ends in the second environment. -/
structure Gives (x : Typing (α × Except SpecError β)) (env : TypeEnv)
    (r : α × Except SpecError β) (env' : TypeEnv) : Prop where
  fst_eq : (x env).1 = r
  snd_eq : ∀ b, r.2 = .ok b → (x env).2 = env'

namespace Gives

theorem pure (r : α × Except SpecError β) : Gives (Pure.pure r) env r env :=
  ⟨rfl, fun _ _ => rfl⟩

/-- A step that has failed may end anywhere. -/
theorem error (a : α) (e : SpecError) :
    Gives (Pure.pure (a, .error e)) env (a, (.error e : Except SpecError β)) env₁ := by
  refine ⟨rfl, ?_⟩
  rintro b ⟨⟩

theorem modify {f : TypeEnv → TypeEnv} {k : PUnit → Typing (α × Except SpecError β)}
    {r : α × Except SpecError β} (h : Gives (k ⟨⟩) (f env) r env₁) :
    Gives (modify f >>= k) env r env₁ :=
  ⟨h.fst_eq, h.snd_eq⟩

theorem bind_ok {x : Typing (α × Except SpecError β)} {a : α} {b : β}
    (hx : Gives x env (a, .ok b) env₁)
    {k : α × Except SpecError β → Typing (γ × Except SpecError δ)} {r : γ × Except SpecError δ}
    (hk : Gives (k (a, .ok b)) env₁ r env₂) : Gives (x >>= k) env r env₂ := by
  have hbind : (x >>= k) env = k (x env).1 (x env).2 := rfl
  rw [hx.fst_eq, hx.snd_eq b rfl] at hbind
  exact ⟨by rw [hbind, hk.fst_eq], fun d hd => by rw [hbind, hk.snd_eq d hd]⟩

theorem bind_error {x : Typing (α × Except SpecError β)} {a : α} {e : SpecError}
    (hx : Gives x env (a, .error e) env₁)
    {k : α × Except SpecError β → Typing (γ × Except SpecError δ)} {c : γ}
    (hk : k (a, .error e) = Pure.pure (c, .error e)) :
    Gives (x >>= k) env (c, .error e) env₂ := by
  have hbind : (x >>= k) env = k (x env).1 (x env).2 := rfl
  rw [hx.fst_eq, hk] at hbind
  refine ⟨by rw [hbind]; rfl, ?_⟩
  rintro d ⟨⟩

end Gives

end Typing

open Typing

mutual

/-- Checking a clause on the stack of scopes is analysing it in the environment of
its place, and a clause that passes leaves the stack as it was. -/
theorem Clause.gives_typecheck : ∀ (c : Clause) (env : TypeEnv),
    Gives c.typecheck env (c.analyze env) env
  | .forAll span ranges body, env => by
      have hranges := Range.gives_typecheckList ranges env.push
      rw [Clause.typecheck, Clause.analyze]
      refine .modify ?_
      rcases hr : Range.analyzeList env.push ranges with ⟨ranges', e | env₁⟩ <;> rw [hr] at hranges
      · exact hranges.bind_error rfl
      · have hpop := Range.pop_of_analyzeList_push hr
        have hbody := Clause.gives_typecheck body env₁
        refine hranges.bind_ok ?_
        dsimp only
        rcases hb : body.analyze env₁ with ⟨body', e | _⟩ <;> rw [hb] at hbody
        · exact hbody.bind_error rfl
        · refine hbody.bind_ok (.modify ?_)
          rw [hpop]
          exact .pure _
  | .letIn span name value body, env => by
      have hvalue := Term.gives_typecheck value env
      rw [Clause.typecheck, Clause.analyze]
      rcases hv : value.analyze env with ⟨value', e | τ⟩ <;> rw [hv] at hvalue
      · exact hvalue.bind_error rfl
      · have hbody := Clause.gives_typecheck body (env.push.define name τ)
        refine hvalue.bind_ok (.modify (.modify ?_))
        dsimp only
        rcases hb : body.analyze (env.push.define name τ) with ⟨body', e | _⟩ <;> rw [hb] at hbody
        · exact hbody.bind_error rfl
        · exact hbody.bind_ok (.modify (.pure _))
  | .membership span item collection, env => by
      have hitem := Term.gives_typecheck item env
      have hcollection := Term.gives_typecheck collection env
      rw [Clause.typecheck, Clause.analyze]
      rcases hi : item.analyze env with ⟨item', e | τ⟩ <;> rw [hi] at hitem
      · exact hitem.bind_error rfl
      · refine hitem.bind_ok ?_
        dsimp only
        rcases hc : collection.analyze env with ⟨collection', e | σ⟩ <;> rw [hc] at hcollection
        · exact hcollection.bind_error rfl
        · exact hcollection.bind_ok (.pure _)
  | .approx span lhs rhs, env => by
      have hlhs := Term.gives_typecheck lhs env
      have hrhs := Term.gives_typecheck rhs env
      rw [Clause.typecheck, Clause.analyze]
      split
      · rcases hl : lhs.analyze env with ⟨lhs', e | τ⟩ <;> rw [hl] at hlhs
        · exact hlhs.bind_error rfl
        · refine hlhs.bind_ok ?_
          dsimp only
          rcases hr : rhs.analyze env with ⟨rhs', e | σ⟩ <;> rw [hr] at hrhs
          · exact hrhs.bind_error rfl
          · exact hrhs.bind_ok (.pure _)
      · exact .error _ _
  | .compare span lhs op rhs, env => by
      have hlhs := Term.gives_typecheck lhs env
      have hrhs := Term.gives_typecheck rhs env
      rw [Clause.typecheck, Clause.analyze]
      rcases hl : lhs.analyze env with ⟨lhs', e | τ⟩ <;> rw [hl] at hlhs
      · exact hlhs.bind_error rfl
      · refine hlhs.bind_ok ?_
        dsimp only
        rcases hr : rhs.analyze env with ⟨rhs', e | σ⟩ <;> rw [hr] at hrhs
        · exact hrhs.bind_error rfl
        · exact hrhs.bind_ok (.pure _)
  | .logic span lhs op rhs, env => by
      have hlhs := Clause.gives_typecheck lhs env
      have hrhs := Clause.gives_typecheck rhs env
      rw [Clause.typecheck, Clause.analyze]
      rcases hl : lhs.analyze env with ⟨lhs', e | _⟩ <;> rw [hl] at hlhs
      · exact hlhs.bind_error rfl
      · refine hlhs.bind_ok ?_
        dsimp only
        rcases hr : rhs.analyze env with ⟨rhs', e | _⟩ <;> rw [hr] at hrhs
        · exact hrhs.bind_error rfl
        · exact hrhs.bind_ok (.pure _)
  | .not span inner, env => by
      have hinner := Clause.gives_typecheck inner env
      rw [Clause.typecheck, Clause.analyze]
      rcases hi : inner.analyze env with ⟨inner', e | _⟩ <;> rw [hi] at hinner
      · exact hinner.bind_error rfl
      · exact hinner.bind_ok (.pure _)

theorem Term.gives_typecheck : ∀ (t : Term) (env : TypeEnv),
    Gives t.typecheck env (t.analyze env) env
  | .constant .., env | .identifier .., env => by
      rw [Term.typecheck, Term.analyze]
      exact ⟨rfl, fun _ _ => rfl⟩
  | .probability note trials body, env => by
      have hbody := Clause.gives_typecheck body env
      rw [Term.typecheck, Term.analyze]
      rcases hb : body.analyze env with ⟨body', e | _⟩ <;> rw [hb] at hbody
      · exact hbody.bind_error rfl
      · exact hbody.bind_ok (.pure _)
  | .probabilityOverItems note ranges body, env => by
      have hranges := Range.gives_typecheckList ranges env.push
      rw [Term.typecheck, Term.analyze]
      refine .modify ?_
      rcases hr : Range.analyzeList env.push ranges with ⟨ranges', e | env₁⟩ <;> rw [hr] at hranges
      · exact hranges.bind_error rfl
      · have hpop := Range.pop_of_analyzeList_push hr
        have hbody := Clause.gives_typecheck body env₁
        refine hranges.bind_ok ?_
        dsimp only
        rcases hb : body.analyze env₁ with ⟨body', e | _⟩ <;> rw [hb] at hbody
        · exact hbody.bind_error rfl
        · refine hbody.bind_ok (.modify ?_)
          rw [hpop]
          exact .pure _
  | .expectation note trials body, env => by
      have hbody := Term.gives_typecheck body env
      rw [Term.typecheck, Term.analyze]
      rcases hb : body.analyze env with ⟨body', e | τ⟩ <;> rw [hb] at hbody
      · exact hbody.bind_error rfl
      · exact hbody.bind_ok (.pure _)
  | .expectationOverItems note ranges body, env => by
      have hranges := Range.gives_typecheckList ranges env.push
      rw [Term.typecheck, Term.analyze]
      refine .modify ?_
      rcases hr : Range.analyzeList env.push ranges with ⟨ranges', e | env₁⟩ <;> rw [hr] at hranges
      · exact hranges.bind_error rfl
      · have hpop := Range.pop_of_analyzeList_push hr
        have hbody := Term.gives_typecheck body env₁
        refine hranges.bind_ok ?_
        dsimp only
        rcases hb : body.analyze env₁ with ⟨body', e | τ⟩ <;> rw [hb] at hbody
        · exact hbody.bind_error rfl
        · refine hbody.bind_ok (.modify ?_)
          rw [hpop]
          exact .pure _
  | .lookup note collection key, env => by
      have hcollection := Term.gives_typecheck collection env
      have hkey := Term.gives_typecheck key env
      rw [Term.typecheck, Term.analyze]
      rcases hc : collection.analyze env with ⟨collection', e | τ⟩ <;> rw [hc] at hcollection
      · exact hcollection.bind_error rfl
      · refine hcollection.bind_ok ?_
        dsimp only
        rcases hk : key.analyze env with ⟨key', e | σ⟩ <;> rw [hk] at hkey
        · exact hkey.bind_error rfl
        · refine hkey.bind_ok ?_
          dsimp only
          cases τ.entry? with
          | none => exact .error _ _
          | some entry => exact .pure _
  | .tuple note elements, env => by
      have helements := Term.gives_typecheckList elements env
      rw [Term.typecheck, Term.analyze]
      rcases he : Term.analyzeList env elements with ⟨elements', e | types⟩ <;> rw [he] at helements
      · exact helements.bind_error rfl
      · exact helements.bind_ok (.pure _)
  | .binary note lhs op rhs, env => by
      have hlhs := Term.gives_typecheck lhs env
      have hrhs := Term.gives_typecheck rhs env
      rw [Term.typecheck, Term.analyze]
      rcases hl : lhs.analyze env with ⟨lhs', e | τ⟩ <;> rw [hl] at hlhs
      · exact hlhs.bind_error rfl
      · refine hlhs.bind_ok ?_
        dsimp only
        rcases hr : rhs.analyze env with ⟨rhs', e | σ⟩ <;> rw [hr] at hrhs
        · exact hrhs.bind_error rfl
        · refine hrhs.bind_ok ?_
          dsimp only
          split
          · exact .pure _
          · exact .error _ _
  | .sizeOf note collection, env => by
      have hcollection := Term.gives_typecheck collection env
      rw [Term.typecheck, Term.analyze]
      rcases hc : collection.analyze env with ⟨collection', e | τ⟩ <;> rw [hc] at hcollection
      · exact hcollection.bind_error rfl
      · exact hcollection.bind_ok (.pure _)
  | .call note name args, env => by
      have hargs := Term.gives_typecheckList args env
      rw [Term.typecheck, Term.analyze]
      rcases ha : Term.analyzeList env args with ⟨args', e | types⟩ <;> rw [ha] at hargs
      · exact hargs.bind_error rfl
      · exact hargs.bind_ok ⟨rfl, fun _ _ => rfl⟩

/-- Ranges that pass leave the environment of what follows them. -/
theorem Range.gives_typecheckList : ∀ (ranges : List Range) (env : TypeEnv),
    Gives (Range.typecheckList ranges) env
      ((Range.analyzeList env ranges).1, (Range.analyzeList env ranges).2.map fun _ => ())
      ((Range.analyzeList env ranges).2.toOption.getD env)
  | [], env => by
      rw [Range.typecheckList, Range.analyzeList]
      exact .pure _
  | .mk span var collection mode :: rest, env => by
      have hcollection := Term.gives_typecheck collection env
      rw [Range.typecheckList, Range.analyzeList]
      rcases hc : collection.analyze env with ⟨collection', e | τ⟩ <;> rw [hc] at hcollection
      · exact hcollection.bind_error rfl
      · refine hcollection.bind_ok ?_
        dsimp only
        cases helement : τ.element? with
        | none => exact .error _ _
        | some element =>
            have hrest := Range.gives_typecheckList rest (env.define var (mode.varType element))
            refine .modify ?_
            dsimp only
            rcases hr : Range.analyzeList (env.define var (mode.varType element)) rest
              with ⟨rest', e | env₁⟩ <;> rw [hr] at hrest
            · exact hrest.bind_error rfl
            · exact hrest.bind_ok (.pure _)

theorem Term.gives_typecheckList : ∀ (ts : List Term) (env : TypeEnv),
    Gives (Term.typecheckList ts) env (Term.analyzeList env ts) env
  | [], env => by
      rw [Term.typecheckList, Term.analyzeList]
      exact .pure _
  | t :: rest, env => by
      have ht := Term.gives_typecheck t env
      have hrest := Term.gives_typecheckList rest env
      rw [Term.typecheckList, Term.analyzeList]
      rcases h : t.analyze env with ⟨t', e | τ⟩ <;> rw [h] at ht
      · exact ht.bind_error rfl
      · refine ht.bind_ok ?_
        dsimp only
        rcases hr : Term.analyzeList env rest with ⟨rest', e | types⟩ <;> rw [hr] at hrest
        · exact hrest.bind_error rfl
        · exact hrest.bind_ok (.pure _)

end

namespace Specification

/-- Analyses a contract that may be absent, and gives the defect found. -/
def analyzePart {α β : Type} (analyze : α → α × Except SpecError β) :
    Option α → Option α × Option SpecError
  | none => (none, none)
  | some part =>
    match analyze part with
    | (part, .error e) => (some part, some e)
    | (part, .ok _) => (some part, none)

/-- The contracts in turn, each in the environment of the declarations. -/
def analyzeContracts (spec : Specification) : Specification × Except SpecError Domain :=
  match analyzePart (Clause.analyze spec.env) spec.accuracy with
  | (accuracy, some e) => ({ spec with accuracy }, .error e)
  | (accuracy, none) =>
    match analyzePart (Term.analyze spec.env) spec.time with
    | (time, some e) => ({ spec with accuracy, time }, .error e)
    | (time, none) =>
      match analyzePart (Term.analyze spec.env) spec.space with
      | (space, some e) => ({ spec with accuracy, time, space }, .error e)
      | (space, none) => ({ spec with accuracy, time, space }, .ok spec.domain)

theorem gives_typecheckPart {α β : Type} {check : α → Typing (α × Except SpecError β)}
    {analyze : α → α × Except SpecError β} {env : TypeEnv}
    (h : ∀ a, Gives (check a) env (analyze a) env) (part : Option α) :
    Gives (typecheck.typecheckPart check part) env
      ((analyzePart analyze part).1,
        ((analyzePart analyze part).2.map .error).getD (.ok ())) env := by
  cases part with
  | none => exact .pure _
  | some a =>
      have ha := h a
      rw [typecheck.typecheckPart, analyzePart]
      rcases hr : analyze a with ⟨a', e | b⟩ <;> rw [hr] at ha
      · exact ha.bind_error rfl
      · exact ha.bind_ok (.pure _)

/-- A contract that passes leaves the environment of the declarations to the next
one. -/
theorem gives_typecheck (spec : Specification) :
    Gives spec.typecheck spec.env spec.analyzeContracts spec.env := by
  have haccuracy := gives_typecheckPart (fun c => c.gives_typecheck spec.env) spec.accuracy
  have htime := gives_typecheckPart (fun t => t.gives_typecheck spec.env) spec.time
  have hspace := gives_typecheckPart (fun t => t.gives_typecheck spec.env) spec.space
  rw [typecheck, analyzeContracts]
  rcases ha : analyzePart (Clause.analyze spec.env) spec.accuracy with ⟨accuracy, _ | e⟩ <;>
    rw [ha] at haccuracy
  · refine haccuracy.bind_ok ?_
    dsimp only
    rcases ht : analyzePart (Term.analyze spec.env) spec.time with ⟨time, _ | e⟩ <;>
      rw [ht] at htime
    · refine htime.bind_ok ?_
      dsimp only
      rcases hs : analyzePart (Term.analyze spec.env) spec.space with ⟨space, _ | e⟩ <;>
        rw [hs] at hspace
      · exact hspace.bind_ok (.pure _)
      · exact hspace.bind_error rfl
    · exact htime.bind_error rfl
  · exact haccuracy.bind_error rfl

theorem analyze_of_missing {spec : Specification} {name : String}
    (h : spec.missingDeclaration? = some name) :
    spec.analyze = (spec, .error (.missingDeclaration name spec.span)) := by
  rw [analyze, h]

theorem analyze_of_declared {spec : Specification} (h : spec.missingDeclaration? = none) :
    spec.analyze = spec.analyzeContracts := by
  rw [analyze, h]
  exact spec.gives_typecheck.fst_eq

/-- A specification that passes has left every scope that was entered. -/
theorem env_of_analyze {spec : Specification} {d : Domain} (h : spec.analyze.2 = .ok d) :
    (spec.typecheck spec.env).2 = spec.env := by
  cases hdecl : spec.missingDeclaration? with
  | some name =>
      rw [analyze_of_missing hdecl] at h
      cases h
  | none =>
      rw [analyze_of_declared hdecl] at h
      exact spec.gives_typecheck.snd_eq d h

end Specification

end StatContract
