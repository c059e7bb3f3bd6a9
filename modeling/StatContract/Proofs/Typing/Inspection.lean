import StatContract.Proofs.Typing.Balance
import Mathlib.Data.Set.Insert

/-!
# What the analysis looks at

`Clause.inspect` is the analysis of a clause that notes each term it comes to, with
its path in the tree and the environment as it is then. Nothing else is different
(`Clause.follows_inspect`): the tree, the result and the environment at the end are
those of `Clause.typecheck`. No path is noted twice (`Clause.nodup_paths_inspect`),
so an inspected path has one environment.
-/

namespace StatContract

/-- A path in a tree: the numbers of the parts on the way there. The body of a
node with ranges is its part zero, and the collections of the ranges come after
it; all other parts are numbered as they are written. -/
abbrev TreePath := List Nat

/-- That the analysis comes to a term at a path, and the environment then. -/
structure Inspection where
  path : TreePath
  term : Term
  env : TypeEnv

/-- A step of the analysis with what it looks at: the inspections, the result, and
the environment it leaves. -/
def Inspected (α : Type) : Type := TypeEnv → List Inspection × α × TypeEnv

namespace Inspected

variable {α β γ δ : Type} {env env' : TypeEnv} {seen : List Inspection}

protected def bind (x : Inspected α) (f : α → Inspected β) : Inspected β := fun env =>
  let (seen, a, env') := x env
  (seen ++ (f a env').1, (f a env').2)

instance : Monad Inspected where
  pure a := fun env => ([], a, env)
  bind := Inspected.bind

/-- A step that comes to no term. -/
def ofStep (x : Typing α) : Inspected α := fun env => ([], x env)

/-- The analysis comes to a term. -/
def visit (path : TreePath) (t : Term) : Inspected Unit := fun env => ([⟨path, t, env⟩], (), env)

/-- One step after the other looks at what the two look at. -/
theorem exists_of_bind {x : Inspected α} {f : α → Inspected β} {b : β}
    (h : (x >>= f) env = (seen, b, env')) : ∃ seen₁ a env₁ seen₂, seen = seen₁ ++ seen₂ ∧
      x env = (seen₁, a, env₁) ∧ f a env₁ = (seen₂, b, env') := by
  obtain ⟨hseen, hrest⟩ := Prod.mk.inj h
  exact ⟨(x env).1, (x env).2.1, (x env).2.2, _, hseen.symm, rfl, Prod.ext rfl hrest⟩

/-- A success comes from a success of the first step, when its failure is the
failure of the whole. -/
theorem exists_of_bind_ok {x : Inspected (α × Except SpecError β)}
    {f : α × Except SpecError β → Inspected (γ × Except SpecError δ)} {c : γ} {d : δ}
    (h : (x >>= f) env = (seen, (c, .ok d), env'))
    (hfail : ∀ a e, ∃ c, f (a, .error e) = pure (c, .error e)) : ∃ seen₁ a b env₁ seen₂,
      seen = seen₁ ++ seen₂ ∧ x env = (seen₁, (a, .ok b), env₁) ∧
      f (a, .ok b) env₁ = (seen₂, (c, .ok d), env') := by
  obtain ⟨seen₁, ⟨a, e | b⟩, env₁, seen₂, hseen, hx, hf⟩ := exists_of_bind h
  · obtain ⟨c', hc'⟩ := hfail a e
    rw [hc'] at hf
    cases hf
  · exact ⟨seen₁, a, b, env₁, seen₂, hseen, hx, hf⟩

theorem exists_of_visit {path : TreePath} {t : Term} {f : Unit → Inspected β} {b : β}
    (h : (visit path t >>= f) env = (seen, b, env')) :
    ∃ seen', seen = ⟨path, t, env⟩ :: seen' ∧ f () env = (seen', b, env') := by
  obtain ⟨hseen, hrest⟩ := Prod.mk.inj h
  exact ⟨(f () env).1, hseen.symm, Prod.ext rfl hrest⟩

theorem eq_of_modify {g : TypeEnv → TypeEnv} {f : PUnit → Inspected β}
    {r : List Inspection × β × TypeEnv} (h : (ofStep (modify g) >>= f) env = r) :
    f ⟨⟩ (g env) = r := h

/-- The inspected step does what the step does. -/
def Follows (x : Inspected α) (y : Typing α) : Prop := ∀ env, (x env).2 = y env

namespace Follows

theorem pure (a : α) : (Pure.pure a : Inspected α).Follows (Pure.pure a) := fun _ => rfl

theorem ofStep (x : Typing α) : (Inspected.ofStep x).Follows x := fun _ => rfl

theorem bind {x : Inspected α} {y : Typing α} {f : α → Inspected β} {g : α → Typing β}
    (hx : x.Follows y) (hf : ∀ a, (f a).Follows (g a)) : (x >>= f).Follows (y >>= g) := by
  intro env
  change (f (x env).2.1 (x env).2.2).2 = g (y env).1 (y env).2
  rw [← hx env]
  exact hf _ _

theorem visit {x : Inspected α} {y : Typing α} (h : x.Follows y) (path : TreePath) (t : Term) :
    (Inspected.visit path t >>= fun _ => x).Follows y := h

end Follows

end Inspected

open Inspected

mutual

/-- Checks the clause at a path and notes the terms. -/
def Clause.inspect : Clause → TreePath → Inspected (Clause × Except SpecError Unit)
  | .forAll span ranges body, path => do
    ofStep (modify TypeEnv.push)
    match ← Range.inspectList ranges path 1 with
    | (ranges, .error e) => return (.forAll span ranges body, .error e)
    | (ranges, .ok _) =>
      match ← body.inspect (path ++ [0]) with
      | (body, .error e) => return (.forAll span ranges body, .error e)
      | (body, .ok _) =>
        ofStep (modify TypeEnv.pop)
        return (.forAll span ranges body, .ok ())
  | .letIn span name value body, path => do
    match ← value.inspect (path ++ [0]) with
    | (value, .error e) => return (.letIn span name value body, .error e)
    | (value, .ok ty) =>
      ofStep (modify TypeEnv.push)
      ofStep (modify (·.define name ty))
      match ← body.inspect (path ++ [1]) with
      | (body, .error e) => return (.letIn span name value body, .error e)
      | (body, .ok _) =>
        ofStep (modify TypeEnv.pop)
        return (.letIn span name value body, .ok ())
  | .membership span item collection, path => do
    match ← item.inspect (path ++ [0]) with
    | (item, .error e) => return (.membership span item collection, .error e)
    | (item, .ok _) =>
      let (collection, result) ← collection.inspect (path ++ [1])
      return (.membership span item collection, result.map fun _ => ())
  | .approx span lhs rhs, path => do
    if lhs.isIdentifier outputName then
      match ← lhs.inspect (path ++ [0]) with
      | (lhs, .error e) => return (.approx span lhs rhs, .error e)
      | (lhs, .ok _) =>
        let (rhs, result) ← rhs.inspect (path ++ [1])
        return (.approx span lhs rhs, result.map fun _ => ())
    else return (.approx span lhs rhs, .error (.approxTarget lhs.text lhs.span))
  | .compare span lhs op rhs, path => do
    match ← lhs.inspect (path ++ [0]) with
    | (lhs, .error e) => return (.compare span lhs op rhs, .error e)
    | (lhs, .ok _) =>
      let (rhs, result) ← rhs.inspect (path ++ [1])
      return (.compare span lhs op rhs, result.map fun _ => ())
  | .logic span lhs op rhs, path => do
    match ← lhs.inspect (path ++ [0]) with
    | (lhs, .error e) => return (.logic span lhs op rhs, .error e)
    | (lhs, .ok _) =>
      let (rhs, result) ← rhs.inspect (path ++ [1])
      return (.logic span lhs op rhs, result)
  | .not span inner, path => do
    let (inner, result) ← inner.inspect (path ++ [0])
    return (.not span inner, result)

/-- Checks the term at a path and notes it and the terms in it. -/
def Term.inspect : Term → TreePath → Inspected (Term × Except SpecError ValueType)
  | .constant note value, path => do
    visit path (.constant note value)
    return (.constant (note.typed .scalar) value, .ok .scalar)
  | .probability note trials body, path => do
    visit path (.probability note trials body)
    match ← body.inspect (path ++ [0]) with
    | (body, .error e) => return (.probability note trials body, .error e)
    | (body, .ok _) => return (.probability (note.typed .scalar) trials body, .ok .scalar)
  | .probabilityOverItems note ranges body, path => do
    visit path (.probabilityOverItems note ranges body)
    ofStep (modify TypeEnv.push)
    match ← Range.inspectList ranges path 1 with
    | (ranges, .error e) => return (.probabilityOverItems note ranges body, .error e)
    | (ranges, .ok _) =>
      match ← body.inspect (path ++ [0]) with
      | (body, .error e) => return (.probabilityOverItems note ranges body, .error e)
      | (body, .ok _) =>
        ofStep (modify TypeEnv.pop)
        return (.probabilityOverItems (note.typed .scalar) ranges body, .ok .scalar)
  | .expectation note trials body, path => do
    visit path (.expectation note trials body)
    match ← body.inspect (path ++ [0]) with
    | (body, .error e) => return (.expectation note trials body, .error e)
    | (body, .ok _) => return (.expectation (note.typed .scalar) trials body, .ok .scalar)
  | .expectationOverItems note ranges body, path => do
    visit path (.expectationOverItems note ranges body)
    ofStep (modify TypeEnv.push)
    match ← Range.inspectList ranges path 1 with
    | (ranges, .error e) => return (.expectationOverItems note ranges body, .error e)
    | (ranges, .ok _) =>
      match ← body.inspect (path ++ [0]) with
      | (body, .error e) => return (.expectationOverItems note ranges body, .error e)
      | (body, .ok _) =>
        ofStep (modify TypeEnv.pop)
        return (.expectationOverItems (note.typed .scalar) ranges body, .ok .scalar)
  | .lookup note collection key, path => do
    visit path (.lookup note collection key)
    match ← collection.inspect (path ++ [0]) with
    | (collection, .error e) => return (.lookup note collection key, .error e)
    | (collection, .ok ty) =>
      match ← key.inspect (path ++ [1]) with
      | (key, .error e) => return (.lookup note collection key, .error e)
      | (key, .ok _) =>
        match ty.entry? with
        | some entry => return (.lookup (note.typed entry) collection key, .ok entry)
        | none =>
          return (.lookup note collection key,
            .error (.notIndexable collection.text ty collection.span))
  | .identifier note name, path => do
    visit path (.identifier note name)
    let ty := (← ofStep get).typeOf name
    return (.identifier (note.typed ty) name, .ok ty)
  | .tuple note elements, path => do
    visit path (.tuple note elements)
    match ← Term.inspectList elements path 0 with
    | (elements, .error e) => return (.tuple note elements, .error e)
    | (elements, .ok types) =>
      let ty := ValueType.sequence (types.headD .scalar)
      return (.tuple (note.typed ty) elements, .ok ty)
  | .binary note lhs op rhs, path => do
    visit path (.binary note lhs op rhs)
    match ← lhs.inspect (path ++ [0]) with
    | (lhs, .error e) => return (.binary note lhs op rhs, .error e)
    | (lhs, .ok lhsTy) =>
      match ← rhs.inspect (path ++ [1]) with
      | (rhs, .error e) => return (.binary note lhs op rhs, .error e)
      | (rhs, .ok rhsTy) =>
        if lhsTy = rhsTy then return (.binary (note.typed lhsTy) lhs op rhs, .ok lhsTy)
        else
          return (.binary note lhs op rhs,
            .error (.operandMismatch (lhs.text ++ " " ++ op.symbol ++ " " ++ rhs.text)
              lhsTy rhsTy (lhs.span.merge rhs.span)))
  | .sizeOf note collection, path => do
    visit path (.sizeOf note collection)
    match ← collection.inspect (path ++ [0]) with
    | (collection, .error e) => return (.sizeOf note collection, .error e)
    | (collection, .ok _) => return (.sizeOf (note.typed .scalar) collection, .ok .scalar)
  | .call note name args, path => do
    visit path (.call note name args)
    match ← Term.inspectList args path 0 with
    | (args, .error e) => return (.call note name args, .error e)
    | (args, .ok _) =>
      let ty := (← ofStep get).typeOf name
      return (.call (note.typed ty) name args, .ok ty)

/-- Checks ranges of the node at a path, whose collections are its parts from `i`
on. -/
def Range.inspectList : List Range → TreePath → Nat →
    Inspected (List Range × Except SpecError Unit)
  | [], _, _ => return ([], .ok ())
  | .mk span var collection mode :: rest, path, i => do
    match ← collection.inspect (path ++ [i]) with
    | (collection, .error e) => return (.mk span var collection mode :: rest, .error e)
    | (collection, .ok ty) =>
      match ty.element? with
      | none =>
        return (.mk span var collection mode :: rest,
          .error (.notIterable collection.text ty collection.span))
      | some element =>
        ofStep (modify (·.define var (mode.varType element)))
        let (rest, result) ← Range.inspectList rest path (i + 1)
        return (.mk span var collection mode :: rest, result)

/-- Checks terms that are the parts of the node at a path from `i` on. -/
def Term.inspectList : List Term → TreePath → Nat →
    Inspected (List Term × Except SpecError (List ValueType))
  | [], _, _ => return ([], .ok [])
  | t :: rest, path, i => do
    match ← t.inspect (path ++ [i]) with
    | (t, .error e) => return (t :: rest, .error e)
    | (t, .ok ty) =>
      let (rest, result) ← Term.inspectList rest path (i + 1)
      return (t :: rest, result.map (ty :: ·))

end

mutual

/-- Noting terms changes nothing. -/
theorem Clause.follows_inspect : ∀ (c : Clause) (path : TreePath),
    (c.inspect path).Follows c.typecheck
  | .forAll span ranges body, path => by
      rw [Clause.inspect, Clause.typecheck]
      refine .bind (.ofStep _) fun _ => .bind (Range.follows_inspectList ranges path 1) ?_
      rintro ⟨ranges', e | _⟩
      · exact .pure _
      · refine .bind (Clause.follows_inspect body (path ++ [0])) ?_
        rintro ⟨body', e | _⟩
        · exact .pure _
        · exact .bind (.ofStep _) fun _ => .pure _
  | .letIn span name value body, path => by
      rw [Clause.inspect, Clause.typecheck]
      refine .bind (Term.follows_inspect value (path ++ [0])) ?_
      rintro ⟨value', e | τ⟩
      · exact .pure _
      · refine .bind (.ofStep _) fun _ => .bind (.ofStep _) fun _ => ?_
        refine .bind (Clause.follows_inspect body (path ++ [1])) ?_
        rintro ⟨body', e | _⟩
        · exact .pure _
        · exact .bind (.ofStep _) fun _ => .pure _
  | .membership span item collection, path => by
      rw [Clause.inspect, Clause.typecheck]
      refine .bind (Term.follows_inspect item (path ++ [0])) ?_
      rintro ⟨item', e | τ⟩
      · exact .pure _
      · exact .bind (Term.follows_inspect collection (path ++ [1])) fun _ => .pure _
  | .approx span lhs rhs, path => by
      rw [Clause.inspect, Clause.typecheck]
      split
      · refine .bind (Term.follows_inspect lhs (path ++ [0])) ?_
        rintro ⟨lhs', e | τ⟩
        · exact .pure _
        · exact .bind (Term.follows_inspect rhs (path ++ [1])) fun _ => .pure _
      · exact .pure _
  | .compare span lhs op rhs, path => by
      rw [Clause.inspect, Clause.typecheck]
      refine .bind (Term.follows_inspect lhs (path ++ [0])) ?_
      rintro ⟨lhs', e | τ⟩
      · exact .pure _
      · exact .bind (Term.follows_inspect rhs (path ++ [1])) fun _ => .pure _
  | .logic span lhs op rhs, path => by
      rw [Clause.inspect, Clause.typecheck]
      refine .bind (Clause.follows_inspect lhs (path ++ [0])) ?_
      rintro ⟨lhs', e | _⟩
      · exact .pure _
      · exact .bind (Clause.follows_inspect rhs (path ++ [1])) fun _ => .pure _
  | .not span inner, path => by
      rw [Clause.inspect, Clause.typecheck]
      exact .bind (Clause.follows_inspect inner (path ++ [0])) fun _ => .pure _

theorem Term.follows_inspect : ∀ (t : Term) (path : TreePath),
    (t.inspect path).Follows t.typecheck
  | .constant .., path | .identifier .., path => by
      rw [Term.inspect, Term.typecheck]
      exact fun _ => rfl
  | .probability note trials body, path => by
      rw [Term.inspect, Term.typecheck]
      refine .visit (.bind (Clause.follows_inspect body (path ++ [0])) ?_) _ _
      rintro ⟨body', e | _⟩ <;> exact .pure _
  | .probabilityOverItems note ranges body, path => by
      rw [Term.inspect, Term.typecheck]
      refine .visit (.bind (.ofStep _) fun _ => ?_) _ _
      refine .bind (Range.follows_inspectList ranges path 1) ?_
      rintro ⟨ranges', e | _⟩
      · exact .pure _
      · refine .bind (Clause.follows_inspect body (path ++ [0])) ?_
        rintro ⟨body', e | _⟩
        · exact .pure _
        · exact .bind (.ofStep _) fun _ => .pure _
  | .expectation note trials body, path => by
      rw [Term.inspect, Term.typecheck]
      refine .visit (.bind (Term.follows_inspect body (path ++ [0])) ?_) _ _
      rintro ⟨body', e | τ⟩ <;> exact .pure _
  | .expectationOverItems note ranges body, path => by
      rw [Term.inspect, Term.typecheck]
      refine .visit (.bind (.ofStep _) fun _ => ?_) _ _
      refine .bind (Range.follows_inspectList ranges path 1) ?_
      rintro ⟨ranges', e | _⟩
      · exact .pure _
      · refine .bind (Term.follows_inspect body (path ++ [0])) ?_
        rintro ⟨body', e | τ⟩
        · exact .pure _
        · exact .bind (.ofStep _) fun _ => .pure _
  | .lookup note collection key, path => by
      rw [Term.inspect, Term.typecheck]
      refine .visit (.bind (Term.follows_inspect collection (path ++ [0])) ?_) _ _
      rintro ⟨collection', e | τ⟩
      · exact .pure _
      · refine .bind (Term.follows_inspect key (path ++ [1])) ?_
        rintro ⟨key', e | σ⟩
        · exact .pure _
        · dsimp only
          cases τ.entry? <;> exact .pure _
  | .tuple note elements, path => by
      rw [Term.inspect, Term.typecheck]
      refine .visit (.bind (Term.follows_inspectList elements path 0) ?_) _ _
      rintro ⟨elements', e | types⟩ <;> exact .pure _
  | .binary note lhs op rhs, path => by
      rw [Term.inspect, Term.typecheck]
      refine .visit (.bind (Term.follows_inspect lhs (path ++ [0])) ?_) _ _
      rintro ⟨lhs', e | τ⟩
      · exact .pure _
      · refine .bind (Term.follows_inspect rhs (path ++ [1])) ?_
        rintro ⟨rhs', e | σ⟩
        · exact .pure _
        · dsimp only
          split <;> exact .pure _
  | .sizeOf note collection, path => by
      rw [Term.inspect, Term.typecheck]
      refine .visit (.bind (Term.follows_inspect collection (path ++ [0])) ?_) _ _
      rintro ⟨collection', e | τ⟩ <;> exact .pure _
  | .call note name args, path => by
      rw [Term.inspect, Term.typecheck]
      refine .visit (.bind (Term.follows_inspectList args path 0) ?_) _ _
      rintro ⟨args', e | types⟩
      · exact .pure _
      · exact .bind (.ofStep _) fun _ => .pure _

theorem Range.follows_inspectList : ∀ (ranges : List Range) (path : TreePath) (i : Nat),
    (Range.inspectList ranges path i).Follows (Range.typecheckList ranges)
  | [], _, _ => by
      rw [Range.inspectList, Range.typecheckList]
      exact .pure _
  | .mk span var collection mode :: rest, path, i => by
      rw [Range.inspectList, Range.typecheckList]
      refine .bind (Term.follows_inspect collection (path ++ [i])) ?_
      rintro ⟨collection', e | τ⟩
      · exact .pure _
      · dsimp only
        cases τ.element? with
        | none => exact .pure _
        | some element =>
            refine .bind (.ofStep _) fun _ => ?_
            exact .bind (Range.follows_inspectList rest path (i + 1)) fun _ => .pure _

theorem Term.follows_inspectList : ∀ (ts : List Term) (path : TreePath) (i : Nat),
    (Term.inspectList ts path i).Follows (Term.typecheckList ts)
  | [], _, _ => by
      rw [Term.inspectList, Term.typecheckList]
      exact .pure _
  | t :: rest, path, i => by
      rw [Term.inspectList, Term.typecheckList]
      refine .bind (Term.follows_inspect t (path ++ [i])) ?_
      rintro ⟨t', e | τ⟩
      · exact .pure _
      · exact .bind (Term.follows_inspectList rest path (i + 1)) fun _ => .pure _

end

/-- A clause that passes leaves the environment in which it was come to. -/
theorem Clause.env_eq_of_inspect {c c' : Clause} {path : TreePath} {env env' : TypeEnv}
    {seen : List Inspection} (h : c.inspect path env = (seen, (c', .ok ()), env')) :
    env' = env := by
  obtain ⟨hfst, hsnd⟩ := c.gives_typecheck env
  rw [← c.follows_inspect path env, h] at hfst hsnd
  exact hsnd () (by rw [← hfst])

theorem Term.env_eq_of_inspect {t t' : Term} {τ : ValueType} {path : TreePath}
    {env env' : TypeEnv} {seen : List Inspection}
    (h : t.inspect path env = (seen, (t', .ok τ), env')) : env' = env := by
  obtain ⟨hfst, hsnd⟩ := t.gives_typecheck env
  rw [← t.follows_inspect path env, h] at hfst hsnd
  exact hsnd τ (by rw [← hfst])

namespace Inspection

/-- All is noted at the path or below it, and no path is noted twice. -/
structure Below (path : TreePath) (seen : List Inspection) : Prop where
  isPrefix : ∀ w ∈ seen, path <+: w.path
  nodup : (seen.map Inspection.path).Nodup

/-- All is noted in the given parts of the node at the path, and no path is
noted twice. -/
structure InParts (path : TreePath) (parts : Set Nat) (seen : List Inspection) : Prop where
  part : ∀ w ∈ seen, ∃ i ∈ parts, path ++ [i] <+: w.path
  nodup : (seen.map Inspection.path).Nodup

variable {path : TreePath} {seen more : List Inspection} {parts others : Set Nat}

theorem InParts.nil (path : TreePath) (parts : Set Nat) : InParts path parts [] :=
  ⟨List.forall_mem_nil _, List.nodup_nil⟩

theorem Below.inPart {i : Nat} (h : Below (path ++ [i]) seen) : InParts path {i} seen :=
  ⟨fun w hw => ⟨i, rfl, h.isPrefix w hw⟩, h.nodup⟩

theorem InParts.mono (h : InParts path parts seen) (hsub : parts ⊆ others) :
    InParts path others seen := by
  refine ⟨fun w hw => ?_, h.nodup⟩
  obtain ⟨i, hi, hw⟩ := h.part w hw
  exact ⟨i, hsub hi, hw⟩

/-- Different parts have no path in common. -/
theorem InParts.append (h : InParts path parts seen) (h' : InParts path others more)
    (hdisj : ∀ i ∈ parts, i ∉ others) : InParts path (parts ∪ others) (seen ++ more) := by
  constructor
  · intro w hw
    rcases List.mem_append.1 hw with hw | hw
    · obtain ⟨i, hi, hw⟩ := h.part w hw
      exact ⟨i, .inl hi, hw⟩
    · obtain ⟨i, hi, hw⟩ := h'.part w hw
      exact ⟨i, .inr hi, hw⟩
  · rw [List.map_append]
    refine List.nodup_append.2 ⟨h.nodup, h'.nodup, ?_⟩
    intro p hp q hq hpq
    obtain ⟨v, hv, rfl⟩ := List.mem_map.1 hp
    obtain ⟨w, hw, rfl⟩ := List.mem_map.1 hq
    obtain ⟨i, hi, hv⟩ := h.part v hv
    obtain ⟨j, hj, hw⟩ := h'.part w hw
    -- Both are prefixes of one path, and of the same length.
    rw [hpq] at hv
    have heq := (List.prefix_of_prefix_length_le hv hw (by simp)).eq_of_length (by simp)
    obtain rfl : i = j := by simpa using heq
    exact hdisj i hi hj

theorem InParts.below (h : InParts path parts seen) : Below path seen := by
  refine ⟨fun w hw => ?_, h.nodup⟩
  obtain ⟨i, -, hw⟩ := h.part w hw
  exact (List.prefix_append path [i]).trans hw

/-- The node itself is at none of the paths of its parts. -/
theorem InParts.below_cons (h : InParts path parts seen) (t : Term) (env : TypeEnv) :
    Below path (⟨path, t, env⟩ :: seen) := by
  constructor
  · intro w hw
    rcases List.mem_cons.1 hw with rfl | hw
    · exact List.prefix_rfl
    · exact h.below.isPrefix w hw
  · rw [List.map_cons]
    refine List.nodup_cons.2 ⟨fun hmem => ?_, h.nodup⟩
    obtain ⟨w, hw, hpath⟩ := List.mem_map.1 hmem
    obtain ⟨i, -, hw⟩ := h.part w hw
    have hlen := hw.length_le
    rw [hpath, List.length_append, List.length_singleton] at hlen
    exact Nat.not_succ_le_self _ hlen

end Inspection

open Inspection

namespace Inspected

variable {α β : Type} {path : TreePath} {parts others : Set Nat}

/-- The step looks only into the given parts of the node at the path, and at no path
twice. -/
def Within (path : TreePath) (parts : Set Nat) (x : Inspected α) : Prop :=
  ∀ env, InParts path parts (x env).1

namespace Within

theorem pure (a : α) : Within path parts (Pure.pure a) := fun _ => .nil path parts

theorem mono {x : Inspected α} (h : Within path parts x) (hsub : parts ⊆ others) :
    Within path others x :=
  fun env => (h env).mono hsub

theorem part {x : Inspected α} {i : Nat} (h : ∀ env, Below (path ++ [i]) (x env).1) :
    Within path {i} x :=
  fun env => (h env).inPart

theorem ofStep {x : Typing α} {f : α → Inspected β} (hf : ∀ a, Within path parts (f a)) :
    Within path parts (Inspected.ofStep x >>= f) :=
  fun _ => hf _ _

theorem bind {x : Inspected α} {f : α → Inspected β} (hx : Within path parts x)
    (hf : ∀ a, Within path others (f a)) (hdisj : ∀ i ∈ parts, i ∉ others) :
    Within path (parts ∪ others) (x >>= f) :=
  fun env => (hx env).append (hf _ _) hdisj

/-- What looks at nothing more. -/
theorem bind_nothing {x : Inspected α} {f : α → Inspected β} (hx : Within path parts x)
    (hf : ∀ a, Within path ∅ (f a)) : Within path parts (x >>= f) :=
  (hx.bind hf (by simp)).mono (by simp)

/-- The second of two parts after the first. -/
theorem bind_second {x : Inspected α} {f : α → Inspected β} (hx : Within path {0} x)
    (hf : ∀ a, Within path {1} (f a)) : Within path ({0} ∪ {1}) (x >>= f) :=
  hx.bind hf (by simp)

/-- The body comes after the ranges, but is the first part. -/
theorem bind_body {x : Inspected α} {f : α → Inspected β} (hx : Within path {j | 1 ≤ j} x)
    (hf : ∀ a, Within path {0} (f a)) : Within path ({j | 1 ≤ j} ∪ {0}) (x >>= f) := by
  refine hx.bind hf fun i (hi : 1 ≤ i) (hzero : i = 0) => ?_
  omega

/-- A part and the parts after it. -/
theorem bind_later {x : Inspected α} {f : α → Inspected β} {i : Nat} (hx : Within path {i} x)
    (hf : ∀ a, Within path {j | i + 1 ≤ j} (f a)) : Within path {j | i ≤ j} (x >>= f) := by
  refine (hx.bind hf (by simp)).mono ?_
  rintro j (rfl | hj)
  · exact Nat.le_refl j
  · exact Nat.le_of_succ_le hj

theorem below {x : Inspected α} (h : Within path parts x) (env : TypeEnv) :
    Below path (x env).1 :=
  (h env).below

/-- A term is visited before its parts. -/
theorem below_visit {x : Inspected α} (h : Within path parts x) (t : Term) (env : TypeEnv) :
    Below path ((visit path t >>= fun _ => x) env).1 :=
  (h env).below_cons t env

end Within

end Inspected

mutual

theorem Clause.below_inspect : ∀ (c : Clause) (path : TreePath) (env : TypeEnv),
    Below path (c.inspect path env).1
  | .forAll span ranges body, path, env => by
      rw [Clause.inspect]
      refine (Within.ofStep fun _ =>
        (Range.within_inspectList ranges path 1).bind_body ?_).below env
      rintro ⟨ranges', e | _⟩
      · exact .pure _
      · refine (Within.part (Clause.below_inspect body (path ++ [0]))).bind_nothing ?_
        rintro ⟨body', e | _⟩
        · exact .pure _
        · exact .ofStep fun _ => .pure _
  | .letIn span name value body, path, env => by
      rw [Clause.inspect]
      refine ((Within.part (Term.below_inspect value (path ++ [0]))).bind_second ?_).below env
      rintro ⟨value', e | τ⟩
      · exact .pure _
      · refine .ofStep fun _ => .ofStep fun _ => ?_
        refine (Within.part (Clause.below_inspect body (path ++ [1]))).bind_nothing ?_
        rintro ⟨body', e | _⟩
        · exact .pure _
        · exact .ofStep fun _ => .pure _
  | .membership span item collection, path, env => by
      rw [Clause.inspect]
      refine ((Within.part (Term.below_inspect item (path ++ [0]))).bind_second ?_).below env
      rintro ⟨item', e | τ⟩
      · exact .pure _
      · exact (Within.part (Term.below_inspect collection (path ++ [1]))).bind_nothing
          fun _ => .pure _
  | .approx span lhs rhs, path, env => by
      rw [Clause.inspect]
      split
      · refine ((Within.part (Term.below_inspect lhs (path ++ [0]))).bind_second ?_).below env
        rintro ⟨lhs', e | τ⟩
        · exact .pure _
        · exact (Within.part (Term.below_inspect rhs (path ++ [1]))).bind_nothing fun _ => .pure _
      · exact (InParts.nil path ∅).below
  | .compare span lhs op rhs, path, env => by
      rw [Clause.inspect]
      refine ((Within.part (Term.below_inspect lhs (path ++ [0]))).bind_second ?_).below env
      rintro ⟨lhs', e | τ⟩
      · exact .pure _
      · exact (Within.part (Term.below_inspect rhs (path ++ [1]))).bind_nothing fun _ => .pure _
  | .logic span lhs op rhs, path, env => by
      rw [Clause.inspect]
      refine ((Within.part (Clause.below_inspect lhs (path ++ [0]))).bind_second ?_).below env
      rintro ⟨lhs', e | _⟩
      · exact .pure _
      · exact (Within.part (Clause.below_inspect rhs (path ++ [1]))).bind_nothing fun _ => .pure _
  | .not span inner, path, env => by
      rw [Clause.inspect]
      exact ((Within.part (Clause.below_inspect inner (path ++ [0]))).bind_nothing
        fun _ => .pure _).below env

theorem Term.below_inspect : ∀ (t : Term) (path : TreePath) (env : TypeEnv),
    Below path (t.inspect path env).1
  | .constant .., path, env | .identifier .., path, env => by
      rw [Term.inspect]
      exact (InParts.nil path ∅).below_cons _ _
  | .probability note trials body, path, env => by
      rw [Term.inspect]
      refine ((Within.part (Clause.below_inspect body (path ++ [0]))).bind_nothing ?_).below_visit
        _ env
      rintro ⟨body', e | _⟩ <;> exact .pure _
  | .probabilityOverItems note ranges body, path, env => by
      rw [Term.inspect]
      refine (Within.ofStep fun _ =>
        (Range.within_inspectList ranges path 1).bind_body ?_).below_visit _ env
      rintro ⟨ranges', e | _⟩
      · exact .pure _
      · refine (Within.part (Clause.below_inspect body (path ++ [0]))).bind_nothing ?_
        rintro ⟨body', e | _⟩
        · exact .pure _
        · exact .ofStep fun _ => .pure _
  | .expectation note trials body, path, env => by
      rw [Term.inspect]
      refine ((Within.part (Term.below_inspect body (path ++ [0]))).bind_nothing ?_).below_visit
        _ env
      rintro ⟨body', e | τ⟩ <;> exact .pure _
  | .expectationOverItems note ranges body, path, env => by
      rw [Term.inspect]
      refine (Within.ofStep fun _ =>
        (Range.within_inspectList ranges path 1).bind_body ?_).below_visit _ env
      rintro ⟨ranges', e | _⟩
      · exact .pure _
      · refine (Within.part (Term.below_inspect body (path ++ [0]))).bind_nothing ?_
        rintro ⟨body', e | τ⟩
        · exact .pure _
        · exact .ofStep fun _ => .pure _
  | .lookup note collection key, path, env => by
      rw [Term.inspect]
      refine ((Within.part (Term.below_inspect collection (path ++ [0]))).bind_second
        ?_).below_visit _ env
      rintro ⟨collection', e | τ⟩
      · exact .pure _
      · refine (Within.part (Term.below_inspect key (path ++ [1]))).bind_nothing ?_
        rintro ⟨key', e | σ⟩
        · exact .pure _
        · dsimp only
          cases τ.entry? <;> exact .pure _
  | .tuple note elements, path, env => by
      rw [Term.inspect]
      refine ((Term.within_inspectList elements path 0).bind_nothing ?_).below_visit _ env
      rintro ⟨elements', e | types⟩ <;> exact .pure _
  | .binary note lhs op rhs, path, env => by
      rw [Term.inspect]
      refine ((Within.part (Term.below_inspect lhs (path ++ [0]))).bind_second ?_).below_visit _ env
      rintro ⟨lhs', e | τ⟩
      · exact .pure _
      · refine (Within.part (Term.below_inspect rhs (path ++ [1]))).bind_nothing ?_
        rintro ⟨rhs', e | σ⟩
        · exact .pure _
        · dsimp only
          split <;> exact .pure _
  | .sizeOf note collection, path, env => by
      rw [Term.inspect]
      refine ((Within.part (Term.below_inspect collection (path ++ [0]))).bind_nothing
        ?_).below_visit _ env
      rintro ⟨collection', e | τ⟩ <;> exact .pure _
  | .call note name args, path, env => by
      rw [Term.inspect]
      refine ((Term.within_inspectList args path 0).bind_nothing ?_).below_visit _ env
      rintro ⟨args', e | types⟩
      · exact .pure _
      · exact .ofStep fun _ => .pure _

theorem Range.within_inspectList : ∀ (ranges : List Range) (path : TreePath) (i : Nat),
    Within path {j | i ≤ j} (Range.inspectList ranges path i)
  | [], path, i => by
      rw [Range.inspectList]
      exact .pure _
  | .mk span var collection mode :: rest, path, i => by
      rw [Range.inspectList]
      refine (Within.part (Term.below_inspect collection (path ++ [i]))).bind_later ?_
      rintro ⟨collection', e | τ⟩
      · exact .pure _
      · dsimp only
        cases τ.element? with
        | none => exact .pure _
        | some element =>
            refine .ofStep fun _ => ?_
            exact (Range.within_inspectList rest path (i + 1)).bind_nothing fun _ => .pure _

theorem Term.within_inspectList : ∀ (ts : List Term) (path : TreePath) (i : Nat),
    Within path {j | i ≤ j} (Term.inspectList ts path i)
  | [], path, i => by
      rw [Term.inspectList]
      exact .pure _
  | t :: rest, path, i => by
      rw [Term.inspectList]
      refine (Within.part (Term.below_inspect t (path ++ [i]))).bind_later ?_
      rintro ⟨t', e | τ⟩
      · exact .pure _
      · exact (Term.within_inspectList rest path (i + 1)).bind_nothing fun _ => .pure _

end

/-- The analysis comes to each path once. -/
theorem Clause.nodup_paths_inspect (c : Clause) (path : TreePath) (env : TypeEnv) :
    ((c.inspect path env).1.map Inspection.path).Nodup :=
  (c.below_inspect path env).nodup

end StatContract
