import StatContract.Lowering.Clause

/-!
# Running steps of lowering

A step of lowering takes a state to a result and a state, `Lower.exec`. The
equations here say what each elementary step does to the state, and how a step
followed by another runs, so that later modules need not look into the monad.
-/

namespace StatContract

/-- Two results in a row succeed when the first does and the second does with
its value. -/
theorem except_bind_eq_ok_iff {ε α β : Type} {x : Except ε α} {f : α → Except ε β} {b : β} :
    (x >>= f) = .ok b ↔ ∃ a, x = .ok a ∧ f a = .ok b := by
  cases x with
  | error e => exact ⟨nofun, nofun⟩
  | ok a =>
      constructor
      · intro h
        exact ⟨a, rfl, h⟩
      · rintro ⟨_, ⟨⟩, h⟩
        exact h

/-- The name of a temporary. -/
def tempName (k : Nat) : String := "t" ++ toString k

/-- Temporaries have different names. -/
theorem tempName_injective {j k : Nat} (h : tempName j = tempName k) : j = k := by
  have hdigits : Nat.toDigits 10 j = Nat.toDigits 10 k := by
    simpa [tempName] using congrArg String.toList h
  rw [← Nat.ofDigitChars_ten_toDigits (n := j), hdigits, Nat.ofDigitChars_ten_toDigits]

/-- The name looks like a temporary. -/
def IsTemp (name : String) : Prop := ∃ k, name = tempName k

/-- Temporaries start with a `t`. -/
theorem not_isTemp_of_head {name : String} (h : name.toList.head? ≠ some 't') :
    ¬ IsTemp name := by
  rintro ⟨k, rfl⟩
  exact h (by simp [tempName])

/-- The state with another number of temporaries. -/
def Context.withTemps (ctx : Context) (k : Nat) : Context := { ctx with temps := k }

namespace Lower

variable {α β : Type}

/-- The result of a step and the state it leaves. -/
def exec (x : Lower α) (ctx : Context) : Except SpecError α × Context := x.run ctx

@[simp] theorem exec_pure (a : α) (ctx : Context) : (pure a : Lower α).exec ctx = (.ok a, ctx) :=
  rfl

@[simp] theorem exec_throw (e : SpecError) (ctx : Context) :
    (throw e : Lower α).exec ctx = (.error e, ctx) := rfl

/-- The second step runs in the state that the first leaves, unless the first
fails. -/
theorem exec_bind (x : Lower α) (f : α → Lower β) (ctx : Context) :
    (x >>= f).exec ctx = match x.exec ctx with
      | (.ok a, ctx') => (f a).exec ctx'
      | (.error e, ctx') => (.error e, ctx') := by
  unfold exec ExceptT.run
  simp only [bind, ExceptT.bind, ExceptT.mk, StateT.bind]
  rcases x ctx with ⟨e | a, ctx'⟩ <;> rfl

theorem exec_bind_of_ok {x : Lower α} {a : α} {ctx ctx' : Context}
    (h : x.exec ctx = (.ok a, ctx')) (f : α → Lower β) :
    (x >>= f).exec ctx = (f a).exec ctx' := by
  rw [exec_bind, h]

/-- Two steps in a row succeed when the first does and the second does in the
state that the first leaves. -/
theorem exec_bind_eq_ok_iff (x : Lower α) (f : α → Lower β) (b : β) (ctx ctx'' : Context) :
    (x >>= f).exec ctx = (.ok b, ctx'') ↔
      ∃ a ctx', x.exec ctx = (.ok a, ctx') ∧ (f a).exec ctx' = (.ok b, ctx'') := by
  rw [exec_bind]
  rcases x.exec ctx with ⟨e | a, ctx'⟩
  · simp
  · constructor
    · intro h
      exact ⟨a, ctx', rfl, h⟩
    · rintro ⟨_, _, ⟨⟩, h⟩
      exact h

@[simp] theorem exec_fresh (ctx : Context) :
    fresh.exec ctx = (.ok (tempName ctx.temps), ctx.withTemps (ctx.temps + 1)) := rfl

@[simp] theorem exec_emit (s : Stmt) (ctx : Context) :
    (emit s).exec ctx = (.ok (), ctx.emit s) := rfl

@[simp] theorem exec_pushScope (ctx : Context) : pushScope.exec ctx = (.ok (), ctx.push) := rfl

@[simp] theorem exec_popScope (ctx : Context) : popScope.exec ctx = (.ok (), ctx.pop) := rfl

@[simp] theorem exec_declare (name : String) (ctx : Context) :
    (declare name).exec ctx = (.ok (), ctx.declare name) := rfl

@[simp] theorem exec_openBlock (ctx : Context) :
    openBlock.exec ctx = (.ok (), ctx.openBlock) := rfl

@[simp] theorem exec_closeBlock (ctx : Context) :
    closeBlock.exec ctx = (.ok ctx.closeBlock.1, ctx.closeBlock.2) := rfl

@[simp] theorem exec_ofExcept (x : Except SpecError α) (ctx : Context) :
    (MonadExcept.ofExcept x : Lower α).exec ctx = (x, ctx) := by
  cases x <;> rfl

/-- A term is lowered in the current state, which stays as it is. -/
@[simp] theorem exec_term (t : Term) (ctx : Context) :
    (term t).exec ctx = (t.lower ctx, ctx) := by
  rw [term, exec_bind]
  exact exec_ofExcept (t.lower ctx) ctx

theorem exec_term_of_ok {t : Term} {ctx : Context} {c : Code} (h : t.lower ctx = .ok c) :
    (term t).exec ctx = (.ok c, ctx) := by
  rw [exec_term, h]

/-- The scope of the name is there for the step only, whatever its result. -/
theorem exec_withName (name : String) (x : Lower α) (ctx : Context) :
    (withName name x).exec ctx =
      ((x.exec (ctx.push.declare name)).1, (x.exec (ctx.push.declare name)).2.pop) := rfl

/-- The trial is under consideration for the step only, whatever its result. -/
theorem exec_withTrial (index : String) (x : Lower α) (ctx : Context) :
    (withTrial index x).exec ctx =
      ((x.exec { ctx with trial := some index }).1,
        { (x.exec { ctx with trial := some index }).2 with trial := ctx.trial }) := rfl

end Lower

open Lower in
/-- A comparison without a statistic on its left is evaluated as it stands. -/
theorem Clause.lower_compare {lhs : Term} (h : lhs.isStatistic = false) (target : Target)
    (span : Span) (op : CmpOp) (rhs : Term) (mode : Mode) :
    (Clause.compare span lhs op rhs).lower target mode = (do
      let a ← term lhs
      let b ← term rhs
      return .ofCondition mode (.group a (.compare op) b)) := by
  cases lhs <;> first | rfl | cases h

end StatContract
