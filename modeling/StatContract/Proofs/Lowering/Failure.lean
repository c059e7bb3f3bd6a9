import StatContract.Proofs.Lowering.Run
import StatContract.Proofs.Typing.Rules

/-!
# What lowering can refuse

Lowering looks at the type slots of a tree again: at operands, at the
collections of lookups and of membership tests. In an annotated tree every slot
is filled and agrees with the rules, so none of these looks can go wrong, and
what is left to refuse is what the rules do not speak about.

`FailsOnly S x` says that `x` fails with members of `S` only. It is passed on
from the parts of a step to the step, whatever the set of defects is. The two
results are about terms and about clauses, with `SpecError.IsLate` for the set.
-/

namespace StatContract

/-- The defects that an analysed tree can still have. -/
def SpecError.IsLate (e : SpecError) : Prop :=
  e.code ∈ ["E0004", "E0007", "E0008", "E0009", "E0010", "E0011"]

/-- A result that is no defect outside of `S`. -/
def FailsOnly (S : SpecError → Prop) {α : Type} (x : Except SpecError α) : Prop :=
  ∀ e, x = .error e → S e

namespace FailsOnly

variable {S : SpecError → Prop} {α β : Type}

theorem ok (a : α) : FailsOnly S (.ok a : Except SpecError α) := by
  intro e h
  cases h

theorem error {e : SpecError} (h : S e) : FailsOnly S (.error e : Except SpecError α) := by
  intro e' h'
  cases h'
  exact h

theorem bind {x : Except SpecError α} {f : α → Except SpecError β} (hx : FailsOnly S x)
    (hf : ∀ a, FailsOnly S (f a)) : FailsOnly S (x >>= f) := by
  cases x with
  | error e => exact error (hx e rfl)
  | ok a => exact hf a

/-- A result without a defect adds none. -/
theorem ok_bind {x : Except SpecError α} {f : α → Except SpecError β} {a : α} (hx : x = .ok a)
    (hf : FailsOnly S (f a)) : FailsOnly S (x >>= f) := by
  rw [hx]
  exact hf

end FailsOnly

/-- A step of lowering that fails in no state with a defect outside of `S`. -/
def Lower.FailsOnly (S : SpecError → Prop) {α : Type} (x : Lower α) : Prop :=
  ∀ ctx, StatContract.FailsOnly S (x.exec ctx).1

namespace Lower.FailsOnly

variable {S : SpecError → Prop} {α β : Type}

theorem pure (a : α) : FailsOnly S (Pure.pure a : Lower α) :=
  fun _ => .ok a

theorem throw {e : SpecError} (h : S e) : FailsOnly S (MonadExcept.throw e : Lower α) :=
  fun _ => .error h

theorem bind {x : Lower α} {f : α → Lower β} (hx : FailsOnly S x)
    (hf : ∀ a, FailsOnly S (f a)) : FailsOnly S (x >>= f) := by
  intro ctx
  rw [exec_bind]
  rcases h : x.exec ctx with ⟨e | a, ctx'⟩
  · exact .error (hx ctx e (congrArg Prod.fst h))
  · exact hf a ctx'

theorem forM {l : List α} {f : α → Lower PUnit} (hf : ∀ a, FailsOnly S (f a)) :
    FailsOnly S (l.forM f) := by
  induction l with
  | nil => exact .pure _
  | cons a l ih => exact .bind (hf a) fun _ => ih

theorem fresh : FailsOnly S Lower.fresh := fun _ => .ok _

theorem emit (s : Stmt) : FailsOnly S (Lower.emit s) := fun _ => .ok _

theorem pushScope : FailsOnly S Lower.pushScope := fun _ => .ok _

theorem popScope : FailsOnly S Lower.popScope := fun _ => .ok _

theorem declare (name : String) : FailsOnly S (Lower.declare name) := fun _ => .ok _

theorem openBlock : FailsOnly S Lower.openBlock := fun _ => .ok _

theorem closeBlock : FailsOnly S Lower.closeBlock := fun _ => .ok _

theorem withName {name : String} {x : Lower α} (hx : FailsOnly S x) :
    FailsOnly S (Lower.withName name x) :=
  fun ctx => hx (ctx.push.declare name)

theorem withTrial {index : String} {x : Lower α} (hx : FailsOnly S x) :
    FailsOnly S (Lower.withTrial index x) :=
  fun ctx => hx { ctx with trial := some index }

theorem term {t : Term} (ht : ∀ ctx, StatContract.FailsOnly S (t.lower ctx)) :
    FailsOnly S (Lower.term t) := by
  intro ctx
  rw [exec_term]
  exact ht ctx

/-- A result without a defect that enters a step adds none. -/
theorem ofExcept_bind {x : Except SpecError α} {f : α → Lower β} {a : α} (hx : x = .ok a)
    (hf : FailsOnly S (f a)) : FailsOnly S (MonadExcept.ofExcept x >>= f) := by
  intro ctx
  rw [exec_bind, exec_ofExcept, hx]
  exact hf ctx

theorem closeRanges (loops : List Loop) (condition : Option String) :
    FailsOnly S (Lower.closeRanges loops condition) := by
  refine .forM fun loop => ?_
  have hclose : FailsOnly S (do
      let body ← Lower.closeBlock
      Lower.emit (.forIn loop.var loop.source body)) :=
    .bind .closeBlock fun _ => .emit _
  cases condition with
  | none => exact hclose
  | some name => exact .bind (.emit _) fun _ => hclose

theorem countHit (count : String) (hit : Code) : FailsOnly S (Lower.countHit count hit) :=
  .emit _

/-- A comparison that the binomial test cannot decide is refused. -/
theorem requireAlternative (clause : Clause) (op : CmpOp) :
    FailsOnly SpecError.IsLate (Lower.requireAlternative clause op) := by
  unfold Lower.requireAlternative
  cases op.alternative? with
  | some alternative => exact .pure _
  | none => exact .throw (by simp [SpecError.IsLate, SpecError.code])

/-- A comparison that the t-test cannot decide is refused. -/
theorem tTest (target : Target) (clause : Clause) (samples expected : Code) (op : CmpOp)
    (mode : Mode) :
    FailsOnly SpecError.IsLate (Lower.tTest target clause samples expected op mode) := by
  refine .bind .fresh fun result => .bind (.emit _) fun _ => ?_
  cases mode <;> cases op <;>
    first
    | exact .pure _
    | exact .throw (by simp [SpecError.IsLate, SpecError.code])

end Lower.FailsOnly

/-- The type of an annotated term is there when it is asked for. -/
theorem Term.requireType_of_annotated {Γ : LexicalEnv} {t : Term} {τ : ValueType}
    (h : t.Annotated Γ τ) : t.requireType = .ok τ := by
  unfold Term.requireType
  rw [h.ty_eq]

mutual

/-- Lowering an annotated term fails with late defects only. -/
theorem Term.lower_failsOnly (ctx : Context) : ∀ (t : Term) {Γ : LexicalEnv} {τ : ValueType},
    t.Annotated Γ τ → FailsOnly SpecError.IsLate (t.lower ctx)
  | .constant note value, Γ, τ, h => .ok _
  | .probability note trials body, Γ, τ, h => .error (by simp [SpecError.IsLate, SpecError.code])
  | .probabilityOverItems note ranges body, Γ, τ, h =>
      .error (by simp [SpecError.IsLate, SpecError.code])
  | .expectation note trials body, Γ, τ, h => .error (by simp [SpecError.IsLate, SpecError.code])
  | .expectationOverItems note ranges body, Γ, τ, h =>
      .error (by simp [SpecError.IsLate, SpecError.code])
  | .lookup note collection key, Γ, τ, h => by
      rw [Term.lower]
      -- The rules for lookups ask for a list or a map, which both can be looked up.
      cases h with
      | element hcollection hkey =>
          refine .bind (Term.lower_failsOnly ctx collection hcollection) fun c => ?_
          refine .bind (Term.lower_failsOnly ctx key hkey) fun k => ?_
          exact .ok_bind (Term.requireType_of_annotated hcollection) (.ok _)
      | entry hcollection hkey =>
          refine .bind (Term.lower_failsOnly ctx collection hcollection) fun c => ?_
          refine .bind (Term.lower_failsOnly ctx key hkey) fun k => ?_
          exact .ok_bind (Term.requireType_of_annotated hcollection) (.ok _)
  | .identifier note name, Γ, τ, h => .ok _
  | .tuple note elements, Γ, τ, h => by
      obtain ⟨τs, hτs, -⟩ := h.of_tuple
      rw [Term.lower]
      exact .bind (Term.lowerList_failsOnly ctx elements hτs) fun _ => .ok _
  | .binary note lhs op rhs, Γ, τ, h => by
      rw [Term.lower]
      cases h with
      | binary hlhs hrhs =>
          refine .ok_bind (Term.requireType_of_annotated hlhs) ?_
          refine .ok_bind (Term.requireType_of_annotated hrhs) ?_
          simp only [ne_eq, not_true_eq_false, if_false]
          refine .bind (Term.lower_failsOnly ctx lhs hlhs) fun a => ?_
          refine .bind (Term.lower_failsOnly ctx rhs hrhs) fun b => ?_
          split
          · split
            · exact .ok _
            · exact .error (by simp [SpecError.IsLate, SpecError.code])
          · exact .ok _
  | .sizeOf note collection, Γ, τ, h => by
      rw [Term.lower]
      cases h with
      | sizeOf hcollection =>
          exact .bind (Term.lower_failsOnly ctx collection hcollection) fun _ => .ok _
  | .call note name args, Γ, τ, h => by
      rw [Term.lower]
      cases h with
      | call hargs => exact .bind (Term.lowerList_failsOnly ctx args hargs) fun _ => .ok _

/-- Lowering annotated terms fails with late defects only. -/
theorem Term.lowerList_failsOnly (ctx : Context) : ∀ (ts : List Term) {Γ : LexicalEnv}
    {τs : List ValueType}, Term.TypedList .filled Γ ts τs →
      FailsOnly SpecError.IsLate (Term.lowerList ctx ts)
  | [], Γ, τs, h => .ok _
  | t :: rest, Γ, τs, h => by
      rw [Term.lowerList]
      cases h with
      | cons hhead htail =>
          refine .bind (Term.lower_failsOnly ctx t hhead) fun c => ?_
          exact .bind (Term.lowerList_failsOnly ctx rest htail) fun _ => .ok _

end

namespace Lower.FailsOnly

theorem annotated {t : Term} {Γ : LexicalEnv} {τ : ValueType} (h : t.Annotated Γ τ) :
    FailsOnly SpecError.IsLate (Lower.term t) :=
  .term fun ctx => t.lower_failsOnly ctx h

/-- Opening loops for annotated ranges fails with late defects only. -/
theorem openRanges : ∀ {ranges : List Range} {Γ Δ : LexicalEnv},
    Range.TypedList .filled Γ ranges Δ →
      FailsOnly SpecError.IsLate (Lower.openRanges ranges)
  | [], Γ, Δ, h => .pure _
  | .mk span var collection mode :: rest, Γ, Δ, h => by
      cases h with
      | indices hcollection hrest =>
          refine .bind (.annotated hcollection) fun c => .bind (.declare var) fun _ => ?_
          exact .bind .openBlock fun _ => .bind (openRanges hrest) fun _ => .pure _
      | elements hcollection _ hrest =>
          refine .bind (.annotated hcollection) fun c => .bind (.declare var) fun _ => ?_
          exact .bind .openBlock fun _ => .bind (openRanges hrest) fun _ => .pure _

end Lower.FailsOnly

/-- Lowering an annotated comparison of two terms fails with late defects only. -/
theorem Clause.comparison_failsOnly {target : Target} {span : Span} {lhs rhs : Term} {op : CmpOp}
    {mode : Mode} {Γ : LexicalEnv} {τ σ : ValueType} (hplain : lhs.isStatistic = false)
    (hlhs : lhs.Annotated Γ τ) (hrhs : rhs.Annotated Γ σ) :
    Lower.FailsOnly SpecError.IsLate ((Clause.compare span lhs op rhs).lower target mode) := by
  rw [Clause.lower_compare hplain]
  exact .bind (.annotated hlhs) fun a => .bind (.annotated hrhs) fun b => .pure _

/-- Lowering an annotated clause fails with late defects only. -/
theorem Clause.lower_failsOnly (target : Target) : ∀ (c : Clause) (mode : Mode)
    {Γ : LexicalEnv}, c.Annotated Γ →
      Lower.FailsOnly SpecError.IsLate (c.lower target mode)
  | .forAll span ranges body, mode, Γ, h => by
      rw [Clause.lower]
      cases h with
      | forAll hranges hbody =>
          refine .bind .fresh fun result => ?_
          split
          · refine .bind .fresh fun pvalues => .bind (.emit _) fun _ => ?_
            refine .bind .pushScope fun _ => .bind (.openRanges hranges) fun loops => ?_
            refine .bind (body.lower_failsOnly target _ hbody) fun p => ?_
            refine .bind (.emit _) fun _ => .bind (.closeRanges _ _) fun _ => ?_
            exact .bind .popScope fun _ => .bind (.emit _) fun _ => .pure _
          · refine .bind (.emit _) fun _ => .bind .pushScope fun _ => ?_
            refine .bind (.openRanges hranges) fun loops => ?_
            refine .bind (body.lower_failsOnly target _ hbody) fun holds => ?_
            refine .bind (.emit _) fun _ => .bind (.closeRanges _ _) fun _ => ?_
            exact .bind .popScope fun _ => .pure _
  | .letIn span name value body, mode, Γ, h => by
      rw [Clause.lower]
      cases h with
      | letIn hvalue hbody =>
          refine .bind (.annotated hvalue) fun v => .bind (.emit _) fun _ => ?_
          exact .withName (body.lower_failsOnly target mode hbody)
  | .membership span item collection, mode, Γ, h => by
      rw [Clause.lower]
      cases h with
      | membership hitem hcollection =>
          refine .bind (.annotated hitem) fun i => ?_
          refine .ofExcept_bind (Term.requireType_of_annotated hitem) ?_
          refine .bind (.annotated hcollection) fun c => ?_
          refine .ofExcept_bind (Term.requireType_of_annotated hcollection) ?_
          -- The rules for membership do not say what can be searched.
          split
          · exact .pure _
          · exact .pure _
          · exact .throw (by simp [SpecError.IsLate, SpecError.code])
  | .approx span lhs rhs, mode, Γ, h => by
      rw [Clause.lower]
      cases h with
      | approx hlhs hrhs =>
          rw [if_pos (by simp [Term.isIdentifier, Term.asIdentifier])]
          refine .bind (.annotated hrhs) fun expected => ?_
          refine .bind .fresh fun differences => .bind .fresh fun sample => ?_
          exact .bind (.emit _) fun _ => .pure _
  | .compare span (.probability note trials body) op rhs, mode, Γ, h => by
      rw [Clause.lower]
      cases h with
      | compare hlhs hrhs =>
          cases hlhs with
          | probability hbody =>
              refine .bind (.requireAlternative _ op) fun alternative => ?_
              refine .bind .fresh fun count => .bind (.emit _) fun _ => ?_
              refine .bind .fresh fun index => .bind .openBlock fun _ => ?_
              refine .bind (.withTrial (body.lower_failsOnly target _ hbody)) fun hit => ?_
              refine .bind (.countHit _ _) fun _ => .bind .closeBlock fun loopBody => ?_
              exact .bind (.emit _) fun _ => .bind (.annotated hrhs) fun _ => .pure _
  | .compare span (.probabilityOverItems note ranges body) op rhs, mode, Γ, h => by
      rw [Clause.lower]
      cases h with
      | compare hlhs hrhs =>
          cases hlhs with
          | probabilityOverItems hranges hbody =>
              refine .bind (.requireAlternative _ op) fun alternative => ?_
              refine .bind .fresh fun count => .bind (.emit _) fun _ => ?_
              refine .bind .pushScope fun _ => .bind (.openRanges hranges) fun loops => ?_
              refine .bind (body.lower_failsOnly target _ hbody) fun hit => ?_
              refine .bind (.countHit _ _) fun _ => .bind (.closeRanges _ _) fun _ => ?_
              exact .bind .popScope fun _ => .bind (.annotated hrhs) fun _ => .pure _
  | .compare span (.expectation note trials body) op rhs, mode, Γ, h => by
      rw [Clause.lower]
      cases h with
      | compare hlhs hrhs =>
          split
          · exact .bind (.annotated hrhs) fun expected => .tTest _ _ _ _ _ _
          · refine .bind (.throw ?_) fun _ => .bind (.annotated hrhs) fun _ => .tTest _ _ _ _ _ _
            simp [SpecError.IsLate, SpecError.code]
  | .compare span (.expectationOverItems note ranges body) op rhs, mode, Γ, h => by
      rw [Clause.lower]
      cases h with
      | compare hlhs hrhs =>
          cases hlhs with
          | expectationOverItems hranges hbody =>
              refine .bind .fresh fun samples => .bind (.emit _) fun _ => ?_
              refine .bind .pushScope fun _ => .bind (.openRanges hranges) fun loops => ?_
              refine .bind (.annotated hbody) fun value => .bind (.emit _) fun _ => ?_
              refine .bind (.closeRanges _ _) fun _ => .bind .popScope fun _ => ?_
              exact .bind (.annotated hrhs) fun expected => .tTest _ _ _ _ _ _
  | .compare _ (.constant ..) _ _, _, _, .compare hlhs hrhs
  | .compare _ (.lookup ..) _ _, _, _, .compare hlhs hrhs
  | .compare _ (.identifier ..) _ _, _, _, .compare hlhs hrhs
  | .compare _ (.tuple ..) _ _, _, _, .compare hlhs hrhs
  | .compare _ (.binary ..) _ _, _, _, .compare hlhs hrhs
  | .compare _ (.sizeOf ..) _ _, _, _, .compare hlhs hrhs
  | .compare _ (.call ..) _ _, _, _, .compare hlhs hrhs => comparison_failsOnly rfl hlhs hrhs
  | .logic span lhs op rhs, mode, Γ, h => by
      rw [Clause.lower]
      cases h with
      | logic hlhs hrhs =>
          refine .bind (lhs.lower_failsOnly target mode hlhs) fun a => ?_
          refine .bind (rhs.lower_failsOnly target mode hrhs) fun b => ?_
          cases mode <;> cases op <;> exact .pure _
  | .not span inner, mode, Γ, h => by
      rw [Clause.lower]
      cases h with
      | not hinner =>
          refine .bind (inner.lower_failsOnly target mode hinner) fun v => ?_
          cases mode <;> exact .pure _

end StatContract
