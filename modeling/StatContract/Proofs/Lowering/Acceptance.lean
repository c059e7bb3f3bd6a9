import StatContract.Proofs.Lowering.Failure
import StatContract.Proofs.Typing.Analysis

/-!
# What lowering accepts

Whether an analysed clause can be lowered is decided by the clause and the mode, and by
nothing else: not by the names in scope, not by the trial under consideration, not by the
level of significance or the library. `Clause.isLowerable` says which clauses can be.

Lowering stops at the first defect, so two runs of it can only be compared by naming that
defect. `Clause.refusal?` reads it off the tree. `Lower.Finds o x` says that the step `x` ends
in the defect `o` in every state, or in none where `o` is `none`; it is passed on from the
parts of a step to the step, the first defect in order being the one that counts.
-/

namespace StatContract

/-! ### The clauses that can be lowered -/

/-- The node can stand in an expression: it is no statistic, and an operator between matrices
is one of `+`, `-` and `*`. -/
def Node.isExpressible : Node → Bool
  | .term (.probability ..) | .term (.probabilityOverItems ..) | .term (.expectation ..)
  | .term (.expectationOverItems ..) => false
  | .term (.binary _ lhs op _) => decide (lhs.ty = some .matrix → op ∈ [.add, .sub, .mul])
  | _ => true

/-- The term has an expression. -/
def Term.isExpressible (t : Term) : Bool := t.nodes.all Node.isExpressible

/-- The term is a list or a map. -/
def Term.isSearchable (t : Term) : Bool :=
  match t.ty with
  | some (.sequence _) | some (.map ..) => true
  | _ => false

/-- A t-test decides the comparison in the mode. -/
def CmpOp.hasTTest (op : CmpOp) : Mode → Bool
  | .boolean => op ≠ .ne
  | .probability => op = .eq

/-- The mode in which the instances of a quantifier over the clause are judged. -/
def Clause.instanceMode (c : Clause) : Mode :=
  if c.domain = .overRuns then .probability else .boolean

/-- The collections of the ranges have expressions. -/
def Range.allExpressible (ranges : List Range) : Bool :=
  ranges.all (·.collection.isExpressible)

/-- The clause can be lowered in the mode. -/
def Clause.isLowerable : Clause → Mode → Bool
  | .forAll _ ranges body, _ => Range.allExpressible ranges && body.isLowerable body.instanceMode
  | .letIn _ _ value body, mode => value.isExpressible && body.isLowerable mode
  | .membership _ item collection, _ =>
    item.isExpressible && collection.isExpressible && collection.isSearchable
  | .approx _ _ rhs, _ => rhs.isExpressible
  | .compare _ lhs op rhs, mode =>
    match lhs with
    | .probability _ _ body => op ≠ .ne && body.isLowerable .boolean && rhs.isExpressible
    | .probabilityOverItems _ ranges body =>
      op ≠ .ne && Range.allExpressible ranges && body.isLowerable .boolean && rhs.isExpressible
    | .expectation _ _ body =>
      body.isIdentifier outputName && rhs.isExpressible && op.hasTTest mode
    | .expectationOverItems _ ranges body =>
      Range.allExpressible ranges && body.isExpressible && rhs.isExpressible && op.hasTTest mode
    | lhs => lhs.isExpressible && rhs.isExpressible
  | .logic _ lhs _ rhs, mode => lhs.isLowerable mode && rhs.isLowerable mode
  | .not _ inner, mode => inner.isLowerable mode

/-! ### The first defect -/

mutual

/-- The first defect that a term has as an expression. -/
def Term.refusal? : Term → Option SpecError
  | .constant .. | .identifier .. => none
  | t@(.probability ..) | t@(.probabilityOverItems ..) | t@(.expectation ..)
  | t@(.expectationOverItems ..) => some (.misplacedStatistic t.text t.span)
  | .lookup _ collection key => collection.refusal?.or key.refusal?
  | .tuple _ elements => Term.refusalOfAll? elements
  | .binary note lhs op rhs =>
    lhs.refusal?.or (rhs.refusal?.or
      (if lhs.ty = some .matrix ∧ op.matrixFunction? = none then
        some (.unsupportedMatrixOp op (Term.binary note lhs op rhs).text note.span)
      else none))
  | .sizeOf _ collection => collection.refusal?
  | .call _ _ args => Term.refusalOfAll? args

/-- The first defect that terms have as expressions. -/
def Term.refusalOfAll? : List Term → Option SpecError
  | [] => none
  | t :: rest => t.refusal?.or (Term.refusalOfAll? rest)

end

/-- The first defect that the collections of ranges have as expressions. -/
def Range.refusalOfAll? : List Range → Option SpecError
  | [] => none
  | .mk _ _ collection _ :: rest => collection.refusal?.or (Range.refusalOfAll? rest)

/-- The defect of a membership test in a term. -/
def Term.searchRefusal? (t : Term) : Option SpecError :=
  match t.ty with
  | some (.sequence _) | some (.map ..) => none
  | some other => some (.notSearchable t.text other t.span)
  | none => some (.untyped t.text t.span)

/-- The defect of a comparison that the binomial test does not decide. -/
def Clause.binomialRefusal? (c : Clause) (op : CmpOp) : Option SpecError :=
  if op = .ne then some (.unsupportedTest op .binomial c.text c.span) else none

/-- The defect of a comparison that the t-test does not decide. -/
def Clause.tTestRefusal? (c : Clause) (op : CmpOp) (mode : Mode) : Option SpecError :=
  if op.hasTTest mode then none
  else
    let test : TestKind := match mode with
      | .boolean => .tTest
      | .probability => .twoSidedTTest
    some (.unsupportedTest op test c.text c.span)

/-- The defect of a mean over trials of something else than the output. -/
def Term.expectationRefusal? (body : Term) : Option SpecError :=
  if body.isIdentifier outputName then none else some (.expectationTarget body.text body.span)

/-- The first defect of a clause that is to be lowered in a mode. -/
def Clause.refusal? : Clause → Mode → Option SpecError
  | .forAll _ ranges body, _ =>
    (Range.refusalOfAll? ranges).or (body.refusal? body.instanceMode)
  | .letIn _ _ value body, mode => value.refusal?.or (body.refusal? mode)
  | .membership _ item collection, _ =>
    item.refusal?.or (collection.refusal?.or collection.searchRefusal?)
  | .approx _ _ rhs, _ => rhs.refusal?
  | .compare span lhs op rhs, mode =>
    let clause := Clause.compare span lhs op rhs
    match lhs with
    | .probability _ _ body =>
      (clause.binomialRefusal? op).or ((body.refusal? .boolean).or rhs.refusal?)
    | .probabilityOverItems _ ranges body =>
      (clause.binomialRefusal? op).or ((Range.refusalOfAll? ranges).or
        ((body.refusal? .boolean).or rhs.refusal?))
    | .expectation _ _ body =>
      body.expectationRefusal?.or (rhs.refusal?.or (clause.tTestRefusal? op mode))
    | .expectationOverItems _ ranges body =>
      (Range.refusalOfAll? ranges).or (body.refusal?.or
        (rhs.refusal?.or (clause.tTestRefusal? op mode)))
    | lhs => lhs.refusal?.or rhs.refusal?
  | .logic _ lhs _ rhs, mode => (lhs.refusal? mode).or (rhs.refusal? mode)
  | .not _ inner, mode => inner.refusal? mode

/-! ### A clause without a defect -/

theorem ArithOp.matrixFunction?_eq_none_iff (op : ArithOp) :
    op.matrixFunction? = none ↔ op ∉ [ArithOp.add, .sub, .mul] := by
  cases op <;> decide

mutual

/-- A term has no defect when all of its nodes can stand in an expression. -/
theorem Term.refusal?_eq_none_iff : ∀ t : Term, t.refusal? = none ↔ t.isExpressible = true
  | .constant .. => by simp [Term.refusal?, isExpressible, Term.nodes, Node.isExpressible]
  | .identifier .. => by simp [Term.refusal?, isExpressible, Term.nodes, Node.isExpressible]
  | .probability .. => by simp [Term.refusal?, isExpressible, Term.nodes, Node.isExpressible]
  | .probabilityOverItems .. => by
      simp [Term.refusal?, isExpressible, Term.nodes, Node.isExpressible]
  | .expectation .. => by simp [Term.refusal?, isExpressible, Term.nodes, Node.isExpressible]
  | .expectationOverItems .. => by
      simp [Term.refusal?, isExpressible, Term.nodes, Node.isExpressible]
  | .lookup _ collection key => by
      rw [Term.refusal?, Option.or_eq_none_iff, refusal?_eq_none_iff collection,
        refusal?_eq_none_iff key]
      simp [isExpressible, Term.nodes, Node.isExpressible]
  | .tuple _ elements => by
      rw [Term.refusal?, refusalOfAll?_eq_none_iff elements]
      simp [isExpressible, Term.nodes, Node.isExpressible]
  | .binary note lhs op rhs => by
      have hnode : (Node.term (.binary note lhs op rhs)).isExpressible = true ↔
          ¬ (lhs.ty = some .matrix ∧ op.matrixFunction? = none) := by
        rw [ArithOp.matrixFunction?_eq_none_iff, Decidable.not_and_not_right]
        exact decide_eq_true_iff
      rw [Term.refusal?, Option.or_eq_none_iff, Option.or_eq_none_iff, refusal?_eq_none_iff lhs,
        refusal?_eq_none_iff rhs, ← and_assoc, and_comm]
      simp only [isExpressible, Term.nodes, List.all_cons, List.all_append, Bool.and_eq_true, hnode]
      simp
  | .sizeOf _ collection => by
      rw [Term.refusal?, refusal?_eq_none_iff collection]
      simp [isExpressible, Term.nodes, Node.isExpressible]
  | .call _ _ args => by
      rw [Term.refusal?, refusalOfAll?_eq_none_iff args]
      simp [isExpressible, Term.nodes, Node.isExpressible]

theorem Term.refusalOfAll?_eq_none_iff : ∀ ts : List Term,
    Term.refusalOfAll? ts = none ↔ (Term.nodesOfAll ts).all Node.isExpressible = true
  | [] => by decide
  | t :: rest => by
      rw [Term.refusalOfAll?, Option.or_eq_none_iff, refusal?_eq_none_iff t,
        refusalOfAll?_eq_none_iff rest, Term.nodesOfAll, List.all_append, Bool.and_eq_true,
        isExpressible]

end

theorem Range.refusalOfAll?_eq_none_iff (ranges : List Range) :
    Range.refusalOfAll? ranges = none ↔ Range.allExpressible ranges = true := by
  induction ranges with
  | nil => decide
  | cons range rest ih =>
      obtain ⟨_, _, collection, _⟩ := range
      rw [Range.refusalOfAll?, Option.or_eq_none_iff, collection.refusal?_eq_none_iff, ih]
      simp [allExpressible, Range.collection]

theorem Term.searchRefusal?_eq_none_iff (t : Term) :
    t.searchRefusal? = none ↔ t.isSearchable = true := by
  unfold searchRefusal? isSearchable
  cases t.ty with
  | none => simp
  | some ty => cases ty <;> simp

theorem Clause.binomialRefusal?_eq_none_iff (c : Clause) (op : CmpOp) :
    c.binomialRefusal? op = none ↔ op ≠ .ne := by
  simp [binomialRefusal?]

theorem Clause.tTestRefusal?_eq_none_iff (c : Clause) (op : CmpOp) (mode : Mode) :
    c.tTestRefusal? op mode = none ↔ op.hasTTest mode = true := by
  simp [tTestRefusal?]

theorem Term.expectationRefusal?_eq_none_iff (body : Term) :
    body.expectationRefusal? = none ↔ body.isIdentifier outputName = true := by
  simp [expectationRefusal?]

theorem Clause.refusal?_compare {lhs : Term} (h : lhs.isStatistic = false) (span : Span)
    (op : CmpOp) (rhs : Term) (mode : Mode) :
    (Clause.compare span lhs op rhs).refusal? mode = lhs.refusal?.or rhs.refusal? := by
  cases lhs <;> first | rfl | cases h

theorem Clause.isLowerable_compare {lhs : Term} (h : lhs.isStatistic = false) (span : Span)
    (op : CmpOp) (rhs : Term) (mode : Mode) :
    (Clause.compare span lhs op rhs).isLowerable mode =
      (lhs.isExpressible && rhs.isExpressible) := by
  cases lhs <;> first | rfl | cases h

theorem Clause.refusal?_compare_eq_none_iff {lhs : Term} (h : lhs.isStatistic = false)
    (span : Span) (op : CmpOp) (rhs : Term) (mode : Mode) :
    (Clause.compare span lhs op rhs).refusal? mode = none ↔
      (Clause.compare span lhs op rhs).isLowerable mode = true := by
  rw [refusal?_compare h, isLowerable_compare h, Option.or_eq_none_iff, Bool.and_eq_true,
    lhs.refusal?_eq_none_iff, rhs.refusal?_eq_none_iff]

/-- A clause has no defect when it can be lowered. -/
theorem Clause.refusal?_eq_none_iff : ∀ (c : Clause) (mode : Mode),
    c.refusal? mode = none ↔ c.isLowerable mode = true
  | .forAll _ ranges body, mode => by
      rw [Clause.refusal?, Clause.isLowerable, Option.or_eq_none_iff, Bool.and_eq_true,
        Range.refusalOfAll?_eq_none_iff ranges, body.refusal?_eq_none_iff]
  | .letIn _ _ value body, mode => by
      rw [Clause.refusal?, Clause.isLowerable, Option.or_eq_none_iff, Bool.and_eq_true,
        value.refusal?_eq_none_iff, body.refusal?_eq_none_iff]
  | .membership _ item collection, mode => by
      simp only [Clause.refusal?, Clause.isLowerable, Option.or_eq_none_iff, Bool.and_eq_true,
        Term.refusal?_eq_none_iff, Term.searchRefusal?_eq_none_iff, and_assoc]
  | .approx _ lhs rhs, mode => rhs.refusal?_eq_none_iff
  | .compare _ (.probability _ _ body) op rhs, mode => by
      simp only [Clause.refusal?, Clause.isLowerable, Option.or_eq_none_iff, Bool.and_eq_true,
        decide_eq_true_eq, binomialRefusal?_eq_none_iff, body.refusal?_eq_none_iff,
        Term.refusal?_eq_none_iff, and_assoc]
  | .compare _ (.probabilityOverItems _ ranges body) op rhs, mode => by
      simp only [Clause.refusal?, Clause.isLowerable, Option.or_eq_none_iff, Bool.and_eq_true,
        decide_eq_true_eq, binomialRefusal?_eq_none_iff, Range.refusalOfAll?_eq_none_iff,
        body.refusal?_eq_none_iff, Term.refusal?_eq_none_iff, and_assoc]
  | .compare _ (.expectation _ _ body) op rhs, mode => by
      simp only [Clause.refusal?, Clause.isLowerable, Option.or_eq_none_iff, Bool.and_eq_true,
        Term.expectationRefusal?_eq_none_iff, Term.refusal?_eq_none_iff,
        tTestRefusal?_eq_none_iff, and_assoc]
  | .compare _ (.expectationOverItems _ ranges body) op rhs, mode => by
      simp only [Clause.refusal?, Clause.isLowerable, Option.or_eq_none_iff, Bool.and_eq_true,
        Range.refusalOfAll?_eq_none_iff, Term.refusal?_eq_none_iff, tTestRefusal?_eq_none_iff,
        and_assoc]
  | .compare _ (.constant ..) _ _, _ | .compare _ (.lookup ..) _ _, _
  | .compare _ (.identifier ..) _ _, _ | .compare _ (.tuple ..) _ _, _
  | .compare _ (.binary ..) _ _, _ | .compare _ (.sizeOf ..) _ _, _ | .compare _ (.call ..) _ _, _ =>
      refusal?_compare_eq_none_iff rfl _ _ _ _
  | .logic _ lhs _ rhs, mode => by
      rw [Clause.refusal?, Clause.isLowerable, Option.or_eq_none_iff, Bool.and_eq_true,
        lhs.refusal?_eq_none_iff, rhs.refusal?_eq_none_iff]
  | .not _ inner, mode => by
      rw [Clause.refusal?, Clause.isLowerable, inner.refusal?_eq_none_iff]

/-! ### Ending in a defect -/

/-- The result is the defect, or a value where there is none. -/
inductive Finds {α : Type} : Option SpecError → Except SpecError α → Prop where
  | ok (a : α) : Finds none (.ok a)
  | error (e : SpecError) : Finds (some e) (.error e)

namespace Finds

variable {o o' : Option SpecError} {α β : Type}

theorem exists_ok_iff {x : Except SpecError α} (h : Finds o x) : (∃ a, x = .ok a) ↔ o = none := by
  cases h <;> simp

theorem eq_error_iff {x : Except SpecError α} (h : Finds o x) (e : SpecError) :
    x = .error e ↔ o = some e := by
  cases h <;> simp

/-- Of the defects of two steps the first counts. -/
theorem bind {x : Except SpecError α} {f : α → Except SpecError β} (hx : Finds o x)
    (hf : ∀ a, Finds o' (f a)) : Finds (o.or o') (x >>= f) := by
  cases hx with
  | ok a => exact hf a
  | error e => exact .error e

theorem ok_bind {x : Except SpecError α} {f : α → Except SpecError β} {a : α} (hx : x = .ok a)
    (hf : Finds o (f a)) : Finds o (x >>= f) := by
  rw [hx]
  exact hf

theorem last {x : Except SpecError α} {f : α → Except SpecError β} (hx : Finds o x)
    (hf : ∀ a, Finds none (f a)) : Finds o (x >>= f) := by
  rw [← o.or_none]
  exact hx.bind hf

end Finds

/-- The step ends in the defect in every state, or in no defect where there is none. -/
def Lower.Finds {α : Type} (o : Option SpecError) (x : Lower α) : Prop :=
  ∀ ctx, StatContract.Finds o (x.exec ctx).1

/-- The step fails in no state. -/
abbrev Lower.Succeeds {α : Type} (x : Lower α) : Prop := FailsOnly (fun _ => False) x

namespace Lower.Finds

variable {o o' : Option SpecError} {α β : Type}

theorem throw (e : SpecError) : Finds (some e) (MonadExcept.throw e : Lower α) :=
  fun _ => .error e

theorem of_succeeds {x : Lower α} (hx : Succeeds x) : Finds none x := by
  intro ctx
  have h := hx ctx
  cases hrun : (x.exec ctx).1 with
  | ok a => exact .ok a
  | error e => exact (h e hrun).elim

/-- Of the defects of two steps the first counts. -/
theorem bind {x : Lower α} {f : α → Lower β} (hx : Finds o x) (hf : ∀ a, Finds o' (f a)) :
    Finds (o.or o') (x >>= f) := by
  intro ctx
  have h := hx ctx
  rw [exec_bind]
  rcases hrun : x.exec ctx with ⟨e | a, ctx'⟩ <;> rw [hrun] at h <;> cases h
  · exact .error e
  · exact hf a ctx'

/-- A first step that does not fail adds no defect. -/
theorem after {x : Lower α} {f : α → Lower β} (hx : Succeeds x) (hf : ∀ a, Finds o (f a)) :
    Finds o (x >>= f) :=
  bind (of_succeeds hx) hf

/-- Further steps that do not fail add no defect. -/
theorem last {x : Lower α} {f : α → Lower β} (hx : Finds o x) (hf : ∀ a, Succeeds (f a)) :
    Finds o (x >>= f) := by
  rw [← o.or_none]
  exact hx.bind fun a => of_succeeds (hf a)

theorem withName {name : String} {x : Lower α} (hx : Finds o x) :
    Finds o (Lower.withName name x) :=
  fun ctx => hx (ctx.push.declare name)

theorem withTrial {index : String} {x : Lower α} (hx : Finds o x) :
    Finds o (Lower.withTrial index x) :=
  fun ctx => hx { ctx with trial := some index }

theorem ofExcept_bind {x : Except SpecError α} {f : α → Lower β} {a : α} (hx : x = .ok a)
    (hf : Finds o (f a)) : Finds o (MonadExcept.ofExcept x >>= f) := by
  intro ctx
  rw [exec_bind, exec_ofExcept, hx]
  exact hf ctx

theorem requireAlternative (c : Clause) (op : CmpOp) :
    Finds (c.binomialRefusal? op) (Lower.requireAlternative c op) := by
  cases op <;> first | exact .of_succeeds (.pure _) | exact .throw _

theorem tTest (target : Target) (c : Clause) (samples expected : Code) (op : CmpOp)
    (mode : Mode) :
    Finds (c.tTestRefusal? op mode) (Lower.tTest target c samples expected op mode) := by
  refine .after .fresh fun result => .after (.emit _) fun _ => ?_
  cases mode <;> cases op <;> first | exact .of_succeeds (.pure _) | exact .throw _

end Lower.Finds

/-! ### Lowering ends in the first defect -/

mutual

/-- Lowering an annotated term ends in its first defect, in every state. -/
theorem Term.lower_finds (ctx : Context) : ∀ (t : Term) {Γ : LexicalEnv} {τ : ValueType},
    t.Annotated Γ τ → Finds t.refusal? (t.lower ctx)
  | .constant note value, Γ, τ, h => .ok _
  | .probability note trials body, Γ, τ, h => .error _
  | .probabilityOverItems note ranges body, Γ, τ, h => .error _
  | .expectation note trials body, Γ, τ, h => .error _
  | .expectationOverItems note ranges body, Γ, τ, h => .error _
  | .lookup note collection key, Γ, τ, h => by
      rw [Term.lower, Term.refusal?]
      cases h with
      | element hcollection hkey =>
          refine .bind (collection.lower_finds ctx hcollection) fun c => ?_
          refine .last (key.lower_finds ctx hkey) fun k => ?_
          exact .ok_bind (requireType_of_annotated hcollection) (.ok _)
      | entry hcollection hkey =>
          refine .bind (collection.lower_finds ctx hcollection) fun c => ?_
          refine .last (key.lower_finds ctx hkey) fun k => ?_
          exact .ok_bind (requireType_of_annotated hcollection) (.ok _)
  | .identifier note name, Γ, τ, h => .ok _
  | .tuple note elements, Γ, τ, h => by
      obtain ⟨τs, hτs, -⟩ := h.of_tuple
      rw [Term.lower, Term.refusal?]
      exact .last (lowerList_finds ctx elements hτs) fun _ => .ok _
  | .binary note lhs op rhs, Γ, τ, h => by
      rw [Term.lower, Term.refusal?]
      cases h with
      | binary hlhs hrhs =>
          refine .ok_bind (requireType_of_annotated hlhs) ?_
          refine .ok_bind (requireType_of_annotated hrhs) ?_
          simp only [ne_eq, not_true_eq_false, if_false]
          refine .bind (lhs.lower_finds ctx hlhs) fun a => ?_
          refine .bind (rhs.lower_finds ctx hrhs) fun b => ?_
          rw [hlhs.ty_eq]
          -- The type of the operands decides which operations there are.
          cases τ <;> cases op <;> first | exact .ok _ | exact .error _
  | .sizeOf note collection, Γ, τ, h => by
      rw [Term.lower, Term.refusal?]
      cases h with
      | sizeOf hcollection => exact .last (collection.lower_finds ctx hcollection) fun _ => .ok _
  | .call note name args, Γ, τ, h => by
      rw [Term.lower, Term.refusal?]
      cases h with
      | call hargs => exact .last (lowerList_finds ctx args hargs) fun _ => .ok _

/-- Lowering annotated terms ends in their first defect, in every state. -/
theorem Term.lowerList_finds (ctx : Context) : ∀ (ts : List Term) {Γ : LexicalEnv}
    {τs : List ValueType}, Term.TypedList .filled Γ ts τs →
      Finds (Term.refusalOfAll? ts) (Term.lowerList ctx ts)
  | [], Γ, τs, h => .ok _
  | t :: rest, Γ, τs, h => by
      rw [Term.lowerList, Term.refusalOfAll?]
      cases h with
      | cons hhead htail =>
          refine .bind (t.lower_finds ctx hhead) fun c => ?_
          exact .last (lowerList_finds ctx rest htail) fun _ => .ok _

end

namespace Lower.Finds

theorem annotated {t : Term} {Γ : LexicalEnv} {τ : ValueType} (h : t.Annotated Γ τ) :
    Finds t.refusal? (Lower.term t) := by
  intro ctx
  rw [exec_term]
  exact t.lower_finds ctx h

/-- Opening loops ends in the first defect of the collections, in every state. -/
theorem openRanges : ∀ {ranges : List Range} {Γ Δ : LexicalEnv},
    Range.TypedList .filled Γ ranges Δ →
      Finds (Range.refusalOfAll? ranges) (Lower.openRanges ranges)
  | [], Γ, Δ, h => .of_succeeds (.pure _)
  | .mk span var collection mode :: rest, Γ, Δ, h => by
      rw [Range.refusalOfAll?, Lower.openRanges]
      obtain ⟨τ, hcollection, hrest⟩ := h.of_cons
      refine .bind (.annotated hcollection) fun c => .after (.declare var) fun _ => ?_
      exact .after .openBlock fun _ => .last (openRanges hrest) fun _ => .pure _

end Lower.Finds

open Lower

/-- Lowering an annotated comparison of two terms ends in its first defect. -/
theorem Clause.comparison_finds {target : Target} {span : Span} {lhs rhs : Term} {op : CmpOp}
    {mode : Mode} {Γ : LexicalEnv} {τ σ : ValueType} (hplain : lhs.isStatistic = false)
    (hlhs : lhs.Annotated Γ τ) (hrhs : rhs.Annotated Γ σ) :
    Lower.Finds ((Clause.compare span lhs op rhs).refusal? mode)
      ((Clause.compare span lhs op rhs).lower target mode) := by
  rw [Clause.lower_compare hplain, Clause.refusal?_compare hplain]
  exact .bind (.annotated hlhs) fun a => .last (.annotated hrhs) fun b => .pure _

/-- Lowering an annotated clause ends in its first defect, in every state. -/
theorem Clause.lower_finds (target : Target) : ∀ (c : Clause) (mode : Mode) {Γ : LexicalEnv},
    c.Annotated Γ → Lower.Finds (c.refusal? mode) (c.lower target mode)
  | .forAll span ranges body, mode, Γ, h => by
      rw [Clause.lower, Clause.refusal?, instanceMode]
      cases h with
      | forAll hranges hbody =>
          refine .after .fresh fun result => ?_
          by_cases hdomain : body.domain = .overRuns
          · rw [if_pos hdomain, if_pos hdomain]
            refine .after .fresh fun pvalues => .after (.emit _) fun _ => ?_
            refine .after .pushScope fun _ => .bind (.openRanges hranges) fun loops => ?_
            refine .last (body.lower_finds target _ hbody) fun p => ?_
            refine .bind (.emit _) fun _ => .bind (.closeRanges _ _) fun _ => ?_
            exact .bind .popScope fun _ => .bind (.emit _) fun _ => .pure _
          · rw [if_neg hdomain, if_neg hdomain]
            refine .after (.emit _) fun _ => .after .pushScope fun _ => ?_
            refine .bind (.openRanges hranges) fun loops => ?_
            refine .last (body.lower_finds target _ hbody) fun holds => ?_
            refine .bind (.emit _) fun _ => .bind (.closeRanges _ _) fun _ => ?_
            exact .bind .popScope fun _ => .pure _
  | .letIn span name value body, mode, Γ, h => by
      rw [Clause.lower, Clause.refusal?]
      cases h with
      | letIn hvalue hbody =>
          refine .bind (.annotated hvalue) fun v => .after (.emit _) fun _ => ?_
          exact .withName (body.lower_finds target mode hbody)
  | .membership span item collection, mode, Γ, h => by
      rw [Clause.lower, Clause.refusal?, Term.searchRefusal?]
      cases h with
      | @membership _ _ _ _ τ σ hitem hcollection =>
          refine .bind (.annotated hitem) fun i => ?_
          refine .ofExcept_bind (Term.requireType_of_annotated hitem) ?_
          refine .bind (.annotated hcollection) fun c => ?_
          refine .ofExcept_bind (Term.requireType_of_annotated hcollection) ?_
          rw [hcollection.ty_eq]
          cases σ <;> first | exact .of_succeeds (.pure _) | exact .throw _
  | .approx span lhs rhs, mode, Γ, h => by
      rw [Clause.lower, Clause.refusal?]
      cases h with
      | approx hlhs hrhs =>
          rw [if_pos (by simp [Term.isIdentifier, Term.asIdentifier])]
          refine .last (.annotated hrhs) fun expected => ?_
          refine .bind .fresh fun differences => .bind .fresh fun sample => ?_
          exact .bind (.emit _) fun _ => .pure _
  | .compare span (.probability note trials body) op rhs, mode, Γ, h => by
      rw [Clause.lower, Clause.refusal?]
      cases h with
      | compare hlhs hrhs =>
          cases hlhs with
          | probability hbody =>
              refine .bind (.requireAlternative _ op) fun alternative => ?_
              refine .after .fresh fun count => .after (.emit _) fun _ => ?_
              refine .after .fresh fun index => .after .openBlock fun _ => ?_
              refine .bind (.withTrial (body.lower_finds target _ hbody)) fun hit => ?_
              refine .after (.countHit _ _) fun _ => .after .closeBlock fun loopBody => ?_
              exact .after (.emit _) fun _ => .last (.annotated hrhs) fun _ => .pure _
  | .compare span (.probabilityOverItems note ranges body) op rhs, mode, Γ, h => by
      rw [Clause.lower, Clause.refusal?]
      cases h with
      | compare hlhs hrhs =>
          cases hlhs with
          | probabilityOverItems hranges hbody =>
              refine .bind (.requireAlternative _ op) fun alternative => ?_
              refine .after .fresh fun count => .after (.emit _) fun _ => ?_
              refine .after .pushScope fun _ => .bind (.openRanges hranges) fun loops => ?_
              refine .bind (body.lower_finds target _ hbody) fun hit => ?_
              refine .after (.countHit _ _) fun _ => .after (.closeRanges _ _) fun _ => ?_
              exact .after .popScope fun _ => .last (.annotated hrhs) fun _ => .pure _
  | .compare span (.expectation note trials body) op rhs, mode, Γ, h => by
      rw [Clause.lower, Clause.refusal?, Term.expectationRefusal?]
      cases h with
      | compare hlhs hrhs =>
          -- The steps after the check stand behind both of its outcomes.
          have hrest (clause : Clause) : Lower.Finds
              (rhs.refusal?.or (clause.tTestRefusal? op mode)) (do
                let expected ← term rhs
                tTest target clause (.name outputName) expected op mode) :=
            .bind (.annotated hrhs) fun expected => .tTest _ _ _ _ _ _
          by_cases hbody : body.isIdentifier outputName = true
          · rw [if_pos hbody, if_pos hbody]
            exact hrest _
          · rw [if_neg hbody, if_neg hbody]
            exact .bind (.throw _) fun _ => hrest _
  | .compare span (.expectationOverItems note ranges body) op rhs, mode, Γ, h => by
      rw [Clause.lower, Clause.refusal?]
      cases h with
      | compare hlhs hrhs =>
          cases hlhs with
          | expectationOverItems hranges hbody =>
              refine .after .fresh fun samples => .after (.emit _) fun _ => ?_
              refine .after .pushScope fun _ => .bind (.openRanges hranges) fun loops => ?_
              refine .bind (.annotated hbody) fun value => .after (.emit _) fun _ => ?_
              refine .after (.closeRanges _ _) fun _ => .after .popScope fun _ => ?_
              exact .bind (.annotated hrhs) fun expected => .tTest _ _ _ _ _ _
  | .compare _ (.constant ..) _ _, _, _, .compare hlhs hrhs
  | .compare _ (.lookup ..) _ _, _, _, .compare hlhs hrhs
  | .compare _ (.identifier ..) _ _, _, _, .compare hlhs hrhs
  | .compare _ (.tuple ..) _ _, _, _, .compare hlhs hrhs
  | .compare _ (.binary ..) _ _, _, _, .compare hlhs hrhs
  | .compare _ (.sizeOf ..) _ _, _, _, .compare hlhs hrhs
  | .compare _ (.call ..) _ _, _, _, .compare hlhs hrhs => comparison_finds rfl hlhs hrhs
  | .logic span lhs op rhs, mode, Γ, h => by
      rw [Clause.lower, Clause.refusal?]
      cases h with
      | logic hlhs hrhs =>
          refine .bind (lhs.lower_finds target mode hlhs) fun a => ?_
          refine .last (rhs.lower_finds target mode hrhs) fun b => ?_
          cases mode <;> cases op <;> exact .pure _
  | .not span inner, mode, Γ, h => by
      rw [Clause.lower, Clause.refusal?]
      cases h with
      | not hinner =>
          refine .last (inner.lower_finds target mode hinner) fun v => ?_
          cases mode <;> exact .pure _

/-- Acceptance is a property of the analysed tree. A clause of an analysed specification can be
lowered in a mode exactly if it is lowerable in that mode, in whatever state and for whatever
library and level of significance. If it cannot, then the defect is the same in all states, for
all libraries and all levels. -/
theorem Clause.lower_accepts_isLowerable {spec spec' : Specification} {d : Domain}
    (hspec : spec.analyze = (spec', .ok d)) {c : Clause} (hc : .clause c ∈ spec'.nodes)
    (mode : Mode) :
    (∀ (target : Target) (ctx : Context),
      (∃ v, ((c.lower target mode).exec ctx).1 = .ok v) ↔ c.isLowerable mode = true) ∧
    ∀ (target target' : Target) (ctx ctx' : Context) (e : SpecError),
      ((c.lower target mode).exec ctx).1 = .error e →
        ((c.lower target' mode).exec ctx').1 = .error e := by
  obtain ⟨Γ, hΓ⟩ := (Specification.annotated_of_analyze hspec).of_mem_nodes _ hc
  have hfinds (target : Target) : Lower.Finds (c.refusal? mode) (c.lower target mode) :=
    c.lower_finds target mode hΓ
  refine ⟨?_, ?_⟩
  · intro target ctx
    rw [(hfinds target ctx).exists_ok_iff, c.refusal?_eq_none_iff]
  · intro target target' ctx ctx' e he
    rw [(hfinds target ctx).eq_error_iff] at he
    rwa [(hfinds target' ctx').eq_error_iff]

/-- The mean output over the runs is positive, with the type recorded at its terms. -/
def positiveMean (ty : Option ValueType) : Clause :=
  .compare .dummy (.expectation ⟨.dummy, ty⟩ .runs (.identifier ⟨.dummy, ty⟩ "Output")) .gt
    (.constant ⟨.dummy, ty⟩ "0")

/-- The mean output is positive for every position in the input. -/
def positiveMeans (input ty : Option ValueType) : Clause :=
  .forAll .dummy [.mk .dummy "i" (.identifier ⟨.dummy, input⟩ "Input") .indices] (positiveMean ty)

def positiveMeansSpecification : Specification where
  decls := [{ name := "Output", ty := .scalar }, { name := "Input", ty := .sequence .scalar }]
  accuracy := some (positiveMeans none none)

/-- A mean over runs under a quantifier is judged by its p-value, and a one-sided test has none.
So the quantifier is refused in both modes, and the comparison in one of them. -/
theorem Clause.lower_accepts_isLowerable_positiveMeans :
    ∃ spec', positiveMeansSpecification.analyze = (spec', .ok .overRuns) ∧
      .clause (positiveMeans (some (.sequence .scalar)) (some .scalar)) ∈ spec'.nodes ∧
      .clause (positiveMean (some .scalar)) ∈ spec'.nodes ∧
      (∀ mode target ctx v, ((Clause.lower target
        (positiveMeans (some (.sequence .scalar)) (some .scalar)) mode).exec ctx).1 ≠ .ok v) ∧
      (∀ target ctx, ∃ v, ((Clause.lower target
        (positiveMean (some .scalar)) .boolean).exec ctx).1 = .ok v) ∧
      ∀ target ctx, ((Clause.lower target
        (positiveMean (some .scalar)) .probability).exec ctx).1 =
          .error
            (.unsupportedTest .gt .twoSidedTTest "Expectation over runs [Output] > 0" .dummy) := by
  have hspec : positiveMeansSpecification.analyze =
      (positiveMeansSpecification.analyze.1, .ok .overRuns) := rfl
  have hmeans : .clause (positiveMeans (some (.sequence .scalar)) (some .scalar)) ∈
      positiveMeansSpecification.analyze.1.nodes := List.mem_cons_self
  have hmean : .clause (positiveMean (some .scalar)) ∈
      positiveMeansSpecification.analyze.1.nodes :=
    List.mem_cons_of_mem _ (List.mem_cons_of_mem _ (List.mem_cons_of_mem _ List.mem_cons_self))
  refine ⟨_, hspec, hmeans, hmean, ?_, ?_, ?_⟩
  · intro mode target ctx v hv
    have h := ((lower_accepts_isLowerable hspec hmeans mode).1 target ctx).1 ⟨v, hv⟩
    cases mode <;> cases h
  · intro target ctx
    exact ((lower_accepts_isLowerable hspec hmean .boolean).1 target ctx).2 rfl
  · intro target ctx
    exact (lower_accepts_isLowerable hspec hmean .probability).2 {} target
      (Context.start ["Output", "Runs"]) ctx _ rfl

end StatContract
