import StatContract.Proofs.Checker.TrialBounds
import StatContract.Proofs.Code.Outline

/-!
# The shape of a module

A generated module always has its functions in the same order, and each of them has a
fixed outline: the checker takes the outputs out of the aggregate first, returns a name
last and nowhere else, and the final function defines one model for each cost.

Whether there is a checker is told by the accuracy clause when the functions are put
together, and by the domain when the module is asked for the name. The two agree because
a domain that can be checked is that of costs alone exactly if there is no such clause.

Returns and definitions may stand at any depth, so they are looked for among the parts of
a body, `Stmt.partsOfAll`, which are all statements in it.
-/

namespace StatContract

namespace Stmt

@[simp] theorem partsOfAll_append (a b : List Stmt) :
    partsOfAll (a ++ b) = partsOfAll a ++ partsOfAll b := by
  induction a with
  | nil => rfl
  | cons s a ih => simp [partsOfAll, ih]

/-- No statement of a block is a return, at any depth. -/
def ReturnFree (body : List Stmt) : Prop := ∀ value, ret value ∉ partsOfAll body

@[simp] theorem returnFree_nil : ReturnFree [] := by simp [ReturnFree, partsOfAll]

@[simp] theorem returnFree_append_iff (a b : List Stmt) :
    ReturnFree (a ++ b) ↔ ReturnFree a ∧ ReturnFree b := by
  simp [ReturnFree, forall_and]

@[simp] theorem returnFree_cons_iff (s : Stmt) (rest : List Stmt) :
    ReturnFree (s :: rest) ↔ (∀ value, ret value ∉ s.parts) ∧ ReturnFree rest := by
  simp [ReturnFree, partsOfAll, forall_and]

@[simp] theorem parts_update (target : Code) (op : ArithOp) (value : Code) :
    (update target op value).parts = [update target op value] := rfl

@[simp] theorem parts_append (list value : Code) :
    (append list value).parts = [append list value] := rfl

@[simp] theorem parts_breakUnless (condition : Code) :
    (breakUnless condition).parts = [breakUnless condition] := rfl

@[simp] theorem ret_notMem_parts_set (value : Code) (var : String) (value' : Code) :
    ret value ∉ (set var value').parts := by
  simp [parts, set]

@[simp] theorem forall_ret_notMem_parts_forIn_iff (var : String) (source : Code)
    (body : List Stmt) :
    (∀ value, ret value ∉ (forIn var source body).parts) ↔ ReturnFree body := by
  simp [ReturnFree, parts]

end Stmt

open Stmt

/-- Loops add no return to what they are put around. -/
@[simp] theorem Loop.returnFree_nest_iff (condition : Option String) (loops : List Loop)
    (inner : List Stmt) : ReturnFree (Loop.nest condition loops inner) ↔ ReturnFree inner := by
  induction loops with
  | nil => rfl
  | cons loop loops ih => cases condition <;> simp [Loop.nest, ih]

/-- Lowering a clause emits no return, at any depth. -/
theorem Clause.Emits.returnFree {target : Target} {ctx : Context} {c : Clause} {mode : Mode}
    {stmts : List Stmt} {v : Verdict} {k : Nat} (h : c.Emits target ctx mode stmts v k) :
    ReturnFree stmts := by
  induction h with
  | forAll _ _ _ ih | forAllTests _ _ _ ih | probability _ _ _ ih
  | probabilityOverItems _ _ _ _ ih | letIn _ _ ih => simp [ih]
  | logic _ _ ih₁ ih₂ => simp [ih₁, ih₂]
  | not _ ih => exact ih
  | approx | expectation | expectationOverItems => simp
  | membershipList | membershipMap | compare => exact returnFree_nil

/-- Temporaries are plain names. -/
theorem isPlainName_tempName (k : Nat) : isPlainName (tempName k) = true := by
  have hlist : (tempName k).toList = 't' :: Nat.toDigits 10 k := by simp [tempName]
  have hdigits : (Nat.toDigits 10 k).all (fun c => c.isAlphanum || c = '_') = true := by
    rw [List.all_eq_true]
    intro c hc
    have hdigit : c.isDigit = true := Nat.isDigit_of_mem_toDigits (by decide) (by decide) hc
    simp [Char.isAlphanum, hdigit]
  have hempty : (tempName k).isEmpty = false := by simp [tempName]
  rw [isPlainName, hempty, hlist, List.all_cons, hdigits]
  decide

/-- A text with a bracket is no plain name. -/
theorem isPlainName_of_bracket {text : String} (h : '(' ∈ text.toList) :
    isPlainName text = false := by
  rw [isPlainName, Bool.and_eq_false_iff, List.all_eq_false]
  exact .inr ⟨'(', h, by decide⟩

theorem Code.isPlainName_paren (c : Code) : isPlainName (paren c).text = false :=
  isPlainName_of_bracket (by simp [text])

theorem Code.isPlainName_getOrZero (c key : Code) : isPlainName (getOrZero c key).text = false :=
  isPlainName_of_bracket (by simp [getOrZero, text])

/-- The verdict of a t-test is no plain name. -/
theorem Target.isPlainName_tTestVerdict {target : Target} {result : String} {op : CmpOp}
    {v : Verdict} (h : target.tTestVerdict? result op .boolean = some v) :
    isPlainName v.code.text = false := by
  cases op <;> cases h <;> exact Code.isPlainName_paren _

/-- A condition whose text is a plain name is a temporary. Only a quantifier leaves its
verdict in a variable; all other conditions have brackets. -/
theorem Clause.Emits.eq_tempName_of_isPlainName {target : Target} {ctx : Context} {c : Clause}
    {mode : Mode} {stmts : List Stmt} {v : Verdict} {k : Nat}
    (h : c.Emits target ctx mode stmts v k) (hmode : mode = .boolean)
    (hplain : isPlainName v.code.text = true) : ∃ j, v.code = .name (tempName j) := by
  have hbrackets (hnot : isPlainName v.code.text = false) :
      ∃ j, v.code = .name (tempName j) := by
    rw [hnot] at hplain
    cases hplain
  induction h with
  | forAll => subst hmode; exact ⟨_, rfl⟩
  | letIn _ _ ih => exact ih hmode hplain hbrackets
  | membershipMap => subst hmode; exact hbrackets (Code.isPlainName_getOrZero _ _)
  | expectation _ _ hverdict | expectationOverItems _ _ _ hverdict =>
      subst hmode
      exact hbrackets (Target.isPlainName_tTestVerdict hverdict)
  | forAllTests | membershipList | approx | probability | probabilityOverItems | compare
  | logic | not => subst hmode; exact hbrackets (Code.isPlainName_paren _)

/-- A function with the outline of the checker for a domain. Its statements before the
return are a first one that takes the outputs out of the aggregate, those of the clause,
and a warning that tests what is returned. -/
structure FunctionDef.IsChecker (d : Domain) (f : FunctionDef) : Prop where
  domain : d ∈ [Domain.overInputs, .overRuns, .overItems]
  signature : d.signature? = some ⟨f.name, f.params⟩
  body : ∃ (stmts warning : List Stmt) (result : String),
    f.body = .set outputName (.entry (.name outputName) "acc") ::
      (stmts ++ [.ifTrue (.not (.name result)) warning, .ret (.name result)]) ∧
    isPlainName result = true
  returnFree : ReturnFree f.body.dropLast

/-- What a checker does with the verdict of its clause ends in the return of a temporary. -/
theorem Clause.Emits.ending_eq {target : Target} {ctx : Context} {c : Clause}
    {stmts : List Stmt} {v : Verdict} {k : Nat} (h : c.Emits target ctx .boolean stmts v k) :
    ∃ (before : List Stmt) (j : Nat), ReturnFree before ∧
      v.ending k = before ++
        [.ifTrue (.not (.name (tempName j)))
          [.print [.quoted "Checker detected a possible error"]], .ret (.name (tempName j))] := by
  unfold Verdict.ending
  split
  · next hplain =>
      obtain ⟨j, hj⟩ := h.eq_tempName_of_isPlainName rfl hplain
      exact ⟨[], j, returnFree_nil, by rw [hj]; rfl⟩
  · exact ⟨[.set (tempName k) v.code], k, by simp, rfl⟩

/-- The checker of a clause has the outline of a checker. -/
theorem Clause.isChecker_of_checker {target : Target} {d : Domain} {signature : Signature}
    {clause : Clause} {f : FunctionDef} (hsignature : d.signature? = some signature)
    (h : clause.checker target d signature = .ok f) : f.IsChecker d := by
  obtain ⟨hname, hparams, stmts, v, k, hemits, hbody⟩ := Clause.exists_body_of_checker h
  obtain ⟨before, j, hbefore, hending⟩ := hemits.ending_eq
  have hbody : f.body = .set outputName (.entry (.name outputName) "acc") ::
      ((stmts ++ before) ++ [.ifTrue (.not (.name (tempName j)))
        [.print [.quoted "Checker detected a possible error"]], .ret (.name (tempName j))]) := by
    rw [hbody, hending, List.append_assoc]
  refine ⟨?_, by rw [hsignature, hname, hparams], ?_, ?_⟩
  · cases d <;> first | decide | cases hsignature
  · exact ⟨stmts ++ before, _, tempName j, hbody, isPlainName_tempName j⟩
  · have hlast : f.body.dropLast = .set outputName (.entry (.name outputName) "acc") ::
        ((stmts ++ before) ++ [.ifTrue (.not (.name (tempName j)))
          [.print [.quoted "Checker detected a possible error"]]]) := by
      rw [hbody, List.dropLast_cons_of_ne_nil (by simp), List.dropLast_append_of_ne_nil (by simp)]
      rfl
    rw [hlast]
    simp [hemits.returnFree, hbefore, parts, partsOfAll, print]

/-- The cost of a resource, if the specification has one. -/
def Specification.cost (spec : Specification) : Resource → Option Term
  | .time => spec.time
  | .space => spec.space

/-- The model of a resource, if the module has one. -/
def CheckerModule.model (m : CheckerModule) : Resource → Option CostModel
  | .time => m.timeModel
  | .space => m.spaceModel

namespace Resource

/-- Fitting a model defines the function of the resource and no other. -/
theorem define_mem_fit_iff (lib : Library) (r s : Resource) (model : CostModel)
    (params : List String) (body : List Stmt) :
    .define (r.key ++ "FitFunc") params body ∈ partsOfAll (fit lib s model) ↔
      r = s ∧ params = model.params ∧ body = [.ret model.body] := by
  cases r <;> cases s <;> simp [fit, key, partsOfAll, parts, print]

/-- The final function defines the models that it is given. -/
theorem define_mem_finalFunction_iff (lib : Library) (dataPrefix : String) (m : CheckerModule)
    (r : Resource) (params : List String) (body : List Stmt) :
    .define (r.key ++ "FitFunc") params body ∈
        partsOfAll (finalFunction lib dataPrefix m.timeModel m.spaceModel).body ↔
      ∃ model, m.model r = some model ∧ params = model.params ∧ body = [.ret model.body] := by
  have hcollect (s : Resource) :
      .define (r.key ++ "FitFunc") params body ∉ partsOfAll (collect lib dataPrefix s) := by
    simp [collect, partsOfAll, parts, Stmt.set]
  have hfit (s : Resource) (model? : Option CostModel) :
      .define (r.key ++ "FitFunc") params body ∈
          partsOfAll ((model?.map (fit lib s)).getD []) ↔
        ∃ model, model? = some model ∧ r = s ∧ params = model.params ∧
          body = [.ret model.body] := by
    cases model? <;> simp [partsOfAll, define_mem_fit_iff]
  simp only [finalFunction, partsOfAll_append, List.mem_append, hcollect, hfit, false_or]
  cases r <;> simp [CheckerModule.model]

end Resource

namespace Specification

variable {spec : Specification} {options : CheckerOptions} {m : CheckerModule}

/-- A module has a model for each cost of its specification. -/
theorem model_of_generate (h : spec.generate options = .ok m) (r : Resource) :
    (spec.cost r).mapM CostModel.synthesize = .ok (m.model r) := by
  obtain ⟨-, _, _, _, -, htime, hspace, rfl⟩ := (generate_eq_ok_iff spec options m).1 h
  cases r with
  | time => exact htime
  | space => exact hspace

/-- A resource has a model exactly if it has a cost, and then it is the model of that
cost. -/
theorem model_eq_some_iff (h : spec.generate options = .ok m) (r : Resource)
    (model : CostModel) :
    m.model r = some model ↔ ∃ cost, spec.cost r = some cost ∧
      CostModel.synthesize cost = .ok model := by
  have hmodel := model_of_generate h r
  cases hcost : spec.cost r with
  | none =>
      rw [hcost] at hmodel
      have hnone : none = m.model r := Except.ok.inj hmodel
      simp [← hnone]
  | some cost =>
      rw [hcost] at hmodel
      obtain ⟨model', hsynthesize, hsome⟩ := except_bind_eq_ok_iff.1 hmodel
      have hsome : some model' = m.model r := Except.ok.inj hsome
      simp [← hsome, hsynthesize]

/-- Without an accuracy clause a module has no checker, and its domain asks for none. -/
theorem checkers_of_accuracy_eq_none (haccuracy : spec.accuracy = none) (target : Target) :
    spec.checkers target = .ok [] ∧ spec.domain.signature? = none := by
  have hdomain : spec.domain.signature? = none := by
    rw [domain, haccuracy]
    dsimp only
    split <;> rfl
  exact ⟨by rw [checkers, hdomain]; rfl, hdomain⟩

/-- A module has a checker exactly if its specification has an accuracy clause, exactly if
the module gives the name of one, and it has the outline that the domain asks for. -/
theorem exists_checker?_of_generate (h : spec.generate options = .ok m) :
    ∃ checker? : Option FunctionDef, m.functions = checker?.toList ++
        [Aggregate.ofRuns m.domain, Aggregate.ofInputs m.domain,
          Resource.finalFunction ⟨options.library⟩ options.dataPrefix m.timeModel m.spaceModel] ∧
      (checker?.isSome ↔ spec.accuracy.isSome) ∧
      m.checkerName? = checker?.map FunctionDef.name ∧
      ∀ f ∈ checker?, f.IsChecker m.domain := by
  obtain ⟨-, checkers, _, _, hcheckers, -, -, rfl⟩ := (generate_eq_ok_iff spec options m).1 h
  cases haccuracy : spec.accuracy with
  | none =>
      obtain ⟨hnone, hsignature⟩ := checkers_of_accuracy_eq_none haccuracy
        { library := ⟨options.library⟩, alpha := options.alpha }
      obtain rfl : [] = checkers := Except.ok.inj (hnone.symm.trans hcheckers)
      exact ⟨none, rfl, by simp, by simp [CheckerModule.checkerName?, hsignature], by simp⟩
  | some clause =>
      have hdomain : spec.domain = clause.domain := by rw [domain, haccuracy]
      obtain ⟨target, signature, f, rest, hsignature, hf, hfunctions⟩ :=
        exists_checker_of_generate h haccuracy
      rw [← hdomain] at hsignature hf
      have hchecker := Clause.isChecker_of_checker hsignature hf
      rw [Specification.checkers, hsignature, haccuracy] at hcheckers
      obtain ⟨g, hg, hcheckers⟩ := except_bind_eq_ok_iff.1 hcheckers
      obtain rfl : [g] = checkers := Except.ok.inj hcheckers
      obtain rfl : g = f := (List.cons.inj hfunctions).1
      refine ⟨some g, rfl, by simp, ?_, ?_⟩
      · simp [CheckerModule.checkerName?, hchecker.signature]
      · rintro _ ⟨⟩
        exact hchecker

/-- The functions of a module are the checker, if there is one, the two aggregators and the
final function, in this order. There is a checker exactly if the specification has an
accuracy clause, which is exactly if the module gives its name, and it has the name, the
parameters and the outline for the domain. The final function defines a model of a resource
exactly if the specification has a cost for it, with the coefficients of its model as
parameters. -/
theorem generate_has_shape (h : spec.generate options = .ok m) :
    ∃ (checker? : Option FunctionDef) (final : FunctionDef),
      m.functions =
        checker?.toList ++ [Aggregate.ofRuns m.domain, Aggregate.ofInputs m.domain, final] ∧
      m.functions.map FunctionDef.name =
        (checker?.map FunctionDef.name).toList ++ ["inpAgg", "cfgAgg", "finalFunc"] ∧
      (checker?.isSome ↔ spec.accuracy.isSome) ∧
      (spec.accuracy.isSome ↔ m.checkerName?.isSome) ∧
      (∀ f ∈ checker?, f.IsChecker m.domain) ∧
      ∀ r : Resource,
        ((∃ params body, .define (r.key ++ "FitFunc") params body ∈ partsOfAll final.body) ↔
          (spec.cost r).isSome) ∧
        ∀ params body, .define (r.key ++ "FitFunc") params body ∈ partsOfAll final.body →
          ∃ cost model, spec.cost r = some cost ∧ CostModel.synthesize cost = .ok model ∧
            m.model r = some model ∧
            params = "Cfg" :: (List.range model.coefficients).map fun i => "p" ++ toString i := by
  obtain ⟨checker?, hfunctions, haccuracy, hname, hchecker⟩ := exists_checker?_of_generate h
  refine ⟨checker?, _, hfunctions, ?_, haccuracy, ?_, hchecker, fun r => ⟨?_, ?_⟩⟩
  · rw [hfunctions]
    cases checker? <;> rfl
  · rw [← haccuracy, hname, Option.isSome_map]
  · simp only [Resource.define_mem_finalFunction_iff, model_eq_some_iff h]
    constructor
    · rintro ⟨_, _, model, ⟨cost, hcost, -⟩, -⟩
      rw [hcost, Option.isSome_some]
    · intro hcost
      obtain ⟨cost, hcost⟩ := Option.isSome_iff_exists.1 hcost
      have hmodel := model_of_generate h r
      rw [hcost] at hmodel
      obtain ⟨model, hmodel, -⟩ := except_bind_eq_ok_iff.1 hmodel
      exact ⟨_, _, model, ⟨cost, hcost, hmodel⟩, rfl, rfl⟩
  · intro params body hmem
    obtain ⟨model, hmodel, rfl, -⟩ := (Resource.define_mem_finalFunction_iff _ _ m r _ _).1 hmem
    obtain ⟨cost, hcost, hsynthesize⟩ := (model_eq_some_iff h r model).1 hmodel
    exact ⟨cost, model, hcost, hsynthesize, hmodel, rfl⟩

/-- Each row of the output has mostly positive numbers, in quadratic time. -/
def positiveRows : Specification where
  decls := [⟨"Output", .sequence (.sequence .scalar), .dummy⟩, ⟨"Input", .scalar, .dummy⟩]
  accuracy := some (.forAll .dummy [.mk .dummy "row" (.identifier {} "Output") .elements]
    (.compare .dummy
      (.probabilityOverItems {} [.mk .dummy "x" (.identifier {} "row") .elements]
        (.compare .dummy (.identifier {} "x") .gt (.constant {} "0")))
      .ge (.constant {} "0.9")))
  time := some (.binary {} (.identifier {} "n") .pow (.constant {} "2"))

/-- The module for the rows starts with a checker for the items of a run. Its final function
defines a model of the time, with the five coefficients of a quadratic polynomial in a
measured quantity, and none of the space. -/
theorem generate_has_shape_positiveRows :
    ∃ m f final, positiveRows.analyze.1.generate {} = .ok m ∧
      m.functions = [f, Aggregate.ofRuns .overItems, Aggregate.ofInputs .overItems, final] ∧
      f.IsChecker .overItems ∧
      (∃ body, .define "timeFitFunc" ["Cfg", "p0", "p1", "p2", "p3", "p4"] body ∈
        partsOfAll final.body) ∧
      ¬ ∃ params body, .define "spaceFitFunc" params body ∈ partsOfAll final.body := by
  obtain ⟨m, hm⟩ : ∃ m, positiveRows.analyze.1.generate {} = .ok m := by
    have hok : (positiveRows.analyze.1.generate {}).isOk = true := by decide +kernel
    cases hm : positiveRows.analyze.1.generate {} with
    | ok m => exact ⟨m, rfl⟩
    | error e =>
        rw [hm] at hok
        cases hok
  have hdomain : m.domain = .overItems := by
    rw [domain_of_generate hm]
    rfl
  obtain ⟨checker?, final, hfunctions, -, haccuracy, -, hchecker, hfit⟩ := generate_has_shape hm
  rw [hdomain] at hfunctions hchecker
  obtain ⟨f, rfl⟩ := Option.isSome_iff_exists.1 (haccuracy.2 rfl)
  obtain ⟨params, body, hmem⟩ := (hfit .time).1.2 rfl
  obtain ⟨_, model, ⟨⟩, hmodel, -, hparams⟩ := (hfit .time).2 params body hmem
  have hcoefficients : model.coefficients = 5 := by
    cases hmodel
    rfl
  rw [hparams, hcoefficients] at hmem
  exact ⟨m, f, final, hm, hfunctions, hchecker f rfl, ⟨body, hmem⟩,
    fun h => absurd ((hfit .space).1.1 h) (by decide)⟩

end Specification

end StatContract
