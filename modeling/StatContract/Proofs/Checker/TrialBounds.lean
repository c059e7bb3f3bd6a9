import StatContract.Proofs.Checker.Prefilter
import StatContract.Proofs.Lowering.Emission
import StatContract.Proofs.Spec.Trials
import Mathlib.Data.List.Induction

/-!
# The trial bounds of a checker

A comparison of a probability over runs becomes a loop over `range(Runs)` and a
binomial test with `Runs` trials, and one over inputs the same with `Inputs`. Both
names are meant to be parameters of the checker. Which parameters a checker has is
decided by its domain, and the domain by the outer statistics of the clause alone,
while the loops are written for every statistic that lowering comes to.

`Clause.Emits.mem_trialBounds` says which bounds the statements of a clause use.
The result is `Specification.trialBounds_are_params_iff`: the bounds are parameters
exactly if those of the statistics inside other statistics are.
-/

namespace StatContract

namespace Code

/-- The number of trials that a call hands to a binomial test, if it is one. -/
def trialsOfCall : Code → List Code → List Code
  | attr _ function, [_, trials, _, _] => if function = "binomialTest" then [trials] else []
  | _, _ => []

/-- The bound of a range of numbers, if the expression is one. -/
def rangeBound : Code → List Code
  | call (name function) [bound] => if function = "range" then [bound] else []
  | _ => []

theorem mem_rangeBound_iff (c bound : Code) : bound ∈ c.rangeBound ↔ c = .range bound := by
  unfold rangeBound
  split
  · simp [Code.range, apply, and_comm, eq_comm]
  · next hne =>
      have hc : c ≠ .range bound := by
        rintro rfl
        exact hne "range" bound rfl
      simpa using hc

mutual

/-- The numbers of trials of the binomial tests in an expression. -/
def testBounds : Code → List Code
  | verbatim _ | name _ | quoted _ => []
  | paren inner | not inner | attr inner _ | keyword _ inner => inner.testBounds
  | binary lhs _ rhs | item lhs rhs => lhs.testBounds ++ rhs.testBounds
  | choice yes condition no => yes.testBounds ++ condition.testBounds ++ no.testBounds
  | call function args =>
    trialsOfCall function args ++ function.testBounds ++ testBoundsOfAll args
  | list items => testBoundsOfAll items
  | dict entries => testBoundsOfEntries entries
  | comprehension element _ source => element.testBounds ++ source.testBounds

def testBoundsOfAll : List Code → List Code
  | [] => []
  | c :: cs => c.testBounds ++ testBoundsOfAll cs

def testBoundsOfEntries : List (String × Code) → List Code
  | [] => []
  | (_, c) :: rest => c.testBounds ++ testBoundsOfEntries rest

end

@[simp] theorem testBounds_range (bound : Code) : (range bound).testBounds = bound.testBounds := by
  simp [range, apply, testBounds, testBoundsOfAll, trialsOfCall]

@[simp] theorem rangeBound_range (bound : Code) : (range bound).rangeBound = [bound] := rfl

end Code

namespace Stmt

mutual

/-- The bounds of the loops over a range of numbers and of the binomial tests in a
statement, at any depth. -/
def trialBounds : Stmt → List Code
  | assign target value | update target _ value | append target value =>
    target.testBounds ++ value.testBounds
  | eval value | breakUnless value | ret value => value.testBounds
  | forIn _ source body => source.rangeBound ++ source.testBounds ++ trialBoundsOfAll body
  | ifTrue condition body => condition.testBounds ++ trialBoundsOfAll body
  | define _ _ body => trialBoundsOfAll body
  | attempt body _ handler => trialBoundsOfAll body ++ trialBoundsOfAll handler

/-- The bounds of the loops and the tests in a block. -/
def trialBoundsOfAll : List Stmt → List Code
  | [] => []
  | s :: rest => s.trialBounds ++ trialBoundsOfAll rest

end

@[simp] theorem trialBoundsOfAll_append (a b : List Stmt) :
    trialBoundsOfAll (a ++ b) = trialBoundsOfAll a ++ trialBoundsOfAll b := by
  induction a with
  | nil => rfl
  | cons s a ih => rw [List.cons_append, trialBoundsOfAll, trialBoundsOfAll, ih, List.append_assoc]

@[simp] theorem trialBounds_set (var : String) (value : Code) :
    (set var value).trialBounds = value.testBounds := by
  simp [set, trialBounds, Code.testBounds]

end Stmt

open Code Stmt

/-- The bounds in nested loops are those of the loops and those of the body. -/
theorem Loop.mem_trialBounds_nest {condition : Option String} {loops : List Loop}
    {inner : List Stmt} {c : Code} :
    c ∈ trialBoundsOfAll (Loop.nest condition loops inner) ↔
      (∃ loop ∈ loops, c ∈ loop.source.rangeBound ++ loop.source.testBounds) ∨
        c ∈ trialBoundsOfAll inner := by
  induction loops with
  | nil => simp [Loop.nest]
  | cons loop loops ih =>
      have hbreak : trialBoundsOfAll
          (condition.toList.map fun name => .breakUnless (.name name)) = [] := by
        cases condition <;> rfl
      simp only [Loop.nest, trialBoundsOfAll, trialBounds, trialBoundsOfAll_append, hbreak,
        List.append_nil, List.mem_append, ih, List.mem_cons, exists_eq_or_imp]
      exact or_assoc.symm

section Terms

theorem Reference.testBounds_code (r : Reference) : r.code.testBounds = [] := by
  cases r <;> rfl

mutual

/-- No term becomes a binomial test. -/
theorem Term.testBounds_lower {ctx : Context} : ∀ {t : Term} {c : Code},
    t.lower ctx = .ok c → c.testBounds = []
  | .constant .., _, h => by
      cases h
      rfl
  | .probability .., _, h | .probabilityOverItems .., _, h | .expectation .., _, h
  | .expectationOverItems .., _, h => nomatch h
  | .identifier .., _, h => by
      cases h
      exact Reference.testBounds_code _
  | .lookup _ collection key, _, h => by
      rw [Term.lower] at h
      obtain ⟨c, hc, h⟩ := except_bind_eq_ok_iff.1 h
      obtain ⟨k, hk, h⟩ := except_bind_eq_ok_iff.1 h
      obtain ⟨ty, -, h⟩ := except_bind_eq_ok_iff.1 h
      have hcollection := Term.testBounds_lower hc
      have hkey := Term.testBounds_lower hk
      cases ty with
      | scalar | matrix => cases h
      | sequence | map =>
          cases h
          simp [getOrZero, testBounds, testBoundsOfAll, trialsOfCall, hcollection, hkey]
  | .tuple _ elements, _, h => by
      rw [Term.lower] at h
      obtain ⟨items, hitems, h⟩ := except_bind_eq_ok_iff.1 h
      cases h
      exact Term.testBounds_lowerList hitems
  | .binary _ lhs op rhs, _, h => by
      obtain ⟨a, b, ha, hb, hc⟩ := Term.exists_of_lower_binary h
      have hlhs := Term.testBounds_lower ha
      have hrhs := Term.testBounds_lower hb
      rcases hc with rfl | ⟨f, rfl⟩ <;>
        simp [group, apply, testBounds, testBoundsOfAll, trialsOfCall, hlhs, hrhs]
  | .sizeOf _ collection, _, h => by
      rw [Term.lower] at h
      obtain ⟨c, hc, h⟩ := except_bind_eq_ok_iff.1 h
      cases h
      simp [len, apply, testBounds, testBoundsOfAll, trialsOfCall, Term.testBounds_lower hc]
  | .call _ function args, _, h => by
      rw [Term.lower] at h
      obtain ⟨items, hitems, h⟩ := except_bind_eq_ok_iff.1 h
      cases h
      simp [apply, testBounds, trialsOfCall, Term.testBounds_lowerList hitems]

theorem Term.testBounds_lowerList {ctx : Context} : ∀ {ts : List Term} {cs : List Code},
    Term.lowerList ctx ts = .ok cs → testBoundsOfAll cs = []
  | [], _, h => by
      cases h
      rfl
  | t :: rest, _, h => by
      rw [Term.lowerList] at h
      obtain ⟨c, hc, h⟩ := except_bind_eq_ok_iff.1 h
      obtain ⟨cs, hcs, h⟩ := except_bind_eq_ok_iff.1 h
      cases h
      rw [testBoundsOfAll, Term.testBounds_lower hc, Term.testBounds_lowerList hcs]
      rfl

end

/-- Only a visible name is lowered to a name. -/
theorem Term.isVisible_of_lower_eq_name {ctx : Context} {t : Term} {n : String}
    (h : t.lower ctx = .ok (.name n)) : ctx.isVisible n = true := by
  cases t with
  | identifier _ name =>
      have hcode : (ctx.resolve name).code = .name n := Except.ok.inj h
      unfold Context.resolve at hcode
      split at hcode
      · next hvisible =>
          split at hcode
          · split at hcode <;> cases hcode
            exact hvisible
          · cases hcode
            exact hvisible
      · cases hcode
  | constant | probability | probabilityOverItems | expectation | expectationOverItems => cases h
  | lookup _ collection key =>
      rw [Term.lower] at h
      obtain ⟨c, -, h⟩ := except_bind_eq_ok_iff.1 h
      obtain ⟨k, -, h⟩ := except_bind_eq_ok_iff.1 h
      obtain ⟨ty, -, h⟩ := except_bind_eq_ok_iff.1 h
      cases ty <;> cases h
  | tuple | sizeOf | call =>
      rw [Term.lower] at h
      obtain ⟨c, -, h⟩ := except_bind_eq_ok_iff.1 h
      cases h
  | binary _ lhs op rhs =>
      obtain ⟨a, b, -, -, hc | ⟨f, hc⟩⟩ := Term.exists_of_lower_binary h <;> cases hc

/-- A range of numbers that stands in the clause has a visible name for its bound, if
it has a name. -/
theorem Term.isVisible_of_lower_eq_range {ctx : Context} {t : Term} {n : String}
    (h : t.lower ctx = .ok (.range (.name n))) : ctx.isVisible n = true := by
  cases t with
  | call _ function args =>
      rw [Term.lower] at h
      obtain ⟨items, hitems, h⟩ := except_bind_eq_ok_iff.1 h
      cases h
      cases args with
      | nil => cases hitems
      | cons arg rest =>
          rw [Term.lowerList] at hitems
          obtain ⟨c, hc, hitems⟩ := except_bind_eq_ok_iff.1 hitems
          obtain ⟨cs, -, hitems⟩ := except_bind_eq_ok_iff.1 hitems
          cases hitems
          exact Term.isVisible_of_lower_eq_name hc
  | constant | probability | probabilityOverItems | expectation | expectationOverItems => cases h
  | identifier _ n' =>
      have hcode : (ctx.resolve n').code = .range (.name n) := Except.ok.inj h
      cases hr : ctx.resolve n' <;> rw [hr] at hcode <;> cases hcode
  | lookup _ collection key =>
      rw [Term.lower] at h
      obtain ⟨c, -, h⟩ := except_bind_eq_ok_iff.1 h
      obtain ⟨k, -, h⟩ := except_bind_eq_ok_iff.1 h
      obtain ⟨ty, -, h⟩ := except_bind_eq_ok_iff.1 h
      cases ty <;> cases h
  | tuple =>
      rw [Term.lower] at h
      obtain ⟨c, -, h⟩ := except_bind_eq_ok_iff.1 h
      cases h
  | sizeOf =>
      rw [Term.lower] at h
      obtain ⟨c, -, h⟩ := except_bind_eq_ok_iff.1 h
      simp [len, Code.range, apply, pure, Except.pure] at h
  | binary _ lhs op rhs =>
      obtain ⟨a, b, -, -, hc | ⟨f, hc⟩⟩ := Term.exists_of_lower_binary h <;> cases hc

end Terms

section Verdicts

@[simp] theorem Verdict.testBounds_ofCondition (mode : Mode) (c : Code) :
    (Verdict.ofCondition mode c).code.testBounds = c.testBounds := by
  cases mode <;> simp [Verdict.ofCondition, Verdict.code, indicator, testBounds]

@[simp] theorem Target.testBounds_ofPValue (target : Target) (mode : Mode) (c : Code) :
    (target.ofPValue mode c).code.testBounds = c.testBounds := by
  cases mode <;> simp [Target.ofPValue, Target.alphaCode, Verdict.code, group, testBounds]

@[simp] theorem Verdict.testBounds_ofLogic (mode : Mode) (op : LogicOp) (a b : Verdict) :
    (Verdict.ofLogic mode op a b).code.testBounds = a.code.testBounds ++ b.code.testBounds := by
  cases mode <;> cases op <;>
    simp [Verdict.ofLogic, Verdict.code, group, apply, testBounds, testBoundsOfAll, trialsOfCall]

@[simp] theorem Verdict.testBounds_ofNot (mode : Mode) (v : Verdict) :
    (Verdict.ofNot mode v).code.testBounds = v.code.testBounds := by
  cases mode <;> simp [Verdict.ofNot, Verdict.code, group, Code.nat, testBounds]

theorem Target.testBounds_tTestVerdict {target : Target} {result : String} {op : CmpOp}
    {mode : Mode} {v : Verdict} (h : target.tTestVerdict? result op mode = some v) :
    v.code.testBounds = [] := by
  cases mode <;> cases op <;> cases h <;> rfl

theorem Library.testBounds_binomialTest (lib : Library) (count trials p : Code)
    (alternative : String) :
    (lib.binomialTest count trials p alternative).testBounds =
      trials :: (count.testBounds ++ trials.testBounds ++ p.testBounds) := by
  simp [Library.binomialTest, Library.function, testBounds, testBoundsOfAll, trialsOfCall]

theorem Library.testBounds_tTest (lib : Library) (samples expected : Code) :
    (lib.tTest samples expected).testBounds = samples.testBounds ++ expected.testBounds := by
  simp [Library.tTest, Library.function, testBounds, testBoundsOfAll, trialsOfCall]

theorem Library.testBounds_combinePValues (lib : Library) (pvalues : Code) :
    (lib.combinePValues pvalues).testBounds = pvalues.testBounds := by
  simp [Library.combinePValues, Library.function, Code.nat, testBounds, testBoundsOfAll,
    trialsOfCall]

end Verdicts

theorem Loop.testBounds_sourceOf (mode : RangeMode) (c : Code) :
    (Loop.sourceOf mode c).testBounds = c.testBounds := by
  cases mode <;>
    simp [Loop.sourceOf, Code.range, len, apply, testBounds, testBoundsOfAll, trialsOfCall]

/-- Only the elements of a range of numbers are a range with a name for its bound. -/
theorem Loop.eq_range_of_sourceOf {mode : RangeMode} {c : Code} {n : String}
    (h : Loop.sourceOf mode c = .range (.name n)) : c = .range (.name n) := by
  cases mode with
  | elements => exact h
  | uniqueElements | indices => simp [Loop.sourceOf, Code.range, len, apply] at h

namespace Range.Opens

variable {ctx inner : Context} {ranges : List Range} {loops : List Loop} {n : String}

/-- The ranges make no other names visible than their own. -/
theorem isVisible_of_inner (h : Range.Opens ctx ranges loops inner)
    (hn : n ∉ Range.bindersOfAll ranges) (hinner : inner.isVisible n = true) :
    ctx.isVisible n = true := by
  induction h with
  | nil => exact hinner
  | cons _ _ ih =>
      simp only [Range.bindersOfAll_cons, List.mem_append, List.mem_cons, not_or] at hn
      have hdeclare := ih hn.2.2 hinner
      exact ((Context.isVisible_declare_iff _ _ _).1 hdeclare).resolve_left hn.1

/-- A loop for a range has a visible name for its bound, if it has a name. -/
theorem isVisible_of_mem_source (h : Range.Opens ctx ranges loops inner)
    (hn : n ∉ Range.bindersOfAll ranges) {loop : Loop} (hloop : loop ∈ loops)
    (hbound : .name n ∈ loop.source.rangeBound ++ loop.source.testBounds) :
    ctx.isVisible n = true := by
  induction h with
  | nil => cases hloop
  | cons hcollection _ ih =>
      simp only [Range.bindersOfAll_cons, List.mem_append, List.mem_cons, not_or] at hn
      rcases List.mem_cons.1 hloop with rfl | hloop
      · rw [Loop.testBounds_sourceOf, Term.testBounds_lower hcollection, List.append_nil,
          mem_rangeBound_iff] at hbound
        rw [Loop.eq_range_of_sourceOf hbound] at hcollection
        exact Term.isVisible_of_lower_eq_range hcollection
      · have hdeclare := ih hn.2.2 hloop
        exact ((Context.isVisible_declare_iff _ _ _).1 hdeclare).resolve_left hn.1

theorem testBounds_count (h : Range.Opens ctx ranges loops inner) {loop : Loop}
    (hloop : loop ∈ loops) : loop.count.testBounds = [] := by
  induction h with
  | nil => cases hloop
  | @cons _ _ _ _ _ mode _ _ _ hcollection _ ih =>
      rcases List.mem_cons.1 hloop with rfl | hloop
      · cases mode <;> simp [Loop.count, len, apply, testBounds, testBoundsOfAll, trialsOfCall,
          Term.testBounds_lower hcollection]
      · exact ih hloop

end Range.Opens

/-- The number of runs of nested loops is an expression without tests, but no name. -/
theorem Loop.countAll_cases (loops : List Loop) (h : ∀ loop ∈ loops, loop.count.testBounds = []) :
    (Loop.countAll loops).testBounds = [] ∧ ∀ n, Loop.countAll loops ≠ .name n := by
  induction loops using List.reverseRecOn with
  | nil => exact ⟨rfl, nofun⟩
  | append_singleton loops loop ih =>
      rw [List.forall_mem_append, List.forall_mem_singleton] at h
      rw [Loop.countAll_concat, testBounds, (ih h.1).1, h.2]
      exact ⟨rfl, nofun⟩

/-- What the bounds in the body of nested loops are, those in the loops are as well. -/
theorem Range.Opens.or_isVisible_of_mem_nest {ctx inner : Context} {ranges : List Range}
    {loops : List Loop} {n : String} {condition : Option String} {stmts : List Stmt} {k : Nat}
    {P : Prop} (h : Range.Opens (ctx.withTemps k).push ranges loops inner)
    (hbinders : n ∉ Range.bindersOfAll ranges)
    (hbody : .name n ∈ trialBoundsOfAll stmts → P ∨ inner.isVisible n = true)
    (hn : .name n ∈ trialBoundsOfAll (Loop.nest condition loops stmts)) :
    P ∨ ctx.isVisible n = true := by
  have hctx : (ctx.withTemps k).push.isVisible n = ctx.isVisible n := Context.isVisible_push _ n
  rw [← hctx]
  rcases Loop.mem_trialBounds_nest.1 hn with ⟨loop, hloop, hbound⟩ | hn
  · exact .inr (h.isVisible_of_mem_source hbinders hloop hbound)
  · exact (hbody hn).imp_right (h.isVisible_of_inner hbinders)

/-- A name that bounds trials in the statements of a clause is the number of some trials
that the clause counts, or visible around the clause. -/
theorem Clause.Emits.trials_of_mem_trialBounds {target : Target} {ctx : Context} {c : Clause}
    {mode : Mode} {stmts : List Stmt} {v : Verdict} {k : Nat} {n : String}
    (h : c.Emits target ctx mode stmts v k) (hbinders : n ∉ c.binders)
    (hn : .name n ∈ trialBoundsOfAll stmts ++ v.code.testBounds) :
    (∃ T ∈ c.trials, n = Lower.trialCount T) ∨ ctx.isVisible n = true := by
  induction h with
  | forAll _ hranges _ ih =>
      simp only [Clause.binders_forAll, List.mem_append, not_or] at hbinders
      simp only [trialBoundsOfAll, trialBounds_set, yes, testBounds, List.nil_append,
        Verdict.testBounds_ofCondition, List.append_nil] at hn
      refine hranges.or_isVisible_of_mem_nest hbinders.1 (fun hn => ih hbinders.2 ?_) hn
      simpa [trialBoundsOfAll, testBounds] using hn
  | forAllTests _ hranges _ ih =>
      simp only [Clause.binders_forAll, List.mem_append, not_or] at hbinders
      simp only [trialBoundsOfAll, trialBoundsOfAll_append, trialBounds_set,
        Library.testBounds_combinePValues, testBounds, testBoundsOfAll, List.nil_append,
        Target.testBounds_ofPValue, List.append_nil] at hn
      refine hranges.or_isVisible_of_mem_nest hbinders.1 (fun hn => ih hbinders.2 ?_) hn
      simpa [trialBoundsOfAll, trialBounds, testBounds] using hn
  | letIn hvalue _ ih =>
      simp only [Clause.binders_letIn, List.mem_cons, List.mem_append, not_or] at hbinders
      simp only [trialBoundsOfAll, trialBounds_set, Term.testBounds_lower hvalue,
        List.nil_append] at hn
      refine (ih hbinders.2.2 hn).imp_right fun hvisible => ?_
      rw [Context.isVisible_declare_iff, Context.isVisible_push] at hvisible
      exact hvisible.resolve_left hbinders.1
  | @membershipList _ _ _ _ _ _ _ itemTy _ hitem _ hcollection
  | @membershipMap _ _ _ _ _ _ _ itemTy _ _ hitem _ hcollection =>
      cases hseq : itemTy.isSequence <;>
        simp [hseq, trialBoundsOfAll, group, getOrZero, apply, testBounds, testBoundsOfAll,
          trialsOfCall, Term.testBounds_lower hitem, Term.testBounds_lower hcollection] at hn
  | approx _ hrhs =>
      simp [trialBoundsOfAll, Library.wilcoxonPValue, Library.function, testBounds,
        testBoundsOfAll, trialsOfCall, Term.testBounds_lower hrhs] at hn
  | probability _ _ hrhs ih =>
      simp only [Clause.binders_compare, Term.binders_probability, List.mem_append,
        not_or] at hbinders
      simp only [trialBoundsOfAll, trialBounds, trialBoundsOfAll_append, trialBounds_set,
        Target.testBounds_ofPValue, Library.testBounds_binomialTest, Code.nat, testBounds_range,
        rangeBound_range, indicator, testBounds, Term.testBounds_lower hrhs, List.nil_append,
        List.append_nil, List.mem_append, List.mem_singleton, Code.name.injEq] at hn
      -- The bound is that of the loop, one in the body of the statistic, or that of the test.
      rcases hn with (heq | hn) | heq
      · exact .inl ⟨_, List.mem_cons_self, heq⟩
      · refine (ih hbinders.1 (List.mem_append.2 hn)).imp_left ?_
        rintro ⟨T, hT, heq⟩
        exact ⟨T, List.mem_cons_of_mem _ hT, heq⟩
      · exact .inl ⟨_, List.mem_cons_self, heq⟩
  | probabilityOverItems _ hranges _ hrhs ih =>
      simp only [Clause.binders_compare, Term.binders_probabilityOverItems, List.mem_append,
        not_or] at hbinders
      obtain ⟨hcount, hname⟩ := Loop.countAll_cases _ fun loop => hranges.testBounds_count
      simp only [trialBoundsOfAll, trialBounds_set, Target.testBounds_ofPValue,
        Library.testBounds_binomialTest, Code.nat, testBounds, hcount, Term.testBounds_lower hrhs,
        List.nil_append, List.append_nil, List.mem_append, List.mem_singleton] at hn
      -- The number of items is a product, so it is no name.
      have hn := hn.resolve_right fun heq => hname _ heq.symm
      refine hranges.or_isVisible_of_mem_nest hbinders.1.1 (fun hn => ih hbinders.1.2 ?_) hn
      simpa [trialBoundsOfAll, trialBounds, indicator, testBounds] using hn
  | expectation _ hrhs hverdict =>
      simp [trialBoundsOfAll, Library.testBounds_tTest, testBounds, Term.testBounds_lower hrhs,
        Target.testBounds_tTestVerdict hverdict] at hn
  | expectationOverItems hranges hbody hrhs hverdict =>
      simp only [Clause.binders_compare, Term.binders_expectationOverItems, List.mem_append,
        not_or] at hbinders
      simp only [trialBoundsOfAll, trialBoundsOfAll_append, trialBounds_set,
        Library.testBounds_tTest, testBounds, testBoundsOfAll, Term.testBounds_lower hrhs,
        Target.testBounds_tTestVerdict hverdict, List.nil_append, List.append_nil] at hn
      refine hranges.or_isVisible_of_mem_nest hbinders.1.1 (fun hn => ?_) hn
      simp [trialBoundsOfAll, trialBounds, testBounds, Term.testBounds_lower hbody] at hn
  | compare _ hlhs hrhs =>
      simp [trialBoundsOfAll, group, testBounds, Term.testBounds_lower hlhs,
        Term.testBounds_lower hrhs] at hn
  | logic _ _ ih₁ ih₂ =>
      simp only [Clause.binders_logic, trialBoundsOfAll_append, Verdict.testBounds_ofLogic,
        List.mem_append, not_or] at hbinders hn
      rcases or_or_or_comm.1 hn with hn | hn
      · refine (ih₁ hbinders.1 (List.mem_append.2 hn)).imp_left ?_
        rintro ⟨T, hT, heq⟩
        exact ⟨T, List.mem_append_left _ hT, heq⟩
      · refine (ih₂ hbinders.2 (List.mem_append.2 hn)).imp_left ?_
        rintro ⟨T, hT, heq⟩
        exact ⟨T, List.mem_append_right _ hT, heq⟩
  | not _ ih =>
      rw [Verdict.testBounds_ofNot] at hn
      exact ih hbinders hn

/-- The number of all trials that a clause counts bounds trials in its statements. -/
theorem Clause.Emits.mem_trialBounds_of_trials {target : Target} {ctx : Context} {c : Clause}
    {mode : Mode} {stmts : List Stmt} {v : Verdict} {k : Nat} {T : Trials}
    (h : c.Emits target ctx mode stmts v k) (hT : T ∈ c.trials) :
    .name (Lower.trialCount T) ∈ trialBoundsOfAll stmts := by
  induction h with
  | forAll _ _ _ ih | forAllTests _ _ _ ih =>
      simp [trialBoundsOfAll, trialBounds, Loop.mem_trialBounds_nest, ih hT]
  | letIn _ _ ih => simp [trialBoundsOfAll, ih hT]
  | membershipList | membershipMap | approx | expectation | expectationOverItems => cases hT
  | probability _ _ _ ih =>
      rcases List.mem_cons.1 hT with rfl | hT
      · simp [trialBoundsOfAll, trialBounds]
      · simp [trialBoundsOfAll, trialBounds, ih hT]
  | probabilityOverItems _ _ _ _ ih =>
      simp [trialBoundsOfAll, trialBounds, Loop.mem_trialBounds_nest, ih hT]
  | compare hplain =>
      rw [Clause.trials_compare hplain] at hT
      cases hT
  | logic _ _ ih₁ ih₂ =>
      rw [trialBoundsOfAll_append]
      rcases List.mem_append.1 hT with hT | hT
      · exact List.mem_append_left _ (ih₁ hT)
      · exact List.mem_append_right _ (ih₂ hT)
  | not _ ih => exact ih hT

/-- What a checker does with the verdict of its clause: it puts an expression into a
variable, warns, and returns. -/
def Verdict.ending (v : Verdict) (k : Nat) : List Stmt :=
  let conclude (result : Code) : List Stmt :=
    [.ifTrue (.not result) [.print [.quoted "Checker detected a possible error"]], .ret result]
  if isPlainName v.code.text then conclude v.code
  else .set (tempName k) v.code :: conclude (.name (tempName k))

/-- The body of a checker is that of its clause, after the outputs are taken out of the
aggregate and before the verdict is returned. -/
theorem Clause.exists_body_of_checker {target : Target} {d : Domain} {signature : Signature}
    {clause : Clause} {f : FunctionDef} (h : clause.checker target d signature = .ok f) :
    f.name = signature.name ∧ f.params = signature.params ∧ ∃ stmts v k,
      clause.Emits target (Context.start d.scopeNames) .boolean stmts v k ∧
      f.body = .set outputName (.entry (.name outputName) "acc") :: (stmts ++ v.ending k) := by
  unfold Clause.checker at h
  split at h
  · cases h
  · next ctx' hrun =>
      cases h
      refine ⟨rfl, rfl, ?_⟩
      have hexec : (clause.lowerBody target).exec (Context.start d.scopeNames) = (.ok (), ctx') :=
        hrun
      unfold Clause.lowerBody at hexec
      rw [Lower.exec_bind_of_ok (Lower.exec_emit _ _), Lower.exec_bind_eq_ok_iff] at hexec
      obtain ⟨v, _, hlower, hexec⟩ := hexec
      obtain ⟨stmts, k, hemits, rfl⟩ := (Clause.exec_lower_eq_ok_iff _ _ _ _ _ _).1 hlower
      refine ⟨stmts, v, k, hemits, ?_⟩
      unfold Verdict.ending
      split at hexec
      · next hplain =>
          simp only [Lower.exec_bind, Lower.exec_pure, Lower.exec_emit, Prod.mk.injEq,
            true_and] at hexec
          subst hexec
          simp [hplain, Context.statements, Context.extend, Context.emit, Context.start]
      · next hplain =>
          simp only [Lower.exec_bind, Lower.exec_pure, Lower.exec_fresh, Lower.exec_emit,
            Prod.mk.injEq, true_and] at hexec
          subst hexec
          simp [hplain, Context.statements, Context.extend, Context.emit, Context.start,
            Context.withTemps]

/-- The checker of a clause uses the bounds in the statements and in the verdict of the
clause, and no others. -/
theorem Clause.exists_emits_of_checker {target : Target} {d : Domain} {signature : Signature}
    {clause : Clause} {f : FunctionDef} (h : clause.checker target d signature = .ok f) :
    f.name = signature.name ∧ f.params = signature.params ∧ ∃ stmts v k,
      clause.Emits target (Context.start d.scopeNames) .boolean stmts v k ∧
      ∀ c, c ∈ trialBoundsOfAll f.body ↔ c ∈ trialBoundsOfAll stmts ++ v.code.testBounds := by
  obtain ⟨hname, hparams, stmts, v, k, hemits, hbody⟩ := exists_body_of_checker h
  refine ⟨hname, hparams, stmts, v, k, hemits, fun c => ?_⟩
  rw [hbody, Verdict.ending]
  split <;>
    simp [trialBoundsOfAll, trialBounds, entry, print, apply, testBounds, testBoundsOfAll,
      trialsOfCall]

namespace Domain

variable {d : Domain} {signature : Signature}

/-- The number of trials of the domain itself is a parameter of its checker. -/
theorem trialCount_mem_params (h : d.signature? = some signature) {T : Trials}
    (hT : d = T.domain) : Lower.trialCount T ∈ signature.params := by
  subst hT
  cases T <;> cases h <;> decide

/-- The number of trials is visible in the body of a checker only as a parameter. -/
theorem trialCount_mem_params_of_isVisible (h : d.signature? = some signature) {T : Trials}
    (hT : (Context.start d.scopeNames).isVisible (Lower.trialCount T) = true) :
    Lower.trialCount T ∈ signature.params := by
  cases d <;> cases h <;> cases T <;> revert hT <;> decide

end Domain

namespace Specification

/-- The first function of a module is the checker of the accuracy clause. -/
theorem exists_checker_of_generate {spec : Specification} {options : CheckerOptions}
    {m : CheckerModule} {clause : Clause} (h : spec.generate options = .ok m)
    (hclause : spec.accuracy = some clause) :
    ∃ target signature f rest, clause.domain.signature? = some signature ∧
      clause.checker target clause.domain signature = .ok f ∧ m.functions = f :: rest := by
  have hdomain : spec.domain = clause.domain := by rw [domain, hclause]
  obtain ⟨herror, target, checkers, last, hcheckers, -, hfunctions⟩ := exists_of_generate h
  have hsignature : ∃ signature, clause.domain.signature? = some signature := by
    unfold domainError? at herror
    rw [hdomain] at herror
    have hcosts := clause.domain_ne_performanceOnly
    cases hd : clause.domain <;> simp_all [Domain.signature?]
  obtain ⟨signature, hsignature⟩ := hsignature
  rw [Specification.checkers, hdomain, hsignature, hclause] at hcheckers
  obtain ⟨f, hf, hcheckers⟩ := except_bind_eq_ok_iff.1 hcheckers
  cases hcheckers
  exact ⟨target, signature, f, _, hsignature, hf, hfunctions⟩

/-- The analysis fills the slots of the accuracy clause and changes nothing else in it. -/
theorem accuracy_analyze {spec spec' : Specification} {r : Except SpecError Domain}
    {clause : Clause} (h : spec.analyze = (spec', r)) (hclause : spec.accuracy = some clause) :
    ∃ clause', spec'.accuracy = some clause' ∧ clause'.eraseTypes = clause.eraseTypes := by
  have herase := eraseTypes_analyze spec
  rw [h] at herase
  have haccuracy := congrArg Specification.accuracy herase
  simp only [eraseTypes, hclause, Option.map_some] at haccuracy
  exact Option.map_eq_some_iff.1 haccuracy

/-- The number of trials of a kind that the clause does not rebind is a parameter of the
checker whenever the body of the checker uses it as a bound, if and only if this is so when
the clause counts such trials in the body of a statistic. Statistics that stand side by side
never lack a bound. -/
theorem trialBounds_are_params_iff {spec : Specification} {options : CheckerOptions}
    {m : CheckerModule} {clause : Clause} (h : spec.compile options = .ok m)
    (hclause : spec.accuracy = some clause) :
    ∃ f rest, m.functions = f :: rest ∧ m.domain.signature? = some ⟨f.name, f.params⟩ ∧
      ∀ T, Lower.trialCount T ∉ clause.binders →
        ((.name (Lower.trialCount T) ∈ trialBoundsOfAll f.body → Lower.trialCount T ∈ f.params) ↔
          (T ∈ clause.innerTrials → Lower.trialCount T ∈ f.params)) := by
  rcases hanalyze : spec.analyze with ⟨spec', e | d⟩
  · rw [(check_of_analyze_error hanalyze options).2] at h
    cases h
  · rw [compile_of_analyze_ok hanalyze] at h
    obtain ⟨clause', hclause', herase⟩ := accuracy_analyze hanalyze hclause
    obtain ⟨target, signature, f, rest, hsignature, hf, hfunctions⟩ :=
      exists_checker_of_generate h hclause'
    obtain ⟨hname, hparams, stmts, v, k, hemits, hbounds⟩ := Clause.exists_emits_of_checker hf
    have hm : m.domain = clause'.domain := by
      rw [domain_of_generate h, domain, hclause']
    refine ⟨f, rest, hfunctions, ?_, fun T hT => ?_⟩
    · rw [hm, hsignature, hname, hparams]
    · rw [← Clause.binders_eraseTypes, ← herase, Clause.binders_eraseTypes] at hT
      rw [← Clause.innerTrials_eraseTypes, ← herase, Clause.innerTrials_eraseTypes, hbounds,
        hparams]
      constructor
      · intro huses hinner
        apply huses
        have htrials := Clause.mem_trials_of_mem_innerTrials _ hinner
        exact List.mem_append_left _ (hemits.mem_trialBounds_of_trials htrials)
      · intro hinner huses
        rcases hemits.trials_of_mem_trialBounds hT huses with ⟨T', hT', heq⟩ | hvisible
        · obtain rfl : T = T' := by
            revert heq
            cases T <;> cases T' <;> decide
          -- The trials are in a statistic, make up the domain, or are in conflict with other ones.
          rcases Clause.mem_trials_cases hT' with hmem | hdomain | hconflict
          · exact hinner hmem
          · exact Domain.trialCount_mem_params hsignature hdomain
          · rw [hconflict] at hsignature
            cases hsignature
        · exact Domain.trialCount_mem_params_of_isVisible hsignature hvisible

/-- Most elements of the output are positive in half of the trials of a kind. -/
def shareOfShares (trials : Trials) : Specification where
  decls := [⟨"Output", .sequence .scalar, .dummy⟩, ⟨"Input", .scalar, .dummy⟩]
  accuracy := some (.compare .dummy
    (.probabilityOverItems {} [.mk .dummy "x" (.identifier {} "Output") .elements]
      (.compare .dummy
        (.probability {} trials (.compare .dummy (.identifier {} "x") .gt (.constant {} "0")))
        .ge (.constant {} "0.5")))
    .ge (.constant {} "0.9"))

/-- The checker for the elements of one run counts runs, but their number is none of its
parameters. -/
theorem trialBounds_are_params_iff_shareOfShares :
    ∃ m f rest, (shareOfShares .runs).compile {} = .ok m ∧ m.functions = f :: rest ∧
      f.params = ["Config", "Input", "Output"] ∧ .name "Runs" ∈ trialBoundsOfAll f.body := by
  have hanalyze : (shareOfShares .runs).analyze = (_, .ok .overItems) := rfl
  obtain ⟨m, hm⟩ : ∃ m, (shareOfShares .runs).compile {} = .ok m := by
    have hok : ((shareOfShares .runs).compile {}).isOk = true := by decide +kernel
    cases hm : (shareOfShares .runs).compile {} with
    | ok m => exact ⟨m, rfl⟩
    | error e =>
        rw [hm] at hok
        cases hok
  have hdomain : m.domain = .overItems := by
    rw [compile_of_analyze_ok hanalyze] at hm
    exact domain_of_generate hm
  obtain ⟨f, rest, hfunctions, hsignature, hiff⟩ := trialBounds_are_params_iff hm rfl
  have hparams : f.params = ["Config", "Input", "Output"] := by
    rw [hdomain] at hsignature
    exact (congrArg Signature.params (Option.some.inj hsignature)).symm
  refine ⟨m, f, rest, hm, hfunctions, hparams, ?_⟩
  by_cases hbound : .name "Runs" ∈ trialBoundsOfAll f.body
  · exact hbound
  · have hruns : "Runs" ∈ f.params :=
      (hiff .runs (by decide)).1 (fun h => absurd h hbound) (by decide)
    rw [hparams] at hruns
    exact absurd hruns (by decide)

end Specification

end StatContract
