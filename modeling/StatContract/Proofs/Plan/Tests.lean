import StatContract.Plan.Entry
import StatContract.Proofs.Checker.TrialBounds
import StatContract.Proofs.Code.Value

/-!
# Plans and binomial tests

A plan is read off the clause, the binomial tests come out of its lowering, and the two
walk through the clause separately. Lowering scatters a test: the successes are counted in
statements, the test itself stands in the verdict or, below a quantifier, in a statement
again. What keeps it together is the variable of its count.

The counts are numbered as lowering comes to the comparisons, and a count is finished when
the body of its statistic has been written. So a count inside the body of another one has
the greater number and is finished earlier; those that are inside no other one are the
`Count.outermost`. The result is `Plan.entries_describe_outer_tests`: the comparisons of
probabilities outside of statistics, the entries of the plan and the outermost counts go
together one by one, and each entry describes the test of its comparison.
-/

namespace StatContract

/-- A call of a binomial test, by its arguments. -/
structure BinomialTest where
  count : Code
  trials : Code
  probability : Code
  alternative : Code

namespace Code

/-- The binomial test that a call is, if it is one. -/
def testOfCall : Code → List Code → List BinomialTest
  | attr _ function, [count, trials, probability, alternative] =>
    if function = "binomialTest" then [⟨count, trials, probability, alternative⟩] else []
  | _, _ => []

mutual

/-- The binomial tests in an expression. -/
def binomialTests : Code → List BinomialTest
  | verbatim _ | name _ | quoted _ => []
  | paren inner | not inner | attr inner _ | keyword _ inner => inner.binomialTests
  | binary lhs _ rhs | item lhs rhs => lhs.binomialTests ++ rhs.binomialTests
  | choice yes condition no =>
    yes.binomialTests ++ condition.binomialTests ++ no.binomialTests
  | call function args =>
    testOfCall function args ++ function.binomialTests ++ binomialTestsOfAll args
  | list items => binomialTestsOfAll items
  | dict entries => binomialTestsOfEntries entries
  | comprehension element _ source => element.binomialTests ++ source.binomialTests

def binomialTestsOfAll : List Code → List BinomialTest
  | [] => []
  | c :: cs => c.binomialTests ++ binomialTestsOfAll cs

def binomialTestsOfEntries : List (String × Code) → List BinomialTest
  | [] => []
  | (_, c) :: rest => c.binomialTests ++ binomialTestsOfEntries rest

end

theorem trialsOfCall_eq_map (function : Code) (args : List Code) :
    trialsOfCall function args = (testOfCall function args).map BinomialTest.trials := by
  fun_cases testOfCall function args with
  | case1 => rfl
  | case2 _ _ _ _ _ _ hfunction => exact if_neg hfunction
  | case3 _ _ hne =>
      unfold trialsOfCall
      split
      · next object f count trials p alternative =>
          exact absurd rfl (hne object f count trials p alternative rfl)
      · rfl

mutual

/-- The bounds of the tests in an expression are their numbers of trials. -/
theorem testBounds_eq_map : ∀ c : Code, c.testBounds = c.binomialTests.map BinomialTest.trials
  | verbatim _ | name _ | quoted _ => rfl
  | paren inner | not inner | attr inner _ | keyword _ inner => testBounds_eq_map inner
  | binary lhs _ rhs | item lhs rhs => by
      rw [testBounds, binomialTests, List.map_append, testBounds_eq_map lhs, testBounds_eq_map rhs]
  | choice yes condition no => by
      rw [testBounds, binomialTests, List.map_append, List.map_append, testBounds_eq_map yes,
        testBounds_eq_map condition, testBounds_eq_map no]
  | call function args => by
      rw [testBounds, binomialTests, List.map_append, List.map_append, trialsOfCall_eq_map,
        testBounds_eq_map function, testBoundsOfAll_eq_map args]
  | list items => testBoundsOfAll_eq_map items
  | dict entries => testBoundsOfEntries_eq_map entries
  | comprehension element _ source => by
      rw [testBounds, binomialTests, List.map_append, testBounds_eq_map element,
        testBounds_eq_map source]

theorem testBoundsOfAll_eq_map : ∀ cs : List Code,
    testBoundsOfAll cs = (binomialTestsOfAll cs).map BinomialTest.trials
  | [] => rfl
  | c :: cs => by
      rw [testBoundsOfAll, binomialTestsOfAll, List.map_append, testBounds_eq_map c,
        testBoundsOfAll_eq_map cs]

theorem testBoundsOfEntries_eq_map : ∀ entries : List (String × Code),
    testBoundsOfEntries entries = (binomialTestsOfEntries entries).map BinomialTest.trials
  | [] => rfl
  | (_, c) :: rest => by
      rw [testBoundsOfEntries, binomialTestsOfEntries, List.map_append, testBounds_eq_map c,
        testBoundsOfEntries_eq_map rest]

end

theorem binomialTests_eq_nil {c : Code} (h : c.testBounds = []) : c.binomialTests = [] := by
  rwa [testBounds_eq_map, List.map_eq_nil_iff] at h

end Code

namespace Stmt

mutual

/-- The binomial tests in a statement, at any depth. -/
def binomialTests : Stmt → List BinomialTest
  | assign target value | update target _ value | append target value =>
    target.binomialTests ++ value.binomialTests
  | eval value | breakUnless value | ret value => value.binomialTests
  | forIn _ source body => source.binomialTests ++ binomialTestsOfAll body
  | ifTrue condition body => condition.binomialTests ++ binomialTestsOfAll body
  | define _ _ body => binomialTestsOfAll body
  | attempt body _ handler => binomialTestsOfAll body ++ binomialTestsOfAll handler

/-- The binomial tests in a block. -/
def binomialTestsOfAll : List Stmt → List BinomialTest
  | [] => []
  | s :: rest => s.binomialTests ++ binomialTestsOfAll rest

end

@[simp] theorem binomialTestsOfAll_append (a b : List Stmt) :
    binomialTestsOfAll (a ++ b) = binomialTestsOfAll a ++ binomialTestsOfAll b := by
  induction a with
  | nil => rfl
  | cons s a ih =>
      rw [List.cons_append, binomialTestsOfAll, binomialTestsOfAll, ih, List.append_assoc]

@[simp] theorem binomialTests_set (var : String) (value : Code) :
    (set var value).binomialTests = value.binomialTests := by
  simp [set, binomialTests, Code.binomialTests]

end Stmt

/-- The number of a temporary, from its name. -/
def tempNumber? (name : String) : Option Nat :=
  match name.toList with
  | [] => none
  | first :: digits => if first = 't' then numeral? (String.ofList digits) else none

@[simp] theorem tempNumber?_tempName (n : Nat) : tempNumber? (tempName n) = some n := by
  have hdigits : (tempName n).toList = 't' :: (toString n).toList := by simp [tempName]
  rw [tempNumber?, hdigits]
  exact (if_pos rfl).trans (by rw [String.ofList_toList, numeral?_toString])

/-- A variable that is counted up: the number of the temporary, and the loops around the
statement that does it, outermost first. -/
structure Count where
  number : Nat
  loops : List (String × Code)

namespace Count

/-- The variable of a count. -/
def var (c : Count) : Code := .name (tempName c.number)

/-- A count inside further loops. -/
def within (outer : List (String × Code)) (c : Count) : Count :=
  { c with loops := outer ++ c.loops }

@[simp] theorem number_within (outer : List (String × Code)) (c : Count) :
    (c.within outer).number = c.number := rfl

/-- The counts that are inside no other one: no count with a smaller number is finished
later. -/
def outermost : List Count → List Count
  | [] => []
  | c :: rest =>
    if rest.any (·.number < c.number) then outermost rest else c :: outermost rest

/-- Further loops around all counts do not change which are outermost. -/
theorem outermost_map_within (outer : List (String × Code)) (counts : List Count) :
    outermost (counts.map (within outer)) = (outermost counts).map (within outer) := by
  induction counts with
  | nil => rfl
  | cons c counts ih =>
      have hany : (counts.map (within outer)).any (·.number < c.number) =
          counts.any (·.number < c.number) := by
        rw [List.any_map]
        rfl
      rw [List.map_cons, outermost, number_within, hany, ih, outermost]
      split <;> rfl

/-- Counts with greater numbers that come after some others leave these as they are. -/
theorem outermost_append {a b : List Count}
    (h : ∀ c ∈ a, ∀ c' ∈ b, c.number < c'.number) :
    outermost (a ++ b) = outermost a ++ outermost b := by
  induction a with
  | nil => rfl
  | cons c a ih =>
      obtain ⟨hc, ha⟩ := List.forall_mem_cons.1 h
      have hany : (a ++ b).any (·.number < c.number) = a.any (·.number < c.number) := by
        have hnone : b.any (·.number < c.number) = false := by
          rw [List.any_eq_false]
          intro c' hc'
          simpa using Nat.le_of_lt (hc c' hc')
        rw [List.any_append, hnone, Bool.or_false]
      rw [List.cons_append, outermost, hany, ih ha, outermost]
      split <;> rfl

/-- A count that is finished last and has the smallest number is around all others. -/
theorem outermost_append_singleton {a : List Count} {last : Count}
    (h : ∀ c ∈ a, last.number < c.number) : outermost (a ++ [last]) = [last] := by
  induction a with
  | nil => rfl
  | cons c a ih =>
      obtain ⟨hc, ha⟩ := List.forall_mem_cons.1 h
      rw [List.cons_append, outermost, if_pos (by simp [hc]), ih ha]

end Count

namespace Stmt

mutual

/-- The counts of a statement. -/
def counts : Stmt → List Count
  | update (.name var) _ _ => (tempNumber? var).toList.map fun n => ⟨n, []⟩
  | forIn var source body => (countsOfAll body).map (Count.within [(var, source)])
  | ifTrue _ body | define _ _ body => countsOfAll body
  | attempt body _ handler => countsOfAll body ++ countsOfAll handler
  | _ => []

/-- The counts of a block, in the order in which they are finished. -/
def countsOfAll : List Stmt → List Count
  | [] => []
  | s :: rest => s.counts ++ countsOfAll rest

end

@[simp] theorem countsOfAll_append (a b : List Stmt) :
    countsOfAll (a ++ b) = countsOfAll a ++ countsOfAll b := by
  induction a with
  | nil => rfl
  | cons s a ih => rw [List.cons_append, countsOfAll, countsOfAll, ih, List.append_assoc]

@[simp] theorem counts_set (var : String) (value : Code) : (set var value).counts = [] := rfl

@[simp] theorem counts_forIn (var : String) (source : Code) (body : List Stmt) :
    (forIn var source body).counts = (countsOfAll body).map (Count.within [(var, source)]) := by
  rw [counts]

@[simp] theorem counts_update (n : Nat) (op : ArithOp) (value : Code) :
    (update (.name (tempName n)) op value).counts = [⟨n, []⟩] := by
  simp [counts]

end Stmt

open Code Stmt

section Verdicts

@[simp] theorem Verdict.binomialTests_ofCondition (mode : Mode) (c : Code) :
    (Verdict.ofCondition mode c).code.binomialTests = c.binomialTests := by
  cases mode <;> simp [Verdict.ofCondition, Verdict.code, indicator, Code.binomialTests]

@[simp] theorem Target.binomialTests_ofPValue (target : Target) (mode : Mode) (c : Code) :
    (target.ofPValue mode c).code.binomialTests = c.binomialTests := by
  cases mode <;> simp [Target.ofPValue, Target.alphaCode, Verdict.code, group, Code.binomialTests]

@[simp] theorem Verdict.binomialTests_ofLogic (mode : Mode) (op : LogicOp) (a b : Verdict) :
    (Verdict.ofLogic mode op a b).code.binomialTests =
      a.code.binomialTests ++ b.code.binomialTests := by
  cases mode <;> cases op <;>
    simp [Verdict.ofLogic, Verdict.code, group, apply, Code.binomialTests,
      Code.binomialTestsOfAll, testOfCall]

@[simp] theorem Verdict.binomialTests_ofNot (mode : Mode) (v : Verdict) :
    (Verdict.ofNot mode v).code.binomialTests = v.code.binomialTests := by
  cases mode <;> simp [Verdict.ofNot, Verdict.code, group, Code.nat, Code.binomialTests]

theorem Library.binomialTests_binomialTest (lib : Library) (count trials p : Code)
    (alternative : String) :
    (lib.binomialTest count trials p alternative).binomialTests =
      ⟨count, trials, p, .keyword "alternative" (.quoted alternative)⟩ ::
        (count.binomialTests ++ trials.binomialTests ++ p.binomialTests) := by
  simp [Library.binomialTest, Library.function, Code.binomialTests, Code.binomialTestsOfAll,
    testOfCall]

@[simp] theorem Library.binomialTests_combinePValues (lib : Library) (name : String) :
    (lib.combinePValues (.name name)).binomialTests = [] :=
  binomialTests_eq_nil (lib.testBounds_combinePValues (.name name))

end Verdicts

/-- No term becomes a binomial test. -/
theorem Term.binomialTests_lower {ctx : Context} {t : Term} {c : Code} (h : t.lower ctx = .ok c) :
    c.binomialTests = [] :=
  binomialTests_eq_nil (Term.testBounds_lower h)

section Loops

/-- The variable of a loop and what it runs through. -/
def Loop.header (loop : Loop) : String × Code := (loop.var, loop.source)

variable {condition : Option String} {loops : List Loop} {inner : List Stmt}

theorem Loop.binomialTests_nest (h : ∀ loop ∈ loops, loop.source.binomialTests = []) :
    Stmt.binomialTestsOfAll (Loop.nest condition loops inner) =
      Stmt.binomialTestsOfAll inner := by
  induction loops with
  | nil => rfl
  | cons loop loops ih =>
      obtain ⟨hloop, hloops⟩ := List.forall_mem_cons.1 h
      have hbreak : Stmt.binomialTestsOfAll
          (condition.toList.map fun name => .breakUnless (.name name)) = [] := by
        cases condition <;> rfl
      simp [Loop.nest, Stmt.binomialTestsOfAll, Stmt.binomialTests, hloop, hbreak, ih hloops]

/-- Nested loops are around all counts of their body. -/
theorem Loop.counts_nest :
    countsOfAll (Loop.nest condition loops inner) =
      (countsOfAll inner).map (Count.within (loops.map header)) := by
  induction loops with
  | nil =>
      have hid : Count.within [] = id := rfl
      rw [Loop.nest, List.map_nil, hid, List.map_id]
  | cons loop loops ih =>
      have hbreak : countsOfAll
          (condition.toList.map fun name => .breakUnless (.name name)) = [] := by
        cases condition <;> rfl
      simp only [Loop.nest, countsOfAll, counts, countsOfAll_append, hbreak, ih, List.append_nil,
        List.map_map]
      rfl

/-- Trials have a count of their own, which is finished after those of their body. -/
theorem Loop.counts_trials (n : Nat) (start source hit : Code) (index : String) :
    countsOfAll [.set (tempName n) start,
        .forIn index source (inner ++ [.update (.name (tempName n)) .add hit])] =
      (countsOfAll inner).map (Count.within [(index, source)]) ++ [⟨n, [(index, source)]⟩] := by
  simp [countsOfAll, Count.within]

/-- Items have a count of their own, which is finished after those of their body. -/
theorem Loop.counts_items (n : Nat) (start hit : Code) :
    countsOfAll (.set (tempName n) start ::
        Loop.nest condition loops (inner ++ [.update (.name (tempName n)) .add hit])) =
      (countsOfAll inner).map (Count.within (loops.map header)) ++ [⟨n, loops.map header⟩] := by
  simp [countsOfAll, Loop.counts_nest, Count.within]

theorem Range.Opens.binomialTests_source {ctx ctx' : Context} {ranges : List Range}
    (h : Range.Opens ctx ranges loops ctx') :
    ∀ loop ∈ loops, loop.source.binomialTests = [] := by
  induction h with
  | nil => exact List.forall_mem_nil _
  | cons hcollection _ ih =>
      refine List.forall_mem_cons.2 ⟨binomialTests_eq_nil ?_, ih⟩
      rw [Loop.testBounds_sourceOf, Term.testBounds_lower hcollection]

end Loops

/-- The numbers of the counts of a clause are those of temporaries that it is handed. -/
theorem Clause.Emits.number_bounds {target : Target} {ctx : Context} {c : Clause} {mode : Mode}
    {stmts : List Stmt} {v : Verdict} {k : Nat} (h : c.Emits target ctx mode stmts v k) :
    ∀ count ∈ countsOfAll stmts, ctx.temps ≤ count.number ∧ count.number < k := by
  induction h with
  | forAll _ hranges _ ih | forAllTests _ hranges _ ih =>
      rw [hranges.temps_eq, Context.temps_withTemps] at ih
      simp only [countsOfAll, counts_set, counts, countsOfAll_append, Loop.counts_nest,
        List.nil_append, List.append_nil, List.forall_mem_map, Count.number_within]
      intro count hcount
      have := ih count hcount
      omega
  | letIn _ _ ih =>
      rw [Context.temps_declare, Context.temps_push] at ih
      exact ih
  | membershipList | membershipMap | approx | expectation | compare =>
      exact List.forall_mem_nil _
  | probability _ hbody _ ih =>
      have hle := hbody.temps_le
      simp only [Loop.counts_trials, List.forall_mem_append, List.forall_mem_map,
        List.forall_mem_singleton, Count.number_within]
      refine ⟨fun count hcount => ?_, Nat.le_refl _, Nat.lt_of_succ_lt hle⟩
      exact ⟨Nat.le_of_add_right_le (ih count hcount).1, (ih count hcount).2⟩
  | probabilityOverItems _ hranges hbody _ ih =>
      have hle := hbody.temps_le
      rw [hranges.temps_eq, Context.temps_withTemps] at ih hle
      simp only [Loop.counts_items, List.forall_mem_append, List.forall_mem_map,
        List.forall_mem_singleton, Count.number_within]
      refine ⟨fun count hcount => ?_, Nat.le_refl _, hle⟩
      exact ⟨Nat.le_of_succ_le (ih count hcount).1, (ih count hcount).2⟩
  | expectationOverItems =>
      simp [countsOfAll, counts, Loop.counts_nest]
  | logic hlhs hrhs ih₁ ih₂ =>
      rw [countsOfAll_append, List.forall_mem_append]
      have h₁ := hlhs.temps_le
      have h₂ := hrhs.temps_le
      rw [Context.temps_withTemps] at ih₂ h₂
      constructor
      · exact fun count hcount =>
          ⟨(ih₁ count hcount).1, Nat.lt_of_lt_of_le (ih₁ count hcount).2 h₂⟩
      · exact fun count hcount =>
          ⟨Nat.le_trans h₁ (ih₂ count hcount).1, (ih₂ count hcount).2⟩
  | not _ ih => exact ih

/-- The probability that an expression is the literal of, if it is one. -/
def Code.claimed? : Code → Option Float
  | verbatim text => Decimal.readFloat? (Text.trim text.toList)
  | _ => none

/-- The claimed probability can be read off the code of a term. -/
theorem Term.claimed?_lower {ctx : Context} {t : Term} {c : Code} (h : t.lower ctx = .ok c) :
    c.claimed? = Plan.claimed? t := by
  cases t with
  | constant =>
      cases h
      rfl
  | probability | probabilityOverItems | expectation | expectationOverItems => cases h
  | identifier _ name =>
      cases h
      cases hr : ctx.resolve name <;> rfl
  | lookup _ collection key =>
      rw [Term.lower] at h
      obtain ⟨c, -, h⟩ := except_bind_eq_ok_iff.1 h
      obtain ⟨k, -, h⟩ := except_bind_eq_ok_iff.1 h
      obtain ⟨ty, -, h⟩ := except_bind_eq_ok_iff.1 h
      cases ty <;> cases h <;> rfl
  | tuple | sizeOf | call =>
      rw [Term.lower] at h
      obtain ⟨c, -, h⟩ := except_bind_eq_ok_iff.1 h
      cases h
      rfl
  | binary =>
      obtain ⟨a, b, -, -, rfl | ⟨f, rfl⟩⟩ := Term.exists_of_lower_binary h <;> rfl

/-- A comparison of a probability. -/
structure TrialComparison where
  span : Span
  lhs : Term
  op : CmpOp
  rhs : Term

/-- The comparisons of probabilities that are in the body of no statistic, in the order of
the clause. -/
def Clause.trialComparisons : Clause → List TrialComparison
  | .forAll _ _ body | .letIn _ _ _ body => body.trialComparisons
  | .not _ inner => inner.trialComparisons
  | .logic _ lhs _ rhs => lhs.trialComparisons ++ rhs.trialComparisons
  | .compare span lhs op rhs =>
    match lhs with
    | .probability .. | .probabilityOverItems .. => [⟨span, lhs, op, rhs⟩]
    | _ => []
  | .membership .. | .approx .. => []

theorem Clause.trialComparisons_compare {lhs : Term} (h : lhs.isStatistic = false) (span : Span)
    (op : CmpOp) (rhs : Term) : (Clause.compare span lhs op rhs).trialComparisons = [] := by
  cases lhs with
  | probability | probabilityOverItems | expectation | expectationOverItems => cases h
  | constant | identifier | lookup | tuple | binary | sizeOf | call => rfl

namespace Plan

variable {options : Options}

/-- A source of trials is that of a probability. The number of trials that a test is given
is the number that the probability is about, and the innermost of the loops in which the
successes are counted are those of its trials: one loop over inputs or runs, or the loops
that are opened for its ranges. -/
inductive TrialSource.Matches : TrialSource → Term → Code → List (String × Code) → Prop where
  | inputs {note body index loops} (hloops : [(index, .range (.name "Inputs"))] <:+ loops) :
      Matches inputs (.probability note .inputs body) (.name "Inputs") loops
  | runs {note body index loops} (hloops : [(index, .range (.name "Runs"))] <:+ loops) :
      Matches runs (.probability note .runs body) (.name "Runs") loops
  | items {note ranges body ctx ctx' own loops} (hown : Range.Opens ctx ranges own ctx')
      (hloops : own.map Loop.header <:+ loops) :
      Matches items (.probabilityOverItems note ranges body) (Loop.countAll own) loops

theorem TrialSource.Matches.within {source : TrialSource} {lhs : Term} {trials : Code}
    {loops : List (String × Code)} (h : source.Matches lhs trials loops)
    (outer : List (String × Code)) : source.Matches lhs trials (outer ++ loops) := by
  have hsuffix := List.suffix_append outer loops
  cases h with
  | inputs hloops => exact .inputs (hloops.trans hsuffix)
  | runs hloops => exact .runs (hloops.trans hsuffix)
  | items hown hloops => exact .items hown (hloops.trans hsuffix)

/-- An entry says about the test of a comparison what the test is. -/
structure Entry.Describes (entry : Entry) (comparison : TrialComparison) (test : BinomialTest)
    (loops : List (String × Code)) : Prop where
  clause : entry.clause =
    (Clause.compare comparison.span comparison.lhs comparison.op comparison.rhs).text
  source : entry.source.Matches comparison.lhs test.trials loops
  alternative : ∃ a, comparison.op.alternative? = some a ∧ entry.alternative = some a ∧
    test.alternative = .keyword "alternative" (.quoted a.text)
  tails : entry.tails = if entry.alternative = some .twoSided then 2 else 1
  /-- The right side of the comparison is what is tested. -/
  probability : ∃ ctx, comparison.rhs.lower ctx = .ok test.probability
  claimed : entry.p0 = test.probability.claimed?

/-- What an entry consists of. -/
theorem entryOf_cases (options : Options) (clause : Clause) (source : TrialSource) (op : CmpOp)
    (rhs : Term) : ∃ p0 samples reason,
      entryOf options clause source op rhs =
        ⟨clause.text, source, op.alternative?, if op = .eq then 2 else 1, p0, samples, reason⟩ ∧
      (∀ a, op.alternative? = some a → p0 = claimed? rhs) ∧
      (samples.isSome ↔ reason.isNone) ∧
      (samples.isSome → p0.isSome ∧ op.alternative?.isSome) := by
  unfold entryOf
  cases op.alternative? with
  | none => exact ⟨_, _, _, rfl, by simp⟩
  | some a =>
      cases claimed? rhs with
      | none => exact ⟨_, _, _, rfl, by simp⟩
      | some p0 =>
          dsimp only
          split <;> exact ⟨_, _, _, rfl, by simp⟩

theorem entryOf_describes {op : CmpOp} {a : Alternative} {lhs rhs : Term} {ctx : Context}
    {p : Code} {source : TrialSource} {trials : Code} {loops : List (String × Code)}
    (ha : op.alternative? = some a) (hrhs : rhs.lower ctx = .ok p)
    (hsource : source.Matches lhs trials loops) (span : Span) (count : Code) :
    (entryOf options (.compare span lhs op rhs) source op rhs).Describes ⟨span, lhs, op, rhs⟩
      ⟨count, trials, p, .keyword "alternative" (.quoted a.text)⟩ loops := by
  obtain ⟨p0, samples, reason, hentry, hp0, -⟩ :=
    entryOf_cases options (.compare span lhs op rhs) source op rhs
  rw [hentry]
  refine ⟨rfl, hsource, ⟨a, ha, ha, rfl⟩, ?_, ⟨ctx, hrhs⟩,
    (hp0 a ha).trans (Term.claimed?_lower hrhs).symm⟩
  cases op <;> rfl

/-- Comparisons, entries and counts that go together one by one: each count has a test, and
the entry describes it as the test of the comparison. -/
inductive Described (tests : List BinomialTest) :
    List TrialComparison → List Entry → List Count → Prop where
  | nil : Described tests [] [] []
  | cons {comparison comparisons entry entries c counts test} (hmem : test ∈ tests)
      (hcount : test.count = c.var) (hentry : entry.Describes comparison test c.loops)
      (hrest : Described tests comparisons entries counts) :
      Described tests (comparison :: comparisons) (entry :: entries) (c :: counts)

namespace Described

variable {comparisons comparisons' : List TrialComparison} {entries entries' : List Entry}
  {tests tests' : List BinomialTest} {counts counts' : List Count}

theorem mono (h : Described tests comparisons entries counts) (hsub : tests ⊆ tests') :
    Described tests' comparisons entries counts := by
  induction h with
  | nil => exact .nil
  | cons hmem hcount hentry _ ih => exact .cons (hsub hmem) hcount hentry ih

theorem append (h : Described tests comparisons entries counts)
    (h' : Described tests comparisons' entries' counts') :
    Described tests (comparisons ++ comparisons') (entries ++ entries') (counts ++ counts') := by
  induction h with
  | nil => exact h'
  | cons hmem hcount hentry _ ih => exact .cons hmem hcount hentry ih

theorem within (h : Described tests comparisons entries counts) (outer : List (String × Code)) :
    Described tests comparisons entries (counts.map (Count.within outer)) := by
  induction h with
  | nil => exact .nil
  | cons hmem hcount hentry _ ih =>
      exact .cons hmem hcount { hentry with source := hentry.source.within outer } ih

end Described

/-- The entries of a plan describe the tests of the outermost counts, which are those of the
comparisons. -/
structure Mirrors (comparisons : List TrialComparison) (entries : List Entry)
    (tests : List BinomialTest) (counts : List Count) : Prop where
  /-- Every count is tested once, and nothing else is. -/
  tested : (tests.map BinomialTest.count).Perm (counts.map Count.var)
  distinct : (counts.map Count.number).Nodup
  /-- A count that is not outermost is inside the loops of one that is. -/
  enclosed : ∀ c ∈ counts, ∃ outer ∈ Count.outermost counts,
    outer.number ≤ c.number ∧ outer.loops <+: c.loops
  described : Described tests comparisons entries (Count.outermost counts)

namespace Mirrors

variable {comparisons comparisons' : List TrialComparison} {entries entries' : List Entry}
  {tests tests' : List BinomialTest} {counts counts' : List Count}

theorem of_nil (htests : tests = []) (hcounts : counts = []) : Mirrors [] [] tests counts := by
  subst htests hcounts
  exact ⟨.nil, .nil, List.forall_mem_nil _, .nil⟩

theorem of_perm (h : Mirrors comparisons entries tests counts) (hperm : tests'.Perm tests) :
    Mirrors comparisons entries tests' counts where
  tested := (hperm.map _).trans h.tested
  distinct := h.distinct
  enclosed := h.enclosed
  described := h.described.mono hperm.symm.subset

theorem within (h : Mirrors comparisons entries tests counts) (outer : List (String × Code)) :
    Mirrors comparisons entries tests (counts.map (Count.within outer)) where
  tested := by
    rw [List.map_map]
    exact h.tested
  distinct := by
    rw [List.map_map]
    exact h.distinct
  enclosed := by
    rw [Count.outermost_map_within, List.forall_mem_map]
    intro c hc
    obtain ⟨c', hc', hle, hloops⟩ := h.enclosed c hc
    exact ⟨_, List.mem_map_of_mem hc', hle, (List.prefix_append_right_inj outer).2 hloops⟩
  described := by
    rw [Count.outermost_map_within]
    exact h.described.within outer

theorem append (h : Mirrors comparisons entries tests counts)
    (h' : Mirrors comparisons' entries' tests' counts')
    (hlt : ∀ c ∈ counts, ∀ c' ∈ counts', c.number < c'.number) :
    Mirrors (comparisons ++ comparisons') (entries ++ entries') (tests ++ tests')
      (counts ++ counts') where
  tested := by
    rw [List.map_append, List.map_append]
    exact h.tested.append h'.tested
  distinct := by
    rw [List.map_append, List.nodup_append]
    refine ⟨h.distinct, h'.distinct, ?_⟩
    rw [List.forall_mem_map]
    intro c hc
    rw [List.forall_mem_map]
    exact fun c' hc' => Nat.ne_of_lt (hlt c hc c' hc')
  enclosed := by
    rw [Count.outermost_append hlt, List.forall_mem_append]
    constructor
    · intro c hc
      obtain ⟨outer, houter, hle⟩ := h.enclosed c hc
      exact ⟨outer, List.mem_append_left _ houter, hle⟩
    · intro c hc
      obtain ⟨outer, houter, hle⟩ := h'.enclosed c hc
      exact ⟨outer, List.mem_append_right _ houter, hle⟩
  described := by
    rw [Count.outermost_append hlt]
    exact (h.described.mono (List.subset_append_left _ _)).append
      (h'.described.mono (List.subset_append_right _ _))

/-- A statistic around others is the only one that an entry is for. -/
theorem enclose (h : Mirrors comparisons entries tests counts) {comparison : TrialComparison}
    {entry : Entry} {test : BinomialTest} {n : Nat} {loops : List (String × Code)}
    (hlt : ∀ c ∈ counts, n < c.number) (hvar : test.count = .name (tempName n))
    (hdescribes : entry.Describes comparison test loops) :
    Mirrors [comparison] [entry] (tests ++ [test])
      (counts.map (Count.within loops) ++ [⟨n, loops⟩]) := by
  have hinner := h.within loops
  have hlt' : ∀ c ∈ counts.map (Count.within loops), n < c.number := by
    rw [List.forall_mem_map]
    exact hlt
  have houtermost : Count.outermost (counts.map (Count.within loops) ++ [⟨n, loops⟩]) =
      [⟨n, loops⟩] :=
    Count.outermost_append_singleton hlt'
  constructor
  · rw [List.map_append, List.map_append, List.map_singleton, List.map_singleton, hvar]
    exact hinner.tested.append_right _
  · rw [List.map_append, List.map_singleton, List.nodup_append]
    refine ⟨hinner.distinct, List.pairwise_singleton _ _, ?_⟩
    rw [List.forall_mem_map]
    intro c hc
    rw [List.forall_mem_singleton]
    exact Nat.ne_of_gt (hlt' c hc)
  · rw [houtermost, List.forall_mem_append, List.forall_mem_map, List.forall_mem_singleton]
    refine ⟨fun c hc => ?_, _, List.mem_singleton_self _, Nat.le_refl _, List.prefix_rfl⟩
    exact ⟨_, List.mem_singleton_self _, Nat.le_of_lt (hlt c hc), List.prefix_append _ _⟩
  · rw [houtermost]
    exact .cons (List.mem_append_right _ (List.mem_singleton_self _)) hvar hdescribes .nil

end Mirrors

theorem trialSource?_of_not_isStatistic {t : Term} (h : t.isStatistic = false) :
    trialSource? t = none := by
  cases t with
  | probability | probabilityOverItems | expectation | expectationOverItems => cases h
  | constant | identifier | lookup | tuple | binary | sizeOf | call => rfl

/-- One case for each rule: connectives put tests side by side, quantifiers put them
inside loops, and a probability encloses those of its body. -/
theorem mirrors_of_emits {target : Target} {ctx : Context} {c : Clause} {mode : Mode}
    {stmts : List Stmt} {v : Verdict} {k : Nat} (h : c.Emits target ctx mode stmts v k)
    (options : Options) :
    Mirrors c.trialComparisons (ofClause options c)
      (Stmt.binomialTestsOfAll stmts ++ v.code.binomialTests) (countsOfAll stmts) := by
  induction h with
  | forAll _ hranges _ ih =>
      have hnest := hranges.binomialTests_source
      simp only [ofClause, Clause.trialComparisons, Stmt.binomialTestsOfAll, binomialTests_set,
        binomialTestsOfAll_append, Loop.binomialTests_nest hnest,
        Verdict.binomialTests_ofCondition, yes, Code.binomialTests, countsOfAll, counts_set,
        Loop.counts_nest, countsOfAll_append, List.nil_append, List.append_nil]
      exact ih.within _
  | forAllTests _ hranges _ ih =>
      have hnest := hranges.binomialTests_source
      simp only [ofClause, Clause.trialComparisons, Stmt.binomialTestsOfAll, Stmt.binomialTests,
        binomialTests_set, binomialTestsOfAll_append, Loop.binomialTests_nest hnest,
        Target.binomialTests_ofPValue, Library.binomialTests_combinePValues, Code.binomialTests,
        Code.binomialTestsOfAll, countsOfAll, counts, counts_set, Loop.counts_nest,
        countsOfAll_append, List.nil_append, List.append_nil]
      exact ih.within _
  | letIn hvalue _ ih =>
      simp only [ofClause, Clause.trialComparisons, Stmt.binomialTestsOfAll, binomialTests_set,
        Term.binomialTests_lower hvalue, countsOfAll, counts_set, List.nil_append]
      exact ih
  | @membershipList _ _ _ _ _ _ _ itemTy _ hitem _ hcollection
  | @membershipMap _ _ _ _ _ _ _ itemTy _ _ hitem _ hcollection =>
      have hitem := Term.binomialTests_lower hitem
      have hcollection := Term.binomialTests_lower hcollection
      refine .of_nil ?_ rfl
      cases hseq : itemTy.isSequence <;>
        simp [Stmt.binomialTestsOfAll, group, getOrZero, apply, Code.binomialTests,
          Code.binomialTestsOfAll, testOfCall, hitem, hcollection]
  | approx _ hrhs =>
      refine .of_nil ?_ rfl
      simp [Stmt.binomialTestsOfAll, Library.wilcoxonPValue, Library.function, Code.binomialTests,
        Code.binomialTestsOfAll, testOfCall, Term.binomialTests_lower hrhs]
  | @probability ctx span note trials body op rhs mode a stmts hit p k ha hbody hrhs ih =>
      have hsource : ∃ source, trialSource? (.probability note trials body) = some source ∧
          source.Matches (.probability note trials body) (.name (Lower.trialCount trials))
            [(tempName (ctx.temps + 1), .range (.name (Lower.trialCount trials)))] := by
        cases trials with
        | inputs => exact ⟨_, rfl, .inputs List.suffix_rfl⟩
        | runs => exact ⟨_, rfl, .runs List.suffix_rfl⟩
      obtain ⟨source, hsource, hmatches⟩ := hsource
      simp only [ofClause, hsource, Clause.trialComparisons, Stmt.binomialTestsOfAll,
        Stmt.binomialTests, binomialTests_set, binomialTestsOfAll_append,
        Target.binomialTests_ofPValue,
        Library.binomialTests_binomialTest, Code.nat, Code.range, apply, Code.indicator,
        Code.binomialTests, Code.binomialTestsOfAll, testOfCall, Term.binomialTests_lower hrhs,
        List.nil_append, List.append_nil, Loop.counts_trials]
      -- The count got its number before the body was lowered.
      refine ih.enclose (fun c hc => ?_) rfl (entryOf_describes ha hrhs hmatches _ _)
      exact Nat.lt_of_succ_lt (hbody.number_bounds c hc).1
  | @probabilityOverItems ctx inner span note ranges body op rhs mode a loops stmts hit p k ha
      hranges hbody hrhs ih =>
      have hnest := hranges.binomialTests_source
      have hcount : (Loop.countAll loops).binomialTests = [] :=
        binomialTests_eq_nil (Loop.countAll_cases _ fun loop => hranges.testBounds_count).1
      have hmatches : TrialSource.items.Matches (.probabilityOverItems note ranges body)
          (Loop.countAll loops) (loops.map Loop.header) :=
        .items hranges List.suffix_rfl
      simp only [ofClause, trialSource?, Clause.trialComparisons, Stmt.binomialTestsOfAll,
        Stmt.binomialTests, binomialTests_set, binomialTestsOfAll_append,
        Loop.binomialTests_nest hnest,
        Target.binomialTests_ofPValue, Library.binomialTests_binomialTest, Code.nat,
        Code.indicator, Code.binomialTests, Term.binomialTests_lower hrhs, hcount,
        List.nil_append, List.append_nil, Loop.counts_items]
      refine ih.enclose (fun c hc => ?_) rfl (entryOf_describes ha hrhs hmatches _ _)
      have hbounds := (hbody.number_bounds c hc).1
      rw [hranges.temps_eq, Context.temps_withTemps] at hbounds
      exact hbounds
  | expectation _ hrhs hverdict =>
      refine .of_nil ?_ rfl
      simp [Stmt.binomialTestsOfAll, Library.tTest, Library.function, Code.binomialTests,
        Code.binomialTestsOfAll, testOfCall, Term.binomialTests_lower hrhs,
        binomialTests_eq_nil (Target.testBounds_tTestVerdict hverdict)]
  | expectationOverItems hranges hbody hrhs hverdict =>
      have hnest := hranges.binomialTests_source
      refine .of_nil ?_ (by simp [countsOfAll, counts, Loop.counts_nest])
      simp [Stmt.binomialTestsOfAll, Stmt.binomialTests, Loop.binomialTests_nest hnest,
        Library.tTest, Library.function, Code.binomialTests, Code.binomialTestsOfAll, testOfCall,
        Term.binomialTests_lower hrhs, Term.binomialTests_lower hbody,
        binomialTests_eq_nil (Target.testBounds_tTestVerdict hverdict)]
  | compare hplain hlhs hrhs =>
      rw [ofClause, trialSource?_of_not_isStatistic hplain,
        Clause.trialComparisons_compare hplain]
      refine .of_nil ?_ rfl
      simp [Stmt.binomialTestsOfAll, group, Code.binomialTests, Term.binomialTests_lower hlhs,
        Term.binomialTests_lower hrhs]
  | logic hlhs hrhs ih₁ ih₂ =>
      rw [ofClause, Clause.trialComparisons, Stmt.binomialTestsOfAll_append, countsOfAll_append,
        Verdict.binomialTests_ofLogic]
      refine (ih₁.append ih₂ fun c hc c' hc' => ?_).of_perm ?_
      · have := (hlhs.number_bounds c hc).2
        have := (hrhs.number_bounds c' hc').1
        rw [Context.temps_withTemps] at this
        omega
      -- The tests in the first verdict come after the statements of the second clause.
      · simp only [List.append_assoc]
        exact (List.perm_append_left_iff _).2 (List.perm_append_comm_assoc _ _ _)
  | not _ ih =>
      rw [ofClause, Clause.trialComparisons, Verdict.binomialTests_ofNot]
      exact ih

/-- Every entry is made for a comparison. -/
theorem exists_of_mem_ofClause {c : Clause} {entry : Entry} (h : entry ∈ ofClause options c) :
    ∃ clause source op rhs, entry = entryOf options clause source op rhs := by
  fun_induction ofClause options c with
  | case1 _ _ _ ih | case2 _ _ _ _ ih | case3 _ _ ih => exact ih h
  | case4 _ _ _ _ ih₁ ih₂ => exact (List.mem_append.1 h).elim ih₁ ih₂
  | case5 => exact ⟨_, _, _, _, List.mem_singleton.1 h⟩
  | case6 | case7 | case8 => cases h

/-- If the accuracy clause is lowered, its comparisons of probabilities outside of
statistics, the entries of the plan, and the outermost counts in the statements go together
one by one and in order, and the entry describes the test of the count as the test of the
comparison. In any case an entry has a number of samples or a reason why there is none, and
a number of samples only for a claimed probability and an alternative. -/
theorem entries_describe_outer_tests (options : Options) (spec : Specification) :
    (∀ (clause : Clause) (target : Target) (mode : Mode) (ctx ctx' : Context) (v : Verdict),
      spec.accuracy = some clause → (clause.lower target mode).exec ctx = (.ok v, ctx') →
      ∃ stmts, ctx'.block = ctx.block ++ stmts ∧
        Mirrors clause.trialComparisons (ofSpecification options spec)
          (Stmt.binomialTestsOfAll stmts ++ v.code.binomialTests) (countsOfAll stmts)) ∧
    ∀ entry ∈ ofSpecification options spec,
      (entry.samples.isSome ↔ entry.reason.isNone) ∧
      (entry.samples.isSome → entry.p0.isSome ∧ entry.alternative.isSome) := by
  unfold ofSpecification
  constructor
  · intro clause target mode ctx ctx' v hclause hrun
    obtain ⟨stmts, k, hemits, rfl⟩ := (Clause.exec_lower_eq_ok_iff ..).1 hrun
    rw [hclause]
    exact ⟨stmts, rfl, mirrors_of_emits hemits options⟩
  · intro entry hentry
    split at hentry
    · obtain ⟨clause, source, op, rhs, rfl⟩ := exists_of_mem_ofClause hentry
      obtain ⟨p0, samples, reason, heq, -, hone, hsamples⟩ :=
        entryOf_cases options clause source op rhs
      rw [heq]
      exact ⟨hone, hsamples⟩
    · cases hentry

/-- Most outputs have mostly positive elements, and each element is positive in half of the
trials. -/
def nestedShares : Clause :=
  .logic .dummy
    (.compare .dummy (.probability {} .inputs
      (.compare .dummy (.probabilityOverItems {} elements positive) .ge (.constant {} "0.5")))
      .ge (.constant {} "0.9"))
    .and
    (.forAll .dummy elements
      (.compare .dummy (.probability {} .inputs positive) .eq (.constant {} "0.5")))
where
  elements : List Range := [.mk .dummy "i" (.identifier {} "Output") .elements]
  positive : Clause := .compare .dummy (.identifier {} "i") .gt (.constant {} "0")

theorem exists_emits_nestedShares : ∃ stmts v k,
    nestedShares.Emits {} (Context.start ["Output"]) .boolean stmts v k ∧
      (countsOfAll stmts).map Count.number = [2, 0, 4] :=
  ⟨_, _, _, .logic
    (.probability rfl
      (.probabilityOverItems rfl (.cons rfl .nil) (.compare rfl rfl rfl) rfl) rfl)
    (.forAll (by decide) (.cons rfl .nil) (.probability rfl (.compare rfl rfl rfl) rfl)), rfl⟩

theorem entries_describe_outer_tests_nestedShares :
    ∃ v ctx' stmts,
      (nestedShares.lower {} .boolean).exec (Context.start ["Output"]) = (.ok v, ctx') ∧
      ctx'.block = stmts ∧ (countsOfAll stmts).map Count.number = [2, 0, 4] ∧
      ∃ a b, ofSpecification {} { decls := [], accuracy := some nestedShares } = [a, b] ∧
        Mirrors nestedShares.trialComparisons [a, b]
          (Stmt.binomialTestsOfAll stmts ++ v.code.binomialTests) (countsOfAll stmts) := by
  obtain ⟨stmts, v, k, hemits, hcounts⟩ := exists_emits_nestedShares
  have hrun := (Clause.exec_lower_eq_ok_iff {} nestedShares .boolean v
    (Context.start ["Output"]) _).2 ⟨stmts, k, hemits, rfl⟩
  obtain ⟨stmts', hstmts, hmirrors⟩ :=
    (entries_describe_outer_tests {} { decls := [], accuracy := some nestedShares }).1
      nestedShares {} .boolean _ _ v rfl hrun
  cases hstmts
  exact ⟨v, _, stmts, hrun, rfl, hcounts, _, _, rfl, hmirrors⟩

end Plan

end StatContract
