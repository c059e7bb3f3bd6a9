import StatContract.Decimal.Layout
import StatContract.Lowering.Term
import StatContract.Spec.Domain

/-!
# Lowering clauses

A clause becomes statements and a verdict, the expression that tells after
these statements whether the clause holds. In boolean mode the verdict is a
condition. In probability mode it is the p-value of the clause, which is what
a quantifier over several tests needs: it collects the p-values of its
instances and combines them into one.

A comparison with a probability on its left becomes a binomial test on the
number of successes, one with an expectation a t-test on the sample; any other
comparison is evaluated as it stands.
-/

namespace StatContract

/-- What a verdict says: whether the clause holds, or its p-value. -/
inductive Mode where
  | boolean | probability
  deriving DecidableEq, Repr

/-- The outcome of lowering a clause. -/
inductive Verdict where
  | boolean (code : Code)
  | probability (code : Code)

/-- The expression of a verdict. -/
def Verdict.code : Verdict → Code
  | boolean c | probability c => c

/-- What lowering is told from outside: the statistics library and the level
of significance. -/
structure Target where
  library : Library := {}
  alpha : Float := 0.05

namespace Target

/-- The level of significance in the code. -/
def alphaCode (target : Target) : Code := .verbatim (Layout.plain.write target.alpha)

/-- The verdict of a test, from its p-value. -/
def ofPValue (target : Target) (mode : Mode) (pvalue : Code) : Verdict :=
  match mode with
  | .boolean => .boolean (.group pvalue (.compare .ge) target.alphaCode)
  | .probability => .probability pvalue

end Target

/-- The verdict of a condition without a test. -/
def Verdict.ofCondition (mode : Mode) (condition : Code) : Verdict :=
  match mode with
  | .boolean => .boolean condition
  | .probability => .probability (.paren (.indicator condition))

/-- A loop that is open: its variable, what it runs through, and the collection
that comes from. -/
structure Loop where
  var : String
  source : Code
  collection : Code
  mode : RangeMode

namespace Loop

/-- What a loop over a collection runs through. -/
def sourceOf (mode : RangeMode) (collection : Code) : Code :=
  match mode with
  | .elements => collection
  | .uniqueElements => .apply "set" [collection]
  | .indices => .range (.len collection)

/-- How often a loop runs. -/
def count (loop : Loop) : Code :=
  match loop.mode with
  | .uniqueElements => .len (.apply "set" [loop.collection])
  | .elements | .indices => .len loop.collection

/-- How often the body of nested loops runs: the product of their counts. -/
def countAll (loops : List Loop) : Code :=
  loops.foldl (fun product loop => .binary product (.arith .mul) loop.count) (.verbatim "1")

end Loop

namespace Lower

/-- Opens a loop for every range, in order. -/
def openRanges : List Range → Lower (List Loop)
  | [] => return []
  | .mk _ var collection mode :: rest => do
    let c ← term collection
    declare var
    openBlock
    let loops ← openRanges rest
    return ⟨var, Loop.sourceOf mode c, c, mode⟩ :: loops

/-- Closes loops, innermost first. Each ends by leaving its loop unless the
condition holds, if there is one. -/
def closeRanges (loops : List Loop) (condition : Option String) : Lower Unit :=
  loops.reverse.forM fun loop => do
    if let some name := condition then emit (.breakUnless (.name name))
    let body ← closeBlock
    emit (.forIn loop.var loop.source body)

/-- The name of the number of trials. -/
def trialCount : Trials → String
  | .inputs => "Inputs"
  | .runs => "Runs"

/-- The alternative of a binomial test, when there is one for the
comparison. -/
def requireAlternative (clause : Clause) (op : CmpOp) : Lower Alternative :=
  match op.alternative? with
  | some alternative => return alternative
  | none => throw (.unsupportedTest op .binomial clause.text clause.span)

/-- Counts a success when the condition holds. -/
def countHit (count : String) (hit : Code) : Lower Unit :=
  emit (.update (.name count) .add (.indicator hit))

/-- Emits a t-test and gives the verdict for a comparison. -/
def tTest (target : Target) (clause : Clause) (samples expected : Code) (op : CmpOp)
    (mode : Mode) : Lower Verdict := do
  let result ← fresh
  emit (.set result (target.library.tTest samples expected))
  let statistic := Code.item (.name result) (.nat 0)
  let pvalue := Code.item (.name result) (.nat 1)
  let oneSided (side : CmpOp) : Verdict :=
    .boolean (.group
      (.binary (.binary pvalue (.arith .div) (.nat 2)) (.compare .ge) target.alphaCode)
      (.logic .or) (.binary statistic (.compare side) (.nat 0)))
  match mode, op with
  | .probability, .eq => return .probability pvalue
  | .probability, _ => throw (.unsupportedTest op .twoSidedTTest clause.text clause.span)
  | .boolean, .eq => return target.ofPValue .boolean pvalue
  | .boolean, .gt | .boolean, .ge => return oneSided .ge
  | .boolean, .lt | .boolean, .le => return oneSided .le
  | .boolean, .ne => throw (.unsupportedTest op .tTest clause.text clause.span)

end Lower

open Lower in
/-- Lowers a clause. -/
def Clause.lower (target : Target) : Clause → Mode → Lower Verdict
  | .forAll _ ranges body, mode => do
    let result ← fresh
    if body.domain = .overRuns then
      let pvalues ← fresh
      emit (.set pvalues (.list []))
      pushScope
      let loops ← openRanges ranges
      let p ← body.lower target .probability
      emit (.append (.name pvalues) p.code)
      closeRanges loops none
      popScope
      emit (.set result (target.library.combinePValues (.name pvalues)))
      return target.ofPValue mode (.name result)
    else
      emit (.set result .yes)
      pushScope
      let loops ← openRanges ranges
      let holds ← body.lower target .boolean
      emit (.set result (.binary (.name result) (.logic .and) holds.code))
      closeRanges loops (some result)
      popScope
      return .ofCondition mode (.name result)
  | .letIn _ name value body, mode => do
    let v ← term value
    emit (.set name v)
    withName name (body.lower target mode)
  | .membership _ item collection, mode => do
    let i ← term item
    let itemTy ← MonadExcept.ofExcept item.requireType
    -- Lists cannot be looked up as they are.
    let i := if itemTy.isSequence then .apply "tuple" [i] else i
    let c ← term collection
    match ← MonadExcept.ofExcept collection.requireType with
    | .sequence _ => return .ofCondition mode (.group i .within c)
    | .map _ _ => return .ofCondition mode (.getOrZero c i)
    | other => throw (.notSearchable collection.text other collection.span)
  | .approx _ lhs rhs, mode => do
    unless lhs.isIdentifier outputName do
      throw (.approxTarget lhs.text lhs.span)
    let expected ← term rhs
    let differences ← fresh
    let sample ← fresh
    emit (.set differences (.comprehension
      (.binary (.name sample) (.arith .sub) expected) sample (.name outputName)))
    return target.ofPValue mode (target.library.wilcoxonPValue (.name differences))
  | .compare span lhs op rhs, mode =>
    let clause := Clause.compare span lhs op rhs
    match lhs with
    | .probability _ trials body => do
      let alternative ← requireAlternative clause op
      let count ← fresh
      emit (.set count (.nat 0))
      let index ← fresh
      openBlock
      let hit ← withTrial index (body.lower target .boolean)
      countHit count hit.code
      let loopBody ← closeBlock
      emit (.forIn index (.range (.name (trialCount trials))) loopBody)
      let probability ← term rhs
      return target.ofPValue mode (target.library.binomialTest (.name count)
        (.name (trialCount trials)) probability alternative.text)
    | .probabilityOverItems _ ranges body => do
      let alternative ← requireAlternative clause op
      let count ← fresh
      emit (.set count (.nat 0))
      pushScope
      let loops ← openRanges ranges
      let hit ← body.lower target .boolean
      countHit count hit.code
      closeRanges loops none
      popScope
      let probability ← term rhs
      return target.ofPValue mode (target.library.binomialTest (.name count)
        (Loop.countAll loops) probability alternative.text)
    | .expectation _ _ body => do
      unless body.isIdentifier outputName do
        throw (.expectationTarget body.text body.span)
      let expected ← term rhs
      tTest target clause (.name outputName) expected op mode
    | .expectationOverItems _ ranges body => do
      let samples ← fresh
      emit (.set samples (.list []))
      pushScope
      let loops ← openRanges ranges
      let value ← term body
      emit (.append (.name samples) value)
      closeRanges loops none
      popScope
      let expected ← term rhs
      tTest target clause (.name samples) expected op mode
    | lhs => do
      let a ← term lhs
      let b ← term rhs
      return .ofCondition mode (.group a (.compare op) b)
  | .logic _ lhs op rhs, mode => do
    let a ← lhs.lower target mode
    let b ← rhs.lower target mode
    match mode, op with
    | .boolean, op => return .boolean (.group a.code (.logic op) b.code)
    | .probability, .and => return .probability (.apply "min" [a.code, b.code])
    | .probability, .or => return .probability (.apply "max" [a.code, b.code])
  | .not _ inner, mode => do
    let v ← inner.lower target mode
    match mode with
    | .boolean => return .boolean (.paren (.not v.code))
    | .probability => return .probability (.group (.nat 1) (.arith .sub) v.code)

end StatContract
