import StatContract.Proofs.Lowering.Run

/-!
# What lowering emits

A successful run of lowering adds statements at the end of the current block,
hands out temporaries, and gives a verdict. Everything else in the state is as
before. `Clause.Emits` says which statements these are and which verdict, by one
rule for each kind of clause, and without the state: a rule only looks at the
surroundings of the clause, which are the names in scope, the trial under
consideration and the number of temporaries handed out before.

The main result, `Clause.exec_lower_eq_ok_iff`, is that lowering succeeds exactly
with what the rules give. Properties of the generated code are proved by
induction on the rules.
-/

namespace StatContract

namespace Verdict

/-- The verdict of two clauses with a connective. -/
def ofLogic (mode : Mode) (op : LogicOp) (a b : Verdict) : Verdict :=
  match mode, op with
  | .boolean, op => .boolean (.group a.code (.logic op) b.code)
  | .probability, .and => .probability (.apply "min" [a.code, b.code])
  | .probability, .or => .probability (.apply "max" [a.code, b.code])

/-- The verdict of a negated clause. -/
def ofNot (mode : Mode) (v : Verdict) : Verdict :=
  match mode with
  | .boolean => .boolean (.paren (.not v.code))
  | .probability => .probability (.group (.nat 1) (.arith .sub) v.code)

end Verdict

theorem Clause.lower_logic (target : Target) (span : Span) (lhs rhs : Clause) (op : LogicOp)
    (mode : Mode) :
    (Clause.logic span lhs op rhs).lower target mode = (do
      let a ← lhs.lower target mode
      let b ← rhs.lower target mode
      return .ofLogic mode op a b) := by
  rw [Clause.lower]
  cases mode <;> cases op <;> rfl

theorem Clause.lower_not (target : Target) (span : Span) (inner : Clause) (mode : Mode) :
    (Clause.not span inner).lower target mode = (do
      let v ← inner.lower target mode
      return .ofNot mode v) := by
  rw [Clause.lower]
  cases mode <;> rfl

namespace Context

/-- The surroundings alone, without the statements written so far. -/
def bare (ctx : Context) : Context := { ctx with block := [], enclosing := [] }

/-- The surroundings with a trial under consideration. -/
def withTrial (ctx : Context) (index : String) : Context := { ctx with trial := some index }

/-- The state after a step that has written statements and handed out
temporaries. -/
def extend (ctx : Context) (k : Nat) (stmts : List Stmt) : Context :=
  { ctx with temps := k, block := ctx.block ++ stmts }

/-- Surroundings with the statements written in a state. -/
def withBlocksOf (inner ctx : Context) : Context :=
  { inner with block := ctx.block, enclosing := ctx.enclosing }

/-- Starts blocks inside each other. -/
def openBlocks (ctx : Context) : Nat → Context
  | 0 => ctx
  | n + 1 => ctx.openBlock.openBlocks n

@[simp] theorem temps_bare (ctx : Context) : ctx.bare.temps = ctx.temps := rfl

@[simp] theorem temps_withTemps (ctx : Context) (k : Nat) : (ctx.withTemps k).temps = k := rfl

@[simp] theorem temps_push (ctx : Context) : ctx.push.temps = ctx.temps := rfl

@[simp] theorem temps_declare (ctx : Context) (name : String) :
    (ctx.declare name).temps = ctx.temps := by
  cases h : ctx.scopes <;> simp [declare, h]

@[simp] theorem trial_declare (ctx : Context) (name : String) :
    (ctx.declare name).trial = ctx.trial := by
  cases h : ctx.scopes <;> simp [declare, h]

@[simp] theorem bare_emit (ctx : Context) (s : Stmt) : (ctx.emit s).bare = ctx.bare := rfl

@[simp] theorem bare_extend (ctx : Context) (k : Nat) (stmts : List Stmt) :
    (ctx.extend k stmts).bare = ctx.bare.withTemps k := rfl

@[simp] theorem bare_openBlock (ctx : Context) : ctx.openBlock.bare = ctx.bare := rfl

@[simp] theorem bare_openBlocks (ctx : Context) (n : Nat) :
    (ctx.openBlocks n).bare = ctx.bare := by
  induction n generalizing ctx with
  | zero => rfl
  | succ n ih => exact ih ctx.openBlock

@[simp] theorem bare_declare (ctx : Context) (name : String) :
    (ctx.declare name).bare = ctx.bare.declare name := by
  cases h : ctx.scopes <;> simp [declare, bare, h]

@[simp] theorem isVisible_push (ctx : Context) (name : String) :
    ctx.push.isVisible name = ctx.isVisible name := by
  simp [isVisible, push]

theorem isVisible_declare_iff (ctx : Context) (name other : String) :
    (ctx.declare name).isVisible other = true ↔ other = name ∨ ctx.isVisible other = true := by
  cases h : ctx.scopes <;> simp [isVisible, declare, h, or_assoc]

theorem emit_extend (ctx : Context) (k : Nat) (stmts : List Stmt) (s : Stmt) :
    (ctx.extend k stmts).emit s = ctx.extend k (stmts ++ [s]) := by
  simp [extend, emit]

theorem closeBlock_extend (ctx : Context) (k : Nat) (stmts : List Stmt) :
    (ctx.openBlock.extend k stmts).closeBlock = (stmts, ctx.withTemps k) := rfl

/-- Blocks do not depend on the surroundings they are started in. -/
theorem withBlocksOf_declare_openBlock (inner ctx : Context) (name : String) :
    inner.withBlocksOf (ctx.declare name).openBlock = (inner.withBlocksOf ctx).openBlock := by
  cases h : ctx.scopes <;> simp [declare, openBlock, withBlocksOf, h]

theorem bare_withBlocksOf_openBlocks (inner ctx : Context) (n : Nat) :
    ((inner.withBlocksOf ctx).openBlocks n).bare = inner.bare := by
  rw [bare_openBlocks]
  rfl

end Context

mutual

/-- The code of a term depends only on how its names are reached. -/
theorem Term.lower_congr {ctx ctx' : Context} (h : ∀ name, ctx.resolve name = ctx'.resolve name) :
    ∀ t : Term, t.lower ctx = t.lower ctx'
  | .constant .. | .probability .. | .probabilityOverItems .. | .expectation ..
  | .expectationOverItems .. => rfl
  | .lookup _ collection key => by
      rw [Term.lower, Term.lower, Term.lower_congr h collection, Term.lower_congr h key]
  | .identifier _ name => by rw [Term.lower, Term.lower, h]
  | .tuple _ elements => by rw [Term.lower, Term.lower, Term.lowerList_congr h elements]
  | .binary _ lhs _ rhs => by
      rw [Term.lower, Term.lower, Term.lower_congr h lhs, Term.lower_congr h rhs]
  | .sizeOf _ collection => by rw [Term.lower, Term.lower, Term.lower_congr h collection]
  | .call _ _ args => by rw [Term.lower, Term.lower, Term.lowerList_congr h args]

/-- The codes of several terms depend only on how their names are reached. -/
theorem Term.lowerList_congr {ctx ctx' : Context}
    (h : ∀ name, ctx.resolve name = ctx'.resolve name) :
    ∀ ts : List Term, Term.lowerList ctx ts = Term.lowerList ctx' ts
  | [] => rfl
  | t :: rest => by
      rw [Term.lowerList, Term.lowerList, Term.lower_congr h t, Term.lowerList_congr h rest]

end

@[simp] theorem Term.lower_bare (t : Term) (ctx : Context) : t.lower ctx.bare = t.lower ctx := by
  apply Term.lower_congr
  intro name
  rfl

@[simp] theorem Term.lower_extend (t : Term) (ctx : Context) (k : Nat) (stmts : List Stmt) :
    t.lower (ctx.extend k stmts) = t.lower ctx := by
  apply Term.lower_congr
  intro name
  rfl

@[simp] theorem Term.lower_emit (t : Term) (ctx : Context) (s : Stmt) :
    t.lower (ctx.emit s) = t.lower ctx := by
  apply Term.lower_congr
  intro name
  rfl

@[simp] theorem Term.lower_withTemps (t : Term) (ctx : Context) (k : Nat) :
    t.lower (ctx.withTemps k) = t.lower ctx := by
  apply Term.lower_congr
  intro name
  rfl

/-- Arithmetic becomes an operator or, between matrices, the function of the library for it. -/
theorem Term.exists_operands_of_lower_binary {ctx : Context} {note : Note} {lhs rhs : Term}
    {op : ArithOp} {c : Code} (h : (Term.binary note lhs op rhs).lower ctx = .ok c) :
    ∃ a b, lhs.lower ctx = .ok a ∧ rhs.lower ctx = .ok b ∧
      (c = .group a (.arith op) b ∨ ∃ f, op.matrixFunction? = some f ∧ c = .apply f [a, b]) := by
  simp only [Term.lower] at h
  obtain ⟨lhsTy, -, h⟩ := except_bind_eq_ok_iff.1 h
  obtain ⟨rhsTy, -, h⟩ := except_bind_eq_ok_iff.1 h
  split at h
  · cases h
  · obtain ⟨a, ha, h⟩ := except_bind_eq_ok_iff.1 h
    obtain ⟨b, hb, h⟩ := except_bind_eq_ok_iff.1 h
    refine ⟨a, b, ha, hb, ?_⟩
    split at h
    · split at h
      · next f hf =>
          cases h
          exact .inr ⟨f, hf, rfl⟩
      · cases h
    · cases h
      exact .inl rfl

theorem Term.exists_of_lower_binary {ctx : Context} {note : Note} {lhs rhs : Term} {op : ArithOp}
    {c : Code} (h : (Term.binary note lhs op rhs).lower ctx = .ok c) :
    ∃ a b, lhs.lower ctx = .ok a ∧ rhs.lower ctx = .ok b ∧
      (c = .group a (.arith op) b ∨ ∃ f, c = .apply f [a, b]) := by
  obtain ⟨a, b, ha, hb, hc⟩ := Term.exists_operands_of_lower_binary h
  refine ⟨a, b, ha, hb, hc.imp_right ?_⟩
  rintro ⟨f, -, hf⟩
  exact ⟨f, hf⟩

/-- Nested loops around a block. Each ends by leaving its loop unless the
condition holds, if there is one. -/
def Loop.nest (condition : Option String) : List Loop → List Stmt → List Stmt
  | [], inner => inner
  | loop :: loops, inner =>
    [.forIn loop.var loop.source
      (nest condition loops inner ++ condition.toList.map fun name => .breakUnless (.name name))]

theorem Loop.countAll_concat (loops : List Loop) (loop : Loop) :
    countAll (loops ++ [loop]) = .binary (countAll loops) (.arith .mul) loop.count :=
  List.foldl_append

/-- The loops for ranges, and the surroundings of their body. -/
inductive Range.Opens : Context → List Range → List Loop → Context → Prop where
  | nil {ctx} : Range.Opens ctx [] [] ctx
  | cons {ctx ctx' span var collection mode rest c loops}
      (hcollection : collection.lower ctx = .ok c)
      (hrest : Range.Opens (ctx.declare var) rest loops ctx') :
      Range.Opens ctx (.mk span var collection mode :: rest)
        (⟨var, Loop.sourceOf mode c, c, mode⟩ :: loops) ctx'

/-- The verdict of a t-test whose result is in a variable, when the test can
decide the comparison. -/
def Target.tTestVerdict? (target : Target) (result : String) (op : CmpOp) :
    Mode → Option Verdict
  | .probability => if op = .eq then some (.probability pvalue) else none
  | .boolean =>
    match op with
    | .eq => some (target.ofPValue .boolean pvalue)
    | .gt | .ge => some (oneSided .ge)
    | .lt | .le => some (oneSided .le)
    | .ne => none
where
  pvalue : Code := .item (.name result) (.nat 1)
  oneSided (side : CmpOp) : Verdict :=
    .boolean (.group (.binary (.binary pvalue (.arith .div) (.nat 2)) (.compare .ge) target.alphaCode)
      (.logic .or) (.binary (.item (.name result) (.nat 0)) (.compare side) (.nat 0)))

/-- The statements that lowering a clause adds, its verdict, and the number of
temporaries handed out after it. -/
inductive Clause.Emits (target : Target) :
    Context → Clause → Mode → List Stmt → Verdict → Nat → Prop where
  /-- The instances are tested in turn, as long as none fails. -/
  | forAll {ctx inner span ranges body mode loops stmts holds k}
      (hdomain : body.domain ≠ .overRuns)
      (hranges : Range.Opens (ctx.withTemps (ctx.temps + 1)).push ranges loops inner)
      (hbody : Clause.Emits target inner body .boolean stmts holds k) :
      Clause.Emits target ctx (.forAll span ranges body) mode
        (.set (tempName ctx.temps) .yes ::
          Loop.nest (some (tempName ctx.temps)) loops (stmts ++
            [.set (tempName ctx.temps)
              (.binary (.name (tempName ctx.temps)) (.logic .and) holds.code)]))
        (.ofCondition mode (.name (tempName ctx.temps))) k
  /-- The p-values of the instances are collected and combined. -/
  | forAllTests {ctx inner span ranges body mode loops stmts p k}
      (hdomain : body.domain = .overRuns)
      (hranges : Range.Opens (ctx.withTemps (ctx.temps + 2)).push ranges loops inner)
      (hbody : Clause.Emits target inner body .probability stmts p k) :
      Clause.Emits target ctx (.forAll span ranges body) mode
        (.set (tempName (ctx.temps + 1)) (.list []) ::
          Loop.nest none loops (stmts ++ [.append (.name (tempName (ctx.temps + 1))) p.code]) ++
          [.set (tempName ctx.temps)
            (target.library.combinePValues (.name (tempName (ctx.temps + 1))))])
        (target.ofPValue mode (.name (tempName ctx.temps))) k
  | letIn {ctx span name value body mode v stmts verdict k}
      (hvalue : value.lower ctx = .ok v)
      (hbody : Clause.Emits target (ctx.push.declare name) body mode stmts verdict k) :
      Clause.Emits target ctx (.letIn span name value body) mode
        (.set name v :: stmts) verdict k
  | membershipList {ctx span item collection mode i c itemTy τ}
      (hitem : item.lower ctx = .ok i) (hitemTy : item.ty = some itemTy)
      (hcollection : collection.lower ctx = .ok c) (hty : collection.ty = some (.sequence τ)) :
      Clause.Emits target ctx (.membership span item collection) mode []
        (.ofCondition mode (.group (if itemTy.isSequence then .apply "tuple" [i] else i) .within c))
        ctx.temps
  | membershipMap {ctx span item collection mode i c itemTy κ τ}
      (hitem : item.lower ctx = .ok i) (hitemTy : item.ty = some itemTy)
      (hcollection : collection.lower ctx = .ok c) (hty : collection.ty = some (.map κ τ)) :
      Clause.Emits target ctx (.membership span item collection) mode []
        (.ofCondition mode (.getOrZero c (if itemTy.isSequence then .apply "tuple" [i] else i)))
        ctx.temps
  | approx {ctx span lhs rhs mode expected} (hlhs : lhs.isIdentifier outputName = true)
      (hrhs : rhs.lower ctx = .ok expected) :
      Clause.Emits target ctx (.approx span lhs rhs) mode
        [.set (tempName ctx.temps) (.comprehension
          (.binary (.name (tempName (ctx.temps + 1))) (.arith .sub) expected)
          (tempName (ctx.temps + 1)) (.name outputName))]
        (target.ofPValue mode (target.library.wilcoxonPValue (.name (tempName ctx.temps))))
        (ctx.temps + 2)
  /-- The successes among the trials are counted. -/
  | probability {ctx span note trials body op rhs mode alternative stmts hit p k}
      (halternative : op.alternative? = some alternative)
      (hbody : Clause.Emits target
        ((ctx.withTemps (ctx.temps + 2)).withTrial (tempName (ctx.temps + 1)))
        body .boolean stmts hit k)
      (hrhs : rhs.lower ctx = .ok p) :
      Clause.Emits target ctx (.compare span (.probability note trials body) op rhs) mode
        [.set (tempName ctx.temps) (.nat 0),
          .forIn (tempName (ctx.temps + 1)) (.range (.name (Lower.trialCount trials)))
            (stmts ++ [.update (.name (tempName ctx.temps)) .add (.indicator hit.code)])]
        (target.ofPValue mode (target.library.binomialTest (.name (tempName ctx.temps))
          (.name (Lower.trialCount trials)) p alternative.text)) k
  /-- The successes among the items are counted. -/
  | probabilityOverItems {ctx inner span note ranges body op rhs mode alternative loops stmts hit
        p k}
      (halternative : op.alternative? = some alternative)
      (hranges : Range.Opens (ctx.withTemps (ctx.temps + 1)).push ranges loops inner)
      (hbody : Clause.Emits target inner body .boolean stmts hit k)
      (hrhs : rhs.lower ctx = .ok p) :
      Clause.Emits target ctx (.compare span (.probabilityOverItems note ranges body) op rhs) mode
        (.set (tempName ctx.temps) (.nat 0) ::
          Loop.nest none loops (stmts ++
            [.update (.name (tempName ctx.temps)) .add (.indicator hit.code)]))
        (target.ofPValue mode (target.library.binomialTest (.name (tempName ctx.temps))
          (Loop.countAll loops) p alternative.text)) k
  | expectation {ctx span note trials body op rhs mode expected verdict}
      (hbody : body.isIdentifier outputName = true) (hrhs : rhs.lower ctx = .ok expected)
      (hverdict : target.tTestVerdict? (tempName ctx.temps) op mode = some verdict) :
      Clause.Emits target ctx (.compare span (.expectation note trials body) op rhs) mode
        [.set (tempName ctx.temps) (target.library.tTest (.name outputName) expected)]
        verdict (ctx.temps + 1)
  /-- The values at the items are collected. -/
  | expectationOverItems {ctx inner span note ranges body op rhs mode loops value expected verdict}
      (hranges : Range.Opens (ctx.withTemps (ctx.temps + 1)).push ranges loops inner)
      (hbody : body.lower inner = .ok value) (hrhs : rhs.lower ctx = .ok expected)
      (hverdict : target.tTestVerdict? (tempName (ctx.temps + 1)) op mode = some verdict) :
      Clause.Emits target ctx (.compare span (.expectationOverItems note ranges body) op rhs) mode
        (.set (tempName ctx.temps) (.list []) ::
          Loop.nest none loops [.append (.name (tempName ctx.temps)) value] ++
          [.set (tempName (ctx.temps + 1))
            (target.library.tTest (.name (tempName ctx.temps)) expected)])
        verdict (ctx.temps + 2)
  | compare {ctx span lhs op rhs mode a b} (hplain : lhs.isStatistic = false)
      (hlhs : lhs.lower ctx = .ok a) (hrhs : rhs.lower ctx = .ok b) :
      Clause.Emits target ctx (.compare span lhs op rhs) mode []
        (.ofCondition mode (.group a (.compare op) b)) ctx.temps
  /-- The statements of both operands come before the verdict. -/
  | logic {ctx span lhs op rhs mode stmts₁ a k₁ stmts₂ b k₂}
      (hlhs : Clause.Emits target ctx lhs mode stmts₁ a k₁)
      (hrhs : Clause.Emits target (ctx.withTemps k₁) rhs mode stmts₂ b k₂) :
      Clause.Emits target ctx (.logic span lhs op rhs) mode (stmts₁ ++ stmts₂)
        (.ofLogic mode op a b) k₂
  | not {ctx span inner mode stmts v k} (hinner : Clause.Emits target ctx inner mode stmts v k) :
      Clause.Emits target ctx (.not span inner) mode stmts (.ofNot mode v) k

/-- Opening ranges in a scope only adds to that scope. -/
theorem Range.Opens.scopes_eq {ctx inner : Context} {ranges : List Range} {loops : List Loop}
    (h : Range.Opens ctx ranges loops inner) {scope : List String} {outer : List (List String)}
    (hctx : ctx.scopes = scope :: outer) :
    ∃ scope', inner = { ctx with scopes := scope' :: outer } := by
  induction h generalizing scope with
  | nil => exact ⟨scope, by rw [← hctx]⟩
  | @cons ctx ctx' span var collection mode rest c loops hcollection hrest ih =>
      have hdeclare : ctx.declare var = { ctx with scopes := (var :: scope) :: outer } := by
        rw [Context.declare, hctx]
      rw [hdeclare] at ih
      exact ih rfl

theorem Range.Opens.temps_eq {ctx inner : Context} {ranges : List Range} {loops : List Loop}
    (h : Range.Opens ctx.push ranges loops inner) : inner.temps = ctx.temps := by
  obtain ⟨scope, rfl⟩ := h.scopes_eq rfl
  rfl

/-- The blocks of the loops aside, their body has the surroundings that the ranges
give. -/
theorem Range.Opens.bare_openBlocks {ctx inner : Context} {ranges : List Range}
    {loops : List Loop} (h : Range.Opens ctx.bare.push ranges loops inner) (n : Nat) :
    ((inner.withBlocksOf ctx.push).openBlocks n).bare = inner := by
  obtain ⟨scope, rfl⟩ := h.scopes_eq rfl
  exact Context.bare_withBlocksOf_openBlocks _ _ _

namespace Lower

variable {α β : Type}

/-- The step writes what `R` says, given the surroundings: statements and a
number of temporaries for each result. -/
def Writes (step : Lower α) (R : Context → α → List Stmt → Nat → Prop) : Prop :=
  ∀ ctx a ctx', step.exec ctx = (.ok a, ctx') ↔
    ∃ stmts k, R ctx.bare a stmts k ∧ ctx' = ctx.extend k stmts

theorem writes_term (t : Term) :
    (term t).Writes fun ctx c stmts k => t.lower ctx = .ok c ∧ stmts = [] ∧ k = ctx.temps := by
  intro ctx c ctx'
  rw [exec_term]
  constructor
  · intro h
    obtain ⟨hc, rfl⟩ := Prod.mk.inj h
    exact ⟨[], ctx.temps, ⟨by simpa using hc, rfl, rfl⟩, by simp [Context.extend]⟩
  · rintro ⟨_, _, ⟨hc, rfl, rfl⟩, rfl⟩
    rw [Term.lower_bare] at hc
    simp [hc, Context.extend, Context.bare]

theorem Writes.exec_eq {step : Lower α} {R : Context → α → List Stmt → Nat → Prop}
    (hstep : step.Writes R) {ctx : Context} {a : α} (h : (step.exec ctx).1 = .ok a) :
    ∃ stmts k, R ctx.bare a stmts k ∧ step.exec ctx = (.ok a, ctx.extend k stmts) := by
  obtain ⟨stmts, k, hR, hctx⟩ := (hstep ctx a (step.exec ctx).2).1 (Prod.ext h rfl)
  exact ⟨stmts, k, hR, Prod.ext h hctx⟩

/-- A scope for one name is gone after the step. -/
theorem Writes.withName {step : Lower α} {R : Context → α → List Stmt → Nat → Prop}
    (hstep : step.Writes R) (name : String) :
    (Lower.withName name step).Writes fun ctx => R (ctx.push.declare name) := by
  intro ctx a ctx'
  rw [exec_withName]
  constructor
  · intro h
    obtain ⟨ha, rfl⟩ := Prod.mk.inj h
    obtain ⟨stmts, k, hR, hexec⟩ := hstep.exec_eq ha
    refine ⟨stmts, k, hR, ?_⟩
    rw [hexec]
    rfl
  · rintro ⟨stmts, k, hR, rfl⟩
    rw [(hstep (ctx.push.declare name) a _).2 ⟨stmts, k, hR, rfl⟩]
    rfl

/-- The trial is the previous one again after the step. -/
theorem Writes.withTrial {step : Lower α} {R : Context → α → List Stmt → Nat → Prop}
    (hstep : step.Writes R) (index : String) :
    (Lower.withTrial index step).Writes fun ctx => R (ctx.withTrial index) := by
  intro ctx a ctx'
  rw [exec_withTrial]
  constructor
  · intro h
    obtain ⟨ha, rfl⟩ := Prod.mk.inj h
    obtain ⟨stmts, k, hR, hexec⟩ := hstep.exec_eq ha
    refine ⟨stmts, k, hR, ?_⟩
    rw [hexec]
    rfl
  · rintro ⟨stmts, k, hR, rfl⟩
    rw [(hstep { ctx with trial := some index } a _).2 ⟨stmts, k, hR, rfl⟩]
    rfl

theorem exec_openRanges_eq_ok_iff (ranges : List Range) (loops : List Loop)
    (ctx ctx' : Context) :
    (openRanges ranges).exec ctx = (.ok loops, ctx') ↔
      ∃ inner, Range.Opens ctx.bare ranges loops inner ∧
        ctx' = (inner.withBlocksOf ctx).openBlocks loops.length := by
  induction ranges generalizing ctx ctx' loops with
  | nil =>
      rw [openRanges, exec_pure]
      constructor
      · intro h
        obtain ⟨⟨⟩, rfl⟩ := Prod.mk.inj h
        exact ⟨ctx.bare, .nil, rfl⟩
      · rintro ⟨_, ⟨⟩, rfl⟩
        rfl
  | cons range rest ih =>
      obtain ⟨span, var, collection, mode⟩ := range
      simp only [openRanges, exec_bind_eq_ok_iff, exec_term, exec_declare, exec_openBlock, ih,
        exec_pure]
      constructor
      · rintro ⟨c, _, hc, _, _, ⟨⟩, _, _, ⟨⟩, loops, _, ⟨inner, hinner, rfl⟩, ⟨⟩⟩
        obtain ⟨hc, rfl⟩ := Prod.mk.inj hc
        refine ⟨inner, .cons (by simpa using hc) (by simpa using hinner), ?_⟩
        rw [Context.withBlocksOf_declare_openBlock]
        rfl
      · rintro ⟨inner, hopens, rfl⟩
        cases hopens with
        | @cons _ _ _ _ _ _ _ c loops hcollection hrest =>
            refine ⟨c, ctx, by rw [← hcollection, Term.lower_bare], (), _, rfl, (), _, rfl, loops,
              _, ⟨inner, by simpa using hrest, rfl⟩, ?_⟩
            rw [Context.withBlocksOf_declare_openBlock]
            rfl

theorem exec_closeRanges (loops : List Loop) (condition : Option String) (ctx : Context)
    (k : Nat) (stmts : List Stmt) :
    (closeRanges loops condition).exec ((ctx.openBlocks loops.length).extend k stmts) =
      (.ok (), ctx.extend k (Loop.nest condition loops stmts)) := by
  induction loops generalizing ctx with
  | nil => rfl
  | cons loop loops ih =>
      have hsplit : closeRanges (loop :: loops) condition =
          (closeRanges loops condition >>= fun _ => closeRanges [loop] condition) := by
        simp [closeRanges, List.forM_append]
      rw [hsplit, exec_bind, List.length_cons, Context.openBlocks, ih, Loop.nest]
      cases condition with
      | none =>
          rw [Option.toList_none, List.map_nil, List.append_nil]
          rfl
      | some name => rfl

/-- Loops around a step that writes are written around what it writes. The last
statement of their body is made from the result of the step, and nothing else of
the loops and of their scope is left for what follows. -/
theorem exec_loops_of_opens {step : Lower α} {R : Context → α → List Stmt → Nat → Prop}
    (hstep : step.Writes R) {ranges : List Range} {loops : List Loop} {ctx inner : Context}
    (hopens : Range.Opens ctx.bare.push ranges loops inner) {a : α} {stmts : List Stmt} {k : Nat}
    (hR : R inner a stmts k) (condition : Option String) (last : α → Stmt)
    (rest : List Loop → α → Lower β) :
    (do
      pushScope
      let loops ← openRanges ranges
      let a ← step
      emit (last a)
      closeRanges loops condition
      popScope
      rest loops a : Lower β).exec ctx =
    (rest loops a).exec (ctx.extend k (Loop.nest condition loops (stmts ++ [last a]))) := by
  have hloops : (openRanges ranges).exec ctx.push = (.ok loops, _) :=
    (exec_openRanges_eq_ok_iff _ _ _ _).2 ⟨inner, hopens, rfl⟩
  have ha : step.exec ((inner.withBlocksOf ctx.push).openBlocks loops.length) = (.ok a, _) :=
    (hstep _ _ _).2 ⟨stmts, k, by rwa [hopens.bare_openBlocks], rfl⟩
  rw [exec_bind_of_ok (exec_pushScope ctx), exec_bind_of_ok hloops, exec_bind_of_ok ha]
  obtain ⟨scope, rfl⟩ := hopens.scopes_eq rfl
  simp only [exec_bind, exec_emit, Context.emit_extend, exec_closeRanges, exec_popScope]
  rfl

theorem exec_loops_eq_ok_iff {step : Lower α} {R : Context → α → List Stmt → Nat → Prop}
    (hstep : step.Writes R) (ranges : List Range) (condition : Option String) (last : α → Stmt)
    (rest : List Loop → α → Lower β) (b : β) (ctx ctx' : Context) :
    (do
      pushScope
      let loops ← openRanges ranges
      let a ← step
      emit (last a)
      closeRanges loops condition
      popScope
      rest loops a : Lower β).exec ctx = (.ok b, ctx') ↔
    ∃ loops inner a stmts k, Range.Opens ctx.bare.push ranges loops inner ∧ R inner a stmts k ∧
      (rest loops a).exec (ctx.extend k (Loop.nest condition loops (stmts ++ [last a]))) =
        (.ok b, ctx') := by
  constructor
  · intro h
    obtain ⟨_, _, ⟨⟩, hrun⟩ := (exec_bind_eq_ok_iff _ _ _ _ _).1 h
    obtain ⟨loops, _, hloops, hrun⟩ := (exec_bind_eq_ok_iff _ _ _ _ _).1 hrun
    obtain ⟨inner, hopens, rfl⟩ := (exec_openRanges_eq_ok_iff _ _ _ _).1 hloops
    obtain ⟨a, _, ha, -⟩ := (exec_bind_eq_ok_iff _ _ _ _ _).1 hrun
    obtain ⟨stmts, k, hR, -⟩ := (hstep _ _ _).1 ha
    rw [hopens.bare_openBlocks] at hR
    rw [exec_loops_of_opens hstep hopens hR] at h
    exact ⟨loops, inner, a, stmts, k, hopens, hR, h⟩
  · rintro ⟨loops, inner, a, stmts, k, hopens, hR, h⟩
    rw [exec_loops_of_opens hstep hopens hR]
    exact h

theorem exec_requireAlternative_eq_ok_iff (clause : Clause) (op : CmpOp) (a : Alternative)
    (ctx ctx' : Context) :
    (requireAlternative clause op).exec ctx = (.ok a, ctx') ↔
      op.alternative? = some a ∧ ctx' = ctx := by
  unfold requireAlternative
  cases op.alternative? <;> simp [eq_comm]

theorem exec_tTest_eq_ok_iff (target : Target) (clause : Clause) (samples expected : Code)
    (op : CmpOp) (mode : Mode) (v : Verdict) (ctx ctx' : Context) :
    (tTest target clause samples expected op mode).exec ctx = (.ok v, ctx') ↔
      target.tTestVerdict? (tempName ctx.temps) op mode = some v ∧
        ctx' = ctx.extend (ctx.temps + 1)
          [.set (tempName ctx.temps) (target.library.tTest samples expected)] := by
  have hstate : (ctx.withTemps (ctx.temps + 1)).emit
      (.set (tempName ctx.temps) (target.library.tTest samples expected)) =
      ctx.extend (ctx.temps + 1)
        [.set (tempName ctx.temps) (target.library.tTest samples expected)] := rfl
  simp only [tTest, exec_bind, exec_fresh, exec_emit, hstate]
  cases mode <;> cases op <;> simp [Target.tTestVerdict?, eq_comm] <;> exact fun _ => Iff.rfl

end Lower

/-- Temporaries are only ever handed out. -/
theorem Clause.Emits.temps_le {target : Target} {ctx : Context} {c : Clause} {mode : Mode}
    {stmts : List Stmt} {v : Verdict} {k : Nat} (h : c.Emits target ctx mode stmts v k) :
    ctx.temps ≤ k := by
  induction h with
  | forAll _ hranges _ ih | forAllTests _ hranges _ ih | probabilityOverItems _ hranges _ _ ih =>
      rw [hranges.temps_eq] at ih
      exact Nat.le_of_add_right_le ih
  | letIn _ _ ih =>
      simpa using ih
  | probability _ _ _ ih => exact Nat.le_of_add_right_le ih
  | logic _ _ ih₁ ih₂ => exact Nat.le_trans ih₁ ih₂
  | not _ ih => exact ih
  | _ => simp

open Lower

theorem Term.requireType_eq_ok_iff (t : Term) (τ : ValueType) :
    t.requireType = .ok τ ↔ t.ty = some τ := by
  unfold Term.requireType
  cases t.ty <;> simp

/-- Lowering the clause writes what the rules say. -/
def Clause.FollowsRules (target : Target) (c : Clause) : Prop :=
  ∀ mode, (c.lower target mode).Writes fun ctx v stmts k => c.Emits target ctx mode stmts v k

namespace Clause.FollowsRules

variable {target : Target}

theorem forAll {span : Span} {ranges : List Range} {body : Clause}
    (hbody : body.FollowsRules target) : (Clause.forAll span ranges body).FollowsRules target := by
  intro mode ctx v ctx'
  rw [Clause.lower, exec_bind_of_ok (exec_fresh ctx)]
  by_cases hdomain : body.domain = .overRuns
  · rw [if_pos hdomain, exec_bind_of_ok (exec_fresh _), exec_bind_of_ok (exec_emit _ _),
      exec_loops_eq_ok_iff (hbody .probability)]
    constructor
    · rintro ⟨loops, inner, p, stmts, k, hranges, hbody, h⟩
      rw [exec_bind_of_ok (exec_emit _ _), exec_pure] at h
      cases h
      refine ⟨_, k, .forAllTests hdomain hranges hbody, ?_⟩
      simp [Context.extend, Context.emit, Context.withTemps]
    · rintro ⟨_, k, h, rfl⟩
      cases h with
      | forAll hdomain' => exact absurd hdomain hdomain'
      | @forAllTests _ inner _ _ _ _ loops stmts p _ _ hranges hbody =>
          refine ⟨loops, inner, p, stmts, k, hranges, hbody, ?_⟩
          rw [exec_bind_of_ok (exec_emit _ _), exec_pure]
          simp [Context.extend, Context.emit, Context.withTemps]
  · rw [if_neg hdomain, exec_bind_of_ok (exec_emit _ _),
      exec_loops_eq_ok_iff (hbody .boolean)]
    constructor
    · rintro ⟨loops, inner, holds, stmts, k, hranges, hbody, h⟩
      rw [exec_pure] at h
      cases h
      refine ⟨_, k, .forAll hdomain hranges hbody, ?_⟩
      simp [Context.extend, Context.emit, Context.withTemps]
    · rintro ⟨_, k, h, rfl⟩
      cases h with
      | forAllTests hdomain' => exact absurd hdomain' hdomain
      | @forAll _ inner _ _ _ _ loops stmts holds _ _ hranges hbody =>
          refine ⟨loops, inner, holds, stmts, k, hranges, hbody, ?_⟩
          rw [exec_pure]
          simp [Context.extend, Context.emit, Context.withTemps]

theorem letIn {span : Span} {name : String} {value : Term} {body : Clause}
    (hbody : body.FollowsRules target) :
    (Clause.letIn span name value body).FollowsRules target := by
  intro mode ctx v ctx'
  simp only [Clause.lower, exec_bind_eq_ok_iff, exec_term, exec_emit, Prod.mk.injEq]
  constructor
  · rintro ⟨c, _, ⟨hc, rfl⟩, _, _, ⟨-, rfl⟩, h⟩
    obtain ⟨stmts, k, hemits, rfl⟩ := ((hbody mode).withName name _ _ _).1 h
    refine ⟨_, k, .letIn (by simpa using hc) (by simpa using hemits), ?_⟩
    simp [Context.extend, Context.emit]
  · rintro ⟨_, k, h, rfl⟩
    cases h with
    | @letIn _ _ _ _ _ _ c stmts _ _ hvalue hemits =>
        refine ⟨c, ctx, ⟨by simpa using hvalue, rfl⟩, (), _, ⟨trivial, rfl⟩, ?_⟩
        refine ((hbody mode).withName name _ _ _).2
          ⟨stmts, k, by simpa using hemits, ?_⟩
        simp [Context.extend, Context.emit]

theorem membership {span : Span} {item collection : Term} :
    (Clause.membership span item collection).FollowsRules target := by
  intro mode ctx v ctx'
  simp only [Clause.lower, exec_bind_eq_ok_iff, exec_term, exec_ofExcept, Prod.mk.injEq,
    Term.requireType_eq_ok_iff]
  constructor
  · rintro ⟨i, _, ⟨hi, rfl⟩, itemTy, _, ⟨hitemTy, rfl⟩, c, _, ⟨hc, rfl⟩, ty, _, ⟨hty, rfl⟩, h⟩
    cases ty with
    | sequence τ =>
        cases h
        exact ⟨[], ctx.temps, .membershipList (by simpa using hi) hitemTy (by simpa using hc)
          hty, by simp [Context.extend]⟩
    | map κ τ =>
        cases h
        exact ⟨[], ctx.temps, .membershipMap (by simpa using hi) hitemTy (by simpa using hc)
          hty, by simp [Context.extend]⟩
    | _ => cases h
  · rintro ⟨_, k, h, rfl⟩
    cases h with
    | membershipList hi hitemTy hc hty =>
        refine ⟨_, ctx, ⟨by simpa using hi, rfl⟩, _, ctx, ⟨hitemTy, rfl⟩, _, ctx,
          ⟨by simpa using hc, rfl⟩, _, ctx, ⟨hty, rfl⟩, ?_⟩
        simp [Context.extend]
    | membershipMap hi hitemTy hc hty =>
        refine ⟨_, ctx, ⟨by simpa using hi, rfl⟩, _, ctx, ⟨hitemTy, rfl⟩, _, ctx,
          ⟨by simpa using hc, rfl⟩, _, ctx, ⟨hty, rfl⟩, ?_⟩
        simp [Context.extend]

theorem approx {span : Span} {lhs rhs : Term} :
    (Clause.approx span lhs rhs).FollowsRules target := by
  intro mode ctx v ctx'
  rw [Clause.lower]
  by_cases hlhs : lhs.isIdentifier outputName = true
  · rw [if_pos hlhs, exec_bind_eq_ok_iff]
    simp only [exec_term, Prod.mk.injEq]
    constructor
    · rintro ⟨c, _, ⟨hc, rfl⟩, h⟩
      rw [exec_bind_of_ok (exec_fresh _), exec_bind_of_ok (exec_fresh _),
        exec_bind_of_ok (exec_emit _ _), exec_pure] at h
      cases h
      exact ⟨_, _, .approx hlhs (by simpa using hc), rfl⟩
    · rintro ⟨_, k, h, rfl⟩
      cases h with
      | approx _ hrhs =>
          refine ⟨_, ctx, ⟨by simpa using hrhs, rfl⟩, ?_⟩
          rw [exec_bind_of_ok (exec_fresh _), exec_bind_of_ok (exec_fresh _),
            exec_bind_of_ok (exec_emit _ _), exec_pure]
          rfl
  · rw [if_neg hlhs, exec_bind, exec_throw]
    constructor
    · nofun
    · rintro ⟨_, k, h, rfl⟩
      cases h with
      | approx hlhs' => exact absurd hlhs' hlhs

section Compare

variable {span : Span} {op : CmpOp} {rhs : Term}

theorem probability {note : Note} {trials : Trials} {body : Clause}
    (hbody : body.FollowsRules target) :
    (Clause.compare span (.probability note trials body) op rhs).FollowsRules target := by
  intro mode ctx v ctx'
  have hbody := (hbody .boolean).withTrial (tempName (ctx.temps + 1))
  rw [Clause.lower, exec_bind_eq_ok_iff]
  simp only [exec_requireAlternative_eq_ok_iff]
  constructor
  · rintro ⟨alternative, _, ⟨halternative, rfl⟩, h⟩
    rw [exec_bind_of_ok (exec_fresh _), exec_bind_of_ok (exec_emit _ _),
      exec_bind_of_ok (exec_fresh _), exec_bind_of_ok (exec_openBlock _)] at h
    obtain ⟨hit, _, hhit, h⟩ := (exec_bind_eq_ok_iff _ _ _ _ _).1 h
    obtain ⟨stmts, k, hR, rfl⟩ := (hbody _ _ _).1 hhit
    rw [countHit, exec_bind_of_ok (exec_emit _ _), exec_bind_of_ok (exec_closeBlock _),
      Context.emit_extend, Context.closeBlock_extend, exec_bind_of_ok (exec_emit _ _)] at h
    obtain ⟨p, _, hp, h⟩ := (exec_bind_eq_ok_iff _ _ _ _ _).1 h
    rw [exec_term] at hp
    obtain ⟨hp, rfl⟩ := Prod.mk.inj hp
    cases h
    refine ⟨_, k, .probability halternative hR (by simpa using hp), ?_⟩
    simp [Context.extend, Context.emit, Context.withTemps]
  · rintro ⟨_, k, h, rfl⟩
    cases h with
    | @probability _ _ _ _ _ _ _ _ alternative stmts hit p _ halternative hR hrhs =>
        refine ⟨alternative, ctx, ⟨halternative, rfl⟩, ?_⟩
        rw [exec_bind_of_ok (exec_fresh _), exec_bind_of_ok (exec_emit _ _),
          exec_bind_of_ok (exec_fresh _), exec_bind_of_ok (exec_openBlock _)]
        refine (exec_bind_eq_ok_iff _ _ _ _ _).2
          ⟨hit, _, (hbody _ _ _).2 ⟨stmts, k, hR, rfl⟩, ?_⟩
        rw [countHit, exec_bind_of_ok (exec_emit _ _), exec_bind_of_ok (exec_closeBlock _),
          Context.emit_extend, Context.closeBlock_extend, exec_bind_of_ok (exec_emit _ _)]
        refine (exec_bind_eq_ok_iff _ _ _ _ _).2 ⟨p, _, exec_term_of_ok (by simpa using hrhs), ?_⟩
        rw [exec_pure]
        simp [Context.extend, Context.emit, Context.withTemps]
    | compare hplain => cases hplain

theorem probabilityOverItems {note : Note} {ranges : List Range} {body : Clause}
    (hbody : body.FollowsRules target) :
    (Clause.compare span (.probabilityOverItems note ranges body) op rhs).FollowsRules target := by
  intro mode ctx v ctx'
  have hbody := hbody .boolean
  rw [Clause.lower, exec_bind_eq_ok_iff]
  simp only [exec_requireAlternative_eq_ok_iff]
  constructor
  · rintro ⟨alternative, _, ⟨halternative, rfl⟩, h⟩
    rw [exec_bind_of_ok (exec_fresh _), exec_bind_of_ok (exec_emit _ _)] at h
    obtain ⟨loops, inner, hit, stmts, k, hranges, hR, h⟩ :=
      (exec_loops_eq_ok_iff hbody _ _ _ _ _ _ _).1 h
    obtain ⟨p, _, hp, h⟩ := (exec_bind_eq_ok_iff _ _ _ _ _).1 h
    rw [exec_term] at hp
    obtain ⟨hp, rfl⟩ := Prod.mk.inj hp
    cases h
    refine ⟨_, k, .probabilityOverItems halternative hranges hR (by simpa using hp), ?_⟩
    simp [Context.extend, Context.emit, Context.withTemps]
  · rintro ⟨_, k, h, rfl⟩
    cases h with
    | @probabilityOverItems _ inner _ _ _ _ _ _ _ alternative loops stmts hit p _ halternative
        hranges hR hrhs =>
        refine ⟨alternative, ctx, ⟨halternative, rfl⟩, ?_⟩
        rw [exec_bind_of_ok (exec_fresh _), exec_bind_of_ok (exec_emit _ _)]
        refine (exec_loops_eq_ok_iff hbody _ _ _ _ _ _ _).2
          ⟨loops, inner, hit, stmts, k, hranges, hR, ?_⟩
        refine (exec_bind_eq_ok_iff _ _ _ _ _).2 ⟨p, _, exec_term_of_ok (by simpa using hrhs), ?_⟩
        rw [exec_pure]
        simp [Context.extend, Context.emit, Context.withTemps]
    | compare hplain => cases hplain

theorem expectation {note : Note} {trials : Trials} {body : Term} :
    (Clause.compare span (.expectation note trials body) op rhs).FollowsRules target := by
  intro mode ctx v ctx'
  rw [Clause.lower]
  by_cases hbody : body.isIdentifier outputName = true
  · rw [if_pos hbody]
    simp only [exec_bind_eq_ok_iff, exec_term, Prod.mk.injEq, exec_tTest_eq_ok_iff]
    constructor
    · rintro ⟨c, _, ⟨hc, rfl⟩, hverdict, rfl⟩
      exact ⟨_, _, .expectation hbody (by simpa using hc) hverdict, rfl⟩
    · rintro ⟨_, k, h, rfl⟩
      cases h with
      | expectation _ hrhs hverdict =>
          exact ⟨_, ctx, ⟨by simpa using hrhs, rfl⟩, hverdict, rfl⟩
      | compare hplain => cases hplain
  · rw [if_neg hbody, exec_bind, exec_throw]
    constructor
    · nofun
    · rintro ⟨_, k, h, rfl⟩
      cases h with
      | expectation hbody' => exact absurd hbody' hbody
      | compare hplain => cases hplain

theorem expectationOverItems {note : Note} {ranges : List Range} {body : Term} :
    (Clause.compare span (.expectationOverItems note ranges body) op rhs).FollowsRules target := by
  intro mode ctx v ctx'
  rw [Clause.lower, exec_bind_of_ok (exec_fresh _), exec_bind_of_ok (exec_emit _ _),
    exec_loops_eq_ok_iff (writes_term body)]
  simp only [exec_bind_eq_ok_iff, exec_term, Prod.mk.injEq, exec_tTest_eq_ok_iff]
  constructor
  · rintro ⟨loops, inner, value, _, _, hranges, ⟨hvalue, rfl, rfl⟩, c, _, ⟨hc, rfl⟩, hverdict,
      rfl⟩
    have htemps : inner.temps = ctx.temps + 1 := hranges.temps_eq
    rw [htemps] at hverdict
    refine ⟨_, _, .expectationOverItems hranges hvalue (by simpa using hc) hverdict, ?_⟩
    simp [Context.extend, Context.emit, Context.withTemps, htemps]
  · rintro ⟨_, k, h, rfl⟩
    cases h with
    | @expectationOverItems _ inner _ _ _ _ _ _ _ loops value expected _ hranges hbody hrhs
        hverdict =>
        have htemps : inner.temps = ctx.temps + 1 := hranges.temps_eq
        refine ⟨loops, inner, value, [], inner.temps, hranges, ⟨hbody, rfl, rfl⟩, expected, _,
          ⟨by simpa using hrhs, rfl⟩, ?_, ?_⟩
        · rw [htemps]
          exact hverdict
        · simp [Context.extend, Context.emit, Context.withTemps, htemps]
    | compare hplain => cases hplain

/-- A comparison without a statistic writes nothing. -/
theorem comparison {lhs : Term} (hplain : lhs.isStatistic = false) :
    (Clause.compare span lhs op rhs).FollowsRules target := by
  intro mode ctx v ctx'
  rw [Clause.lower_compare hplain]
  simp only [exec_bind_eq_ok_iff, exec_term, exec_pure, Prod.mk.injEq, Except.ok.injEq]
  constructor
  · rintro ⟨a, _, ⟨ha, rfl⟩, b, _, ⟨hb, rfl⟩, rfl, rfl⟩
    exact ⟨[], ctx.temps, .compare hplain (by simpa using ha) (by simpa using hb),
      by simp [Context.extend]⟩
  · rintro ⟨stmts, k, h, rfl⟩
    cases h with
    | compare _ ha hb =>
        refine ⟨_, ctx, ⟨by simpa using ha, rfl⟩, _, ctx, ⟨by simpa using hb, rfl⟩, rfl, ?_⟩
        simp [Context.extend, Context.bare]
    | _ => cases hplain

end Compare

theorem logic {span : Span} {lhs rhs : Clause} {op : LogicOp} (hlhs : lhs.FollowsRules target)
    (hrhs : rhs.FollowsRules target) : (Clause.logic span lhs op rhs).FollowsRules target := by
  intro mode ctx v ctx'
  rw [Clause.lower_logic]
  simp only [exec_bind_eq_ok_iff, exec_pure, Prod.mk.injEq, Except.ok.injEq, hlhs _ _ _,
    hrhs _ _ _]
  constructor
  · rintro ⟨a, _, ⟨stmts₁, k₁, h₁, rfl⟩, b, _, ⟨stmts₂, k₂, h₂, rfl⟩, rfl, rfl⟩
    refine ⟨_, k₂, .logic h₁ (by simpa using h₂), ?_⟩
    simp [Context.extend]
  · rintro ⟨_, k, h, rfl⟩
    cases h with
    | @logic _ _ _ _ _ _ stmts₁ a k₁ stmts₂ b _ h₁ h₂ =>
        refine ⟨a, _, ⟨stmts₁, k₁, h₁, rfl⟩, b, _, ⟨stmts₂, k, by simpa using h₂, rfl⟩, rfl, ?_⟩
        simp [Context.extend]

theorem not {span : Span} {inner : Clause} (hinner : inner.FollowsRules target) :
    (Clause.not span inner).FollowsRules target := by
  intro mode ctx v ctx'
  rw [Clause.lower_not]
  simp only [exec_bind_eq_ok_iff, exec_pure, Prod.mk.injEq, Except.ok.injEq, hinner _ _ _]
  constructor
  · rintro ⟨a, _, ⟨stmts, k, h, rfl⟩, rfl, rfl⟩
    exact ⟨stmts, k, .not h, rfl⟩
  · rintro ⟨stmts, k, h, rfl⟩
    cases h with
    | not h => exact ⟨_, _, ⟨stmts, k, h, rfl⟩, rfl, rfl⟩

end Clause.FollowsRules

/-- Lowering any clause writes what the rules say. -/
theorem Clause.followsRules (target : Target) : ∀ c : Clause, c.FollowsRules target
  | .forAll _ _ body => .forAll (body.followsRules target)
  | .letIn _ _ _ body => .letIn (body.followsRules target)
  | .membership .. => .membership
  | .approx .. => .approx
  | .compare _ (.probability _ _ body) _ _ => .probability (body.followsRules target)
  | .compare _ (.probabilityOverItems _ _ body) _ _ =>
      .probabilityOverItems (body.followsRules target)
  | .compare _ (.expectation ..) _ _ => .expectation
  | .compare _ (.expectationOverItems ..) _ _ => .expectationOverItems
  | .compare _ (.constant ..) _ _ | .compare _ (.lookup ..) _ _ | .compare _ (.identifier ..) _ _
  | .compare _ (.tuple ..) _ _ | .compare _ (.binary ..) _ _ | .compare _ (.sizeOf ..) _ _
  | .compare _ (.call ..) _ _ => .comparison rfl
  | .logic _ lhs _ rhs => .logic (lhs.followsRules target) (rhs.followsRules target)
  | .not _ inner => .not (inner.followsRules target)

/-- Lowering succeeds exactly with what the rules give. -/
theorem Clause.exec_lower_eq_ok_iff (target : Target) (c : Clause) (mode : Mode) (v : Verdict)
    (ctx ctx' : Context) :
    (c.lower target mode).exec ctx = (.ok v, ctx') ↔
      ∃ stmts k, c.Emits target ctx.bare mode stmts v k ∧ ctx' = ctx.extend k stmts :=
  c.followsRules target mode ctx v ctx'

end StatContract
