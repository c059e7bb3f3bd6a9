import StatContract.Proofs.Lowering.Emission

/-!
# What lowering leaves behind

Scopes are entered and left, blocks are started and ended, and a trial is taken up and given
back by hand around each construct, and a defect may be found anywhere in between. So a step
is judged by both of its endings. A step that succeeds leaves the state as it was, apart from
statements at the end of the current block and temporaries handed out (`Context.Extends`).
One that fails may leave scopes and blocks open, but only inside those of the caller
(`Context.Encloses`).

`Lower.Restores` is passed on from the parts of a step to the step. The scope of a `let` is
left even if deeper scopes are still there, which removes one of these and not that of the
caller, since the scope of the `let` itself lies in between.
-/

namespace StatContract

namespace Context

/-- The scopes, from the outermost to the innermost. -/
def scopeStack (ctx : Context) : List (List String) := ctx.names :: ctx.scopes.reverse

/-- The open blocks, from the outermost to the innermost. -/
def blockStack (ctx : Context) : List (List Stmt) := ctx.enclosing.reverse ++ [ctx.block]

/-- The second state is the first with statements added to the current block and temporaries
handed out. -/
def Extends (ctx ctx' : Context) : Prop := ∃ k stmts, ctx.temps ≤ k ∧ ctx' = ctx.extend k stmts

/-- The second state lies in the scopes and blocks of the first, of which only the current
block was added to. -/
structure Encloses (ctx ctx' : Context) : Prop where
  temps : ctx.temps ≤ ctx'.temps
  trial : ctx'.trial = ctx.trial
  names : ctx'.names = ctx.names
  scopes : ctx.scopes <:+ ctx'.scopes
  blocks : ∃ block, ctx.block <+: block ∧
    block :: ctx.enclosing <:+ ctx'.block :: ctx'.enclosing

namespace Extends

theorem refl (ctx : Context) : ctx.Extends ctx :=
  ⟨ctx.temps, [], Nat.le_refl _, by simp [extend]⟩

theorem trans {ctx ctx' ctx'' : Context} (h : ctx.Extends ctx') (h' : ctx'.Extends ctx'') :
    ctx.Extends ctx'' := by
  obtain ⟨k, stmts, hk, rfl⟩ := h
  obtain ⟨k', stmts', hk', rfl⟩ := h'
  exact ⟨k', stmts ++ stmts', Nat.le_trans hk hk', by simp [extend]⟩

end Extends

namespace Encloses

theorem refl (ctx : Context) : ctx.Encloses ctx :=
  ⟨Nat.le_refl _, rfl, rfl, List.suffix_rfl, ctx.block, List.prefix_rfl, List.suffix_rfl⟩

theorem of_extends {ctx ctx' : Context} (h : ctx.Extends ctx') : ctx.Encloses ctx' := by
  obtain ⟨k, stmts, hk, rfl⟩ := h
  exact ⟨hk, rfl, rfl, List.suffix_rfl, _, List.prefix_append _ _, List.suffix_rfl⟩

theorem trans {ctx ctx' ctx'' : Context} (h : ctx.Encloses ctx') (h' : ctx'.Encloses ctx'') :
    ctx.Encloses ctx'' := by
  refine ⟨Nat.le_trans h.temps h'.temps, h'.trial.trans h.trial, h'.names.trans h.names,
    h.scopes.trans h'.scopes, ?_⟩
  obtain ⟨block, hblock, hblocks⟩ := h.blocks
  obtain ⟨block', hblock', hblocks'⟩ := h'.blocks
  rcases List.suffix_cons_iff.1 hblocks with heq | hinner
  · -- The current block is still the same, and was added to twice.
    obtain ⟨rfl, henclosing⟩ := List.cons.inj heq
    exact ⟨block', hblock.trans hblock', by rwa [henclosing]⟩
  · exact ⟨block, hblock, hinner.trans ((List.suffix_cons _ _).trans hblocks')⟩

theorem openBlock (ctx : Context) : ctx.Encloses ctx.openBlock :=
  ⟨Nat.le_refl _, rfl, rfl, List.suffix_rfl, ctx.block, List.prefix_rfl, List.suffix_cons _ _⟩

theorem openBlocks (ctx : Context) (n : Nat) : ctx.Encloses (ctx.openBlocks n) := by
  induction n generalizing ctx with
  | zero => exact .refl ctx
  | succ n ih => exact (openBlock ctx).trans (ih ctx.openBlock)

/-- A scope of its own, whatever it holds. -/
theorem addScope (ctx : Context) (scope : List String) :
    ctx.Encloses { ctx with scopes := scope :: ctx.scopes } :=
  ⟨Nat.le_refl _, rfl, rfl, List.suffix_cons _ _, ctx.block, List.prefix_rfl, List.suffix_rfl⟩

/-- Leaving one scope of a state that lies inside a new scope does not leave those around
it. -/
theorem pop {ctx ctx' : Context} {scope : List String}
    (h : Encloses { ctx with scopes := scope :: ctx.scopes } ctx') : ctx.Encloses ctx'.pop := by
  refine ⟨h.temps, h.trial, h.names, ?_, h.blocks⟩
  obtain ⟨inner, hinner⟩ := h.scopes
  rw [Context.pop, ← hinner]
  cases inner with
  | nil => exact List.suffix_rfl
  | cons first inner => exact (List.suffix_cons _ _).trans (List.suffix_append _ _)

/-- Whatever trial was under consideration inside, the one from before is taken up again. -/
theorem withTrial {ctx ctx' : Context} {trial : Option String}
    (h : Encloses { ctx with trial := trial } ctx') :
    ctx.Encloses { ctx' with trial := ctx.trial } :=
  ⟨h.temps, rfl, h.names, h.scopes, h.blocks⟩

theorem scopeStack_isPrefix {ctx ctx' : Context} (h : ctx.Encloses ctx') :
    ctx.scopeStack <+: ctx'.scopeStack := by
  rw [scopeStack, scopeStack, h.names, List.prefix_cons_inj, List.reverse_prefix]
  exact h.scopes

theorem exists_blockStack {ctx ctx' : Context} (h : ctx.Encloses ctx') :
    ∃ block inner, ctx.block <+: block ∧
      ctx'.blockStack = ctx.enclosing.reverse ++ block :: inner := by
  obtain ⟨block, hblock, inner, hinner⟩ := h.blocks
  refine ⟨block, inner.reverse, hblock, ?_⟩
  rw [blockStack, ← List.reverse_cons, ← hinner]
  simp

end Encloses

/-- What a step leaves of a state, as it succeeds or fails. -/
def Leaves {α : Type} (ctx : Context) : Except SpecError α × Context → Prop
  | (.ok _, ctx') => ctx.Extends ctx'
  | (.error _, ctx') => ctx.Encloses ctx'

theorem Leaves.after {α : Type} {ctx ctx' : Context} {r : Except SpecError α × Context}
    (h : ctx.Extends ctx') (h' : ctx'.Leaves r) : ctx.Leaves r := by
  rcases r with ⟨e | a, ctx''⟩
  · exact (Encloses.of_extends h).trans h'
  · exact h.trans h'

end Context

open Context

/-- A step that leaves every state as it was, up to what is added to it. -/
def Lower.Restores {α : Type} (x : Lower α) : Prop :=
  ∀ ctx : Context, ctx.Leaves (x.exec ctx)

namespace Lower.Restores

variable {α β : Type}

theorem pure (a : α) : Restores (Pure.pure a : Lower α) := Extends.refl

theorem throw (e : SpecError) : Restores (MonadExcept.throw e : Lower α) := Encloses.refl

theorem bind {x : Lower α} {f : α → Lower β} (hx : Restores x) (hf : ∀ a, Restores (f a)) :
    Restores (x >>= f) := by
  intro ctx
  have h := hx ctx
  rw [exec_bind]
  rcases hrun : x.exec ctx with ⟨e | a, ctx'⟩ <;> rw [hrun] at h
  · exact h
  · exact (hf a ctx').after h

theorem fresh : Restores Lower.fresh :=
  fun ctx => ⟨ctx.temps + 1, [], Nat.le_succ _, by simp [extend]⟩

theorem emit (s : Stmt) : Restores (Lower.emit s) := fun ctx => ⟨ctx.temps, [s], Nat.le_refl _, rfl⟩

theorem ofExcept (r : Except SpecError α) : Restores (MonadExcept.ofExcept r : Lower α) := by
  cases r with
  | ok a => exact .pure a
  | error e => exact .throw e

theorem term (t : Term) : Restores (Lower.term t) := by
  intro ctx
  rw [exec_term]
  cases t.lower ctx with
  | ok c => exact .refl ctx
  | error e => exact .refl ctx

theorem requireAlternative (c : Clause) (op : CmpOp) :
    Restores (Lower.requireAlternative c op) := by
  unfold Lower.requireAlternative
  cases op.alternative? with
  | some a => exact .pure a
  | none => exact .throw _

theorem tTest (target : Target) (c : Clause) (samples expected : Code) (op : CmpOp)
    (mode : Mode) : Restores (Lower.tTest target c samples expected op mode) := by
  refine .bind .fresh fun result => .bind (.emit _) fun _ => ?_
  cases mode <;> cases op <;> first | exact .pure _ | exact .throw _

theorem withName {x : Lower α} (hx : Restores x) (name : String) :
    Restores (Lower.withName name x) := by
  intro ctx
  rw [exec_withName]
  have h := hx (ctx.push.declare name)
  rcases hrun : x.exec (ctx.push.declare name) with ⟨e | a, ctx'⟩ <;> rw [hrun] at h
  · exact Encloses.pop h
  · obtain ⟨k, stmts, hk, rfl⟩ := h
    exact ⟨k, stmts, hk, rfl⟩

theorem withTrial {x : Lower α} (hx : Restores x) (index : String) :
    Restores (Lower.withTrial index x) := by
  intro ctx
  rw [exec_withTrial]
  have h := hx { ctx with trial := some index }
  rcases hrun : x.exec { ctx with trial := some index } with ⟨e | a, ctx'⟩ <;> rw [hrun] at h
  · exact Encloses.withTrial h
  · obtain ⟨k, stmts, hk, rfl⟩ := h
    exact ⟨k, stmts, hk, rfl⟩

/-- A block around a step is ended when the step succeeds, and stays open when it fails. -/
theorem block {x : Lower α} (hx : Restores x) (last : α → Stmt)
    {rest : α → List Stmt → Lower β} (hrest : ∀ a body, Restores (rest a body)) :
    Restores (do
      openBlock
      let a ← x
      Lower.emit (last a)
      let body ← closeBlock
      rest a body) := by
  intro ctx
  rw [exec_bind_of_ok (exec_openBlock ctx), exec_bind]
  have h := hx ctx.openBlock
  rcases hrun : x.exec ctx.openBlock with ⟨e | a, ctx'⟩ <;> rw [hrun] at h
  · exact (Encloses.openBlock ctx).trans h
  · obtain ⟨k, stmts, hk, rfl⟩ := h
    dsimp only
    rw [exec_bind_of_ok (exec_emit _ _), emit_extend, exec_bind_of_ok (exec_closeBlock _),
      closeBlock_extend]
    have hstate : ctx.Extends (ctx.withTemps k) := ⟨k, [], hk, by simp [extend, withTemps]⟩
    exact (hrest a (stmts ++ [last a]) (ctx.withTemps k)).after hstate

end Lower.Restores

/-- Opening loops in a scope adds to that scope and starts blocks, as many as there are loops,
or fewer when a collection cannot be lowered. -/
theorem Lower.exists_exec_openRanges (ranges : List Range) {ctx : Context} {scope : List String}
    {outer : List (List String)} (hctx : ctx.scopes = scope :: outer) :
    ∃ scope' n, ((openRanges ranges).exec ctx).2 =
        openBlocks { ctx with scopes := scope' :: outer } n ∧
      ∀ loops, ((openRanges ranges).exec ctx).1 = .ok loops → loops.length = n := by
  induction ranges generalizing ctx scope with
  | nil =>
      refine ⟨scope, 0, ?_, ?_⟩
      · rw [← hctx]
        rfl
      · rintro _ ⟨⟩
        rfl
  | cons range rest ih =>
      obtain ⟨span, var, collection, mode⟩ := range
      rw [openRanges, exec_bind, exec_term]
      cases collection.lower ctx with
      | error e =>
          refine ⟨scope, 0, ?_, ?_⟩
          · rw [← hctx]
            rfl
          · rintro _ ⟨⟩
      | ok c =>
          have hdeclare : ctx.declare var = { ctx with scopes := (var :: scope) :: outer } := by
            rw [Context.declare, hctx]
          obtain ⟨scope', n, hstate, hlength⟩ :=
            @ih (ctx.declare var).openBlock (var :: scope) (by rw [hdeclare]; rfl)
          refine ⟨scope', n + 1, ?_, ?_⟩
          all_goals
            dsimp only
            rw [exec_bind_of_ok (exec_declare var ctx), exec_bind_of_ok (exec_openBlock _),
              exec_bind]
            rcases hrest : (openRanges rest).exec (ctx.declare var).openBlock with ⟨e | loops, ctx'⟩
            all_goals rw [hrest] at hstate hlength
          · rw [hdeclare] at hstate
            exact hstate
          · rw [hdeclare] at hstate
            exact hstate
          · rintro _ ⟨⟩
          · rintro _ ⟨⟩
            rw [List.length_cons, hlength loops rfl]

/-- Loops around a step and their scope are gone when the step succeeds. -/
theorem Lower.Restores.loops {α β : Type} {step : Lower α} (hstep : Restores step)
    (ranges : List Range) (condition : Option String) (last : α → Stmt)
    {rest : List Loop → α → Lower β} (hrest : ∀ loops a, Restores (rest loops a)) :
    Restores (do
      pushScope
      let loops ← openRanges ranges
      let a ← step
      Lower.emit (last a)
      closeRanges loops condition
      popScope
      rest loops a) := by
  intro ctx
  rw [exec_bind_of_ok (exec_pushScope ctx), exec_bind]
  obtain ⟨scope, n, hstate, hlength⟩ := @exists_exec_openRanges ranges ctx.push [] ctx.scopes rfl
  have hopen : ctx.Encloses (openBlocks { ctx with scopes := scope :: ctx.scopes } n) :=
    (Encloses.addScope ctx scope).trans (Encloses.openBlocks _ n)
  rcases hloops : (openRanges ranges).exec ctx.push with ⟨e | loops, inner⟩
  -- Where a collection cannot be lowered, the blocks opened up to there stay open.
  · rw [hloops] at hstate
    obtain rfl : inner = openBlocks { ctx with scopes := scope :: ctx.scopes } n := hstate
    exact hopen
  · rw [hloops] at hstate hlength
    obtain rfl : inner = openBlocks { ctx with scopes := scope :: ctx.scopes } n := hstate
    obtain rfl := hlength loops rfl
    dsimp only
    rw [exec_bind]
    have h := hstep (openBlocks { ctx with scopes := scope :: ctx.scopes } loops.length)
    rcases hrun : step.exec (openBlocks { ctx with scopes := scope :: ctx.scopes } loops.length)
      with ⟨e | a, ctx'⟩ <;> rw [hrun] at h
    · exact hopen.trans h
    · obtain ⟨k, stmts, hk, rfl⟩ := h
      dsimp only
      rw [exec_bind_of_ok (exec_emit _ _), emit_extend,
        exec_bind_of_ok (exec_closeRanges loops condition _ k _), exec_bind_of_ok (exec_popScope _)]
      have hle : ctx.temps ≤ k := Nat.le_trans hopen.temps hk
      exact (hrest loops a _).after ⟨k, Loop.nest condition loops (stmts ++ [last a]), hle, rfl⟩

open Lower

/-- Lowering a comparison of two terms leaves every state as it was. -/
theorem Clause.restores_comparison {target : Target} {span : Span} {lhs rhs : Term} {op : CmpOp}
    {mode : Mode} (hplain : lhs.isStatistic = false) :
    ((Clause.compare span lhs op rhs).lower target mode).Restores := by
  rw [Clause.lower_compare hplain]
  exact .bind (.term lhs) fun a => .bind (.term rhs) fun b => .pure _

/-- Lowering a clause leaves every state as it was, up to what is added to it. -/
theorem Clause.restores_lower (target : Target) :
    ∀ (c : Clause) (mode : Mode), (c.lower target mode).Restores
  | .forAll span ranges body, mode => by
      rw [Clause.lower]
      refine .bind .fresh fun result => ?_
      split
      · refine .bind .fresh fun pvalues => .bind (.emit _) fun _ => ?_
        exact .loops (body.restores_lower target .probability) ranges none _
          fun loops p => .bind (.emit _) fun _ => .pure _
      · refine .bind (.emit _) fun _ => ?_
        exact .loops (body.restores_lower target .boolean) ranges (some result) _
          fun loops holds => .pure _
  | .letIn span name value body, mode => by
      rw [Clause.lower]
      refine .bind (.term value) fun v => .bind (.emit _) fun _ => ?_
      exact .withName (body.restores_lower target mode) name
  | .membership span item collection, mode => by
      rw [Clause.lower]
      refine .bind (.term item) fun i => .bind (.ofExcept _) fun itemTy => ?_
      refine .bind (.term collection) fun c => .bind (.ofExcept _) fun ty => ?_
      cases ty with
      | sequence | map => exact .pure _
      | scalar | matrix => exact .throw _
  | .approx span lhs rhs, mode => by
      -- The steps after the check stand behind both of its outcomes.
      have hrest : Restores (do
          let expected ← term rhs
          let differences ← fresh
          let sample ← fresh
          emit (.set differences (.comprehension
            (.binary (.name sample) (.arith .sub) expected) sample (.name outputName)))
          return target.ofPValue mode
            (target.library.wilcoxonPValue (.name differences))) := by
        refine .bind (.term rhs) fun expected => .bind .fresh fun differences => ?_
        exact .bind .fresh fun sample => .bind (.emit _) fun _ => .pure _
      rw [Clause.lower]
      split
      · exact hrest
      · exact .bind (.throw _) fun _ => hrest
  | .compare span (.probability note trials body) op rhs, mode => by
      rw [Clause.lower]
      refine .bind (.requireAlternative _ op) fun alternative => .bind .fresh fun count => ?_
      refine .bind (.emit _) fun _ => .bind .fresh fun index => ?_
      exact .block (.withTrial (body.restores_lower target .boolean) index) _
        fun hit loopBody => .bind (.emit _) fun _ => .bind (.term rhs) fun _ => .pure _
  | .compare span (.probabilityOverItems note ranges body) op rhs, mode => by
      rw [Clause.lower]
      refine .bind (.requireAlternative _ op) fun alternative => .bind .fresh fun count => ?_
      refine .bind (.emit _) fun _ => ?_
      exact .loops (body.restores_lower target .boolean) ranges none _
        fun loops hit => .bind (.term rhs) fun _ => .pure _
  | .compare span (.expectation note trials body) op rhs, mode => by
      have hrest (clause : Clause) : Restores (do
          let expected ← term rhs
          tTest target clause (.name outputName) expected op mode) :=
        .bind (.term rhs) fun expected => .tTest _ _ _ _ _ _
      rw [Clause.lower]
      split
      · exact hrest _
      · exact .bind (.throw _) fun _ => hrest _
  | .compare span (.expectationOverItems note ranges body) op rhs, mode => by
      rw [Clause.lower]
      refine .bind .fresh fun samples => .bind (.emit _) fun _ => ?_
      exact .loops (.term body) ranges none _
        fun loops value => .bind (.term rhs) fun expected => .tTest _ _ _ _ _ _
  | .compare _ (.constant ..) _ _, _ | .compare _ (.lookup ..) _ _, _
  | .compare _ (.identifier ..) _ _, _ | .compare _ (.tuple ..) _ _, _
  | .compare _ (.binary ..) _ _, _ | .compare _ (.sizeOf ..) _ _, _ | .compare _ (.call ..) _ _, _ =>
      restores_comparison rfl
  | .logic span lhs op rhs, mode => by
      rw [Clause.lower_logic]
      refine .bind (lhs.restores_lower target mode) fun a => ?_
      exact .bind (rhs.restores_lower target mode) fun b => .pure _
  | .not span inner, mode => by
      rw [Clause.lower_not]
      exact .bind (inner.restores_lower target mode) fun v => .pure _

/-- Lowering a clause restores its context, whatever state it starts in. When it succeeds, the
scopes, the trial under consideration and the blocks around the current one are as before,
the current block has only been added to at its end, and the number of temporaries has not
decreased. When it fails, the trial is restored all the same, the scopes of the caller are
still there below any others, and so are its blocks, of which only the innermost has been
added to at its end. Lowering a term changes nothing in either case. -/
theorem Clause.lower_restores_context (target : Target) (c : Clause) (mode : Mode)
    (ctx : Context) :
    (∀ v ctx', (c.lower target mode).exec ctx = (.ok v, ctx') →
      ctx'.scopeStack = ctx.scopeStack ∧ ctx'.trial = ctx.trial ∧
      ctx'.blockStack.length = ctx.blockStack.length ∧
      (∃ stmts, ctx'.blockStack = ctx.enclosing.reverse ++ [ctx.block ++ stmts]) ∧
      ctx.temps ≤ ctx'.temps) ∧
    (∀ e ctx', (c.lower target mode).exec ctx = (.error e, ctx') →
      ctx'.trial = ctx.trial ∧ ctx.scopeStack <+: ctx'.scopeStack ∧
      ∃ stmts inner, ctx'.blockStack = ctx.enclosing.reverse ++ (ctx.block ++ stmts) :: inner) ∧
    ∀ t : Term, ((Lower.term t).exec ctx).2 = ctx := by
  have h := c.restores_lower target mode ctx
  refine ⟨?_, ?_, ?_⟩
  · intro v ctx' hrun
    rw [hrun] at h
    obtain ⟨k, stmts, hk, rfl⟩ := h
    exact ⟨rfl, rfl, by simp [blockStack, extend], ⟨stmts, rfl⟩, hk⟩
  · intro e ctx' hrun
    rw [hrun] at h
    have h : ctx.Encloses ctx' := h
    obtain ⟨_, inner, ⟨stmts, rfl⟩, hblocks⟩ := h.exists_blockStack
    exact ⟨h.trial, h.scopeStack_isPrefix, stmts, inner, hblocks⟩
  · intro t
    rw [exec_term]

/-- With a name for a number, all elements of the output exceed a bound in most runs. -/
def mostlyAbove (bound : Term) : Clause :=
  .letIn .dummy "n" (.constant {} "1") (.compare .dummy
    (.probability {} .runs (.forAll .dummy [.mk .dummy "x" (.identifier {} "Output") .elements]
      (.compare .dummy (.identifier {} "x") .gt bound)))
    .ge (.constant {} "0.9"))

/-- A mean as the bound is a defect in the innermost block. The scope of the quantifier is still
there then, and the one that the `let` leaves is the quantifier's and not its own. A number as
the bound is no defect. -/
theorem Clause.lower_restores_context_mostlyAbove :
    (∃ e ctx', ((mostlyAbove (.expectation {} .runs (.identifier {} "Output"))).lower {}
        .boolean).exec (Context.start ["Output", "Runs"]) = (.error e, ctx') ∧
      ctx'.trial = none ∧ ctx'.scopeStack = [["Output", "Runs"], ["n"]] ∧
      ctx'.blockStack.length = 3 ∧ ∃ stmts inner, ctx'.blockStack = stmts :: inner) ∧
    ∃ v ctx', ((mostlyAbove (.constant {} "0")).lower {} .boolean).exec
        (Context.start ["Output", "Runs"]) = (.ok v, ctx') ∧
      ctx'.scopeStack = [["Output", "Runs"]] ∧ ctx'.blockStack.length = 1 := by
  constructor
  · obtain ⟨e, ctx', hrun, hscopes, hlength⟩ : ∃ e ctx',
        ((mostlyAbove (.expectation {} .runs (.identifier {} "Output"))).lower {}
          .boolean).exec (Context.start ["Output", "Runs"]) = (.error e, ctx') ∧
        ctx'.scopeStack = [["Output", "Runs"], ["n"]] ∧ ctx'.blockStack.length = 3 :=
      ⟨_, _, rfl, rfl, rfl⟩
    obtain ⟨htrial, -, stmts, inner, hblocks⟩ :=
      (lower_restores_context _ _ _ _).2.1 e ctx' hrun
    exact ⟨e, ctx', hrun, htrial, hscopes, hlength, _, inner, hblocks⟩
  · obtain ⟨v, ctx', hrun⟩ : ∃ v ctx', ((mostlyAbove (.constant {} "0")).lower {} .boolean).exec
        (Context.start ["Output", "Runs"]) = (.ok v, ctx') := ⟨_, _, rfl⟩
    obtain ⟨hscopes, -, hlength, -⟩ := (lower_restores_context _ _ _ _).1 v ctx' hrun
    exact ⟨v, ctx', hrun, hscopes, hlength⟩

end StatContract
