import StatContract.Proofs.Lowering.Watch
import StatContract.Proofs.Typing.Analysis

/-!
# The scopes of the analysis and of lowering

The analysis and lowering each keep a stack of scopes of their own, enter and leave
scopes at places of their own, and define names on their own. Both see the same
scopes at the same term: whenever lowering of an analysed clause arrives at a term,
the names bound around it are those of the environment that the analysis had when it
came there (`Clause.keeps_watch`).

The invariant is `Watched.Keeps`, which says in which scopes a step starts, in which
it ends, and that every arrival on the way is at an inspected term with its scopes.
-/

namespace StatContract

namespace TypeEnv

/-- The names of the enclosing binders, scope by scope, innermost first. -/
def binderScopes (env : TypeEnv) : List (List String) := env.inner.map (·.map Prod.fst)

theorem binderScopes_push (env : TypeEnv) : env.push.binderScopes = [] :: env.binderScopes := rfl

theorem binderScopes_define {env : TypeEnv} {scope : List String} {outer : List (List String)}
    (h : env.binderScopes = scope :: outer) (name : String) (ty : ValueType) :
    (env.define name ty).binderScopes = (name :: scope) :: outer := by
  rcases env with ⟨_ | ⟨inner, rest⟩, declared⟩
  · cases h
  · cases h
    rfl

end TypeEnv

theorem Context.scopes_declare {ctx : Context} {scope : List String} {outer : List (List String)}
    (h : ctx.scopes = scope :: outer) (name : String) :
    (ctx.declare name).scopes = (name :: scope) :: outer ∧
      (ctx.declare name).names = ctx.names := by
  rw [Context.declare, h]
  exact ⟨rfl, rfl⟩

/-- The term is one that the analysis has looked at, as the analysis left it, and
lowering arrives at it in the scopes that the analysis had then. -/
structure Arrival.Matches (v : Arrival) (w : Inspection) : Prop where
  path_eq : w.path = v.path
  term_eq : v.term = (w.term.typecheck w.env).1.1
  scopes_eq : v.state.scopes = w.env.binderScopes

/-- A term is noted itself. -/
theorem Term.mem_inspect (t : Term) (path : TreePath) (env : TypeEnv) :
    ⟨path, t, env⟩ ∈ (t.inspect path env).1 := by
  cases t <;> rw [Term.inspect] <;> exact List.mem_cons_self

namespace Lower

variable {α β : Type}

/-- The step leaves scopes and names as they are, whatever its result. -/
def Steady (x : Lower α) : Prop :=
  ∀ ctx, (x.exec ctx).2.scopes = ctx.scopes ∧ (x.exec ctx).2.names = ctx.names

namespace Steady

theorem pure (a : α) : Steady (Pure.pure a : Lower α) := fun _ => ⟨rfl, rfl⟩

theorem throw (e : SpecError) : Steady (MonadExcept.throw e : Lower α) := fun _ => ⟨rfl, rfl⟩

theorem bind {x : Lower α} {f : α → Lower β} (hx : Steady x) (hf : ∀ a, Steady (f a)) :
    Steady (x >>= f) := by
  intro ctx
  have hx := hx ctx
  rw [exec_bind]
  rcases h : x.exec ctx with ⟨e | a, ctx'⟩ <;> rw [h] at hx
  · exact hx
  · exact ⟨(hf a ctx').1.trans hx.1, (hf a ctx').2.trans hx.2⟩

theorem fresh : Steady Lower.fresh := fun _ => ⟨rfl, rfl⟩

theorem emit (s : Stmt) : Steady (Lower.emit s) := fun _ => ⟨rfl, rfl⟩

theorem openBlock : Steady Lower.openBlock := fun _ => ⟨rfl, rfl⟩

theorem closeBlock : Steady Lower.closeBlock := by
  intro ctx
  rw [exec_closeBlock, Context.closeBlock]
  cases ctx.enclosing <;> exact ⟨rfl, rfl⟩

theorem ofExcept (r : Except SpecError α) : Steady (MonadExcept.ofExcept r : Lower α) := by
  intro ctx
  rw [exec_ofExcept]
  exact ⟨rfl, rfl⟩

theorem forM {γ : Type} {f : γ → Lower PUnit} (hf : ∀ c, Steady (f c)) :
    ∀ cs : List γ, Steady (cs.forM f)
  | [] => .pure _
  | c :: cs => .bind (hf c) fun _ => forM hf cs

theorem closeRanges (loops : List Loop) (condition : Option String) :
    Steady (Lower.closeRanges loops condition) := by
  refine forM (fun loop => ?_) _
  have hclose : Steady (Lower.closeBlock >>= fun body =>
      Lower.emit (.forIn loop.var loop.source body)) := .bind .closeBlock fun _ => .emit _
  cases condition with
  | none => exact hclose
  | some name => exact .bind (.emit _) fun _ => hclose

theorem requireAlternative (c : Clause) (op : CmpOp) : Steady (Lower.requireAlternative c op) := by
  rw [Lower.requireAlternative]
  cases op.alternative? with
  | none => exact .throw _
  | some alternative => exact .pure _

theorem tTest (target : Target) (c : Clause) (samples expected : Code) (op : CmpOp)
    (mode : Mode) : Steady (Lower.tTest target c samples expected op mode) := by
  refine .bind .fresh fun result => .bind (.emit _) fun _ => ?_
  cases mode <;> cases op <;> first | exact .pure _ | exact .throw _

end Steady

end Lower

namespace Watched

variable {α β : Type} {names : List String} {seen more : List Inspection}
  {S S' S'' : List (List String)}

/-- Among the given names and from the first scopes on, the step arrives only at
terms that were looked at, in their scopes, and when it succeeds it ends in the
second scopes. -/
def Keeps (names : List String) (seen : List Inspection) (x : Watched α)
    (S S' : List (List String)) : Prop :=
  ∀ ctx : Context, ctx.names = names → ctx.scopes = S →
    (∀ v ∈ (x ctx).1, v.state.names = names ∧ ∃ w ∈ seen, v.Matches w) ∧
      ∀ a ctx', (x ctx).2 = (.ok a, ctx') → ctx'.names = names ∧ ctx'.scopes = S'

namespace Keeps

theorem pure (a : α) : Keeps names seen (Pure.pure a) S S := by
  intro ctx hnames hscopes
  refine ⟨List.forall_mem_nil _, ?_⟩
  rintro _ _ ⟨⟩
  exact ⟨hnames, hscopes⟩

theorem bind {x : Watched α} {f : α → Watched β} (hx : Keeps names seen x S S')
    (hf : ∀ a, Keeps names seen (f a) S' S'') : Keeps names seen (x >>= f) S S'' := by
  intro ctx hnames hscopes
  obtain ⟨harrivals, hend⟩ := hx ctx hnames hscopes
  rcases hr : (x ctx).2 with ⟨e | a, ctx'⟩
  · rw [bind_of_error hr]
    refine ⟨harrivals, ?_⟩
    rintro _ _ ⟨⟩
  · obtain ⟨hnames', hscopes'⟩ := hend a ctx' hr
    obtain ⟨harrivals', hend'⟩ := hf a ctx' hnames' hscopes'
    rw [bind_of_ok hr]
    refine ⟨fun v hv => ?_, hend'⟩
    rcases List.mem_append.1 hv with hv | hv
    · exact harrivals v hv
    · exact harrivals' v hv

theorem mono {x : Watched α} (h : Keeps names seen x S S') (hsub : seen ⊆ more) :
    Keeps names more x S S' := by
  intro ctx hnames hscopes
  obtain ⟨harrivals, hend⟩ := h ctx hnames hscopes
  refine ⟨fun v hv => ?_, hend⟩
  obtain ⟨hnames, w, hw, hmatches⟩ := harrivals v hv
  exact ⟨hnames, w, hsub hw, hmatches⟩

theorem ofSteady {x : Lower α} (h : x.Steady) : Keeps names seen (ofStep x) S S := by
  intro ctx hnames hscopes
  refine ⟨List.forall_mem_nil _, fun a ctx' hr => ?_⟩
  obtain ⟨hscopes', hnames'⟩ := h ctx
  rw [show x.exec ctx = (.ok a, ctx') from hr] at hscopes' hnames'
  exact ⟨hnames'.trans hnames, hscopes'.trans hscopes⟩

theorem ofResult (r : Except SpecError α) : Keeps names seen (Watched.ofResult r) S S := by
  intro ctx hnames hscopes
  refine ⟨List.forall_mem_nil _, ?_⟩
  rintro _ _ ⟨⟩
  exact ⟨hnames, hscopes⟩

theorem term (t : Term) : Keeps names seen (ofStep (Lower.term t)) S S := by
  refine ofSteady fun ctx => ?_
  rw [Lower.exec_term]
  exact ⟨rfl, rfl⟩

theorem pushScope : Keeps names seen (ofStep Lower.pushScope) S ([] :: S) := by
  intro ctx hnames hscopes
  refine ⟨List.forall_mem_nil _, ?_⟩
  rintro _ _ ⟨⟩
  exact ⟨hnames, congrArg ([] :: ·) hscopes⟩

theorem popScope (scope : List String) :
    Keeps names seen (ofStep Lower.popScope) (scope :: S) S := by
  intro ctx hnames hscopes
  refine ⟨List.forall_mem_nil _, ?_⟩
  rintro _ _ ⟨⟩
  exact ⟨hnames, congrArg List.tail hscopes⟩

theorem declare (scope : List String) (name : String) :
    Keeps names seen (ofStep (Lower.declare name)) (scope :: S) ((name :: scope) :: S) := by
  intro ctx hnames hscopes
  refine ⟨List.forall_mem_nil _, ?_⟩
  rintro _ _ ⟨⟩
  obtain ⟨hscopes', hnames'⟩ := Context.scopes_declare hscopes name
  exact ⟨hnames'.trans hnames, hscopes'⟩

theorem withName {x : Watched α} {name : String} {scope : List String}
    (h : Keeps names seen x ([name] :: S) (scope :: S)) :
    Keeps names seen (x.withName name) S S := by
  intro ctx hnames hscopes
  obtain ⟨hscopes', hnames'⟩ :=
    Context.scopes_declare (show ctx.push.scopes = [] :: S from congrArg ([] :: ·) hscopes) name
  obtain ⟨harrivals, hend⟩ := h (ctx.push.declare name) (hnames'.trans hnames) hscopes'
  refine ⟨harrivals, fun a ctx' hr => ?_⟩
  obtain ⟨hresult, rfl⟩ := Prod.mk.inj hr
  obtain ⟨hnames, hscopes⟩ := hend a _ (Prod.ext hresult rfl)
  exact ⟨hnames, congrArg List.tail hscopes⟩

theorem withTrial {x : Watched α} {index : String} (h : Keeps names seen x S S') :
    Keeps names seen (x.withTrial index) S S' := by
  intro ctx hnames hscopes
  obtain ⟨harrivals, hend⟩ := h { ctx with trial := some index } hnames hscopes
  refine ⟨harrivals, fun a ctx' hr => ?_⟩
  obtain ⟨hresult, rfl⟩ := Prod.mk.inj hr
  obtain ⟨hnames, hscopes⟩ := hend a _ (Prod.ext hresult rfl)
  exact ⟨hnames, hscopes⟩

/-- Lowering arrives at a term that the analysis has looked at. -/
theorem arrive (names : List String) {t t' : Term} {env env' : TypeEnv} {path : TreePath}
    {r : Except SpecError ValueType} (h : t.inspect path env = (seen, (t', r), env')) :
    Keeps names seen (Watched.arrive path t') env.binderScopes env.binderScopes := by
  intro ctx hnames hscopes
  constructor
  · intro v hv
    obtain rfl := List.mem_singleton.1 hv
    have hmem := t.mem_inspect path env
    have hfollows := t.follows_inspect path env
    rw [h] at hmem hfollows
    exact ⟨hnames, ⟨path, t, env⟩, hmem, rfl, congrArg (·.1.1) hfollows, hscopes⟩
  · rintro _ _ ⟨⟩
    exact ⟨hnames, hscopes⟩

end Keeps

end Watched

open Watched Inspected

/-- A statistic stays one when it is analysed, and so does a term that is none. -/
theorem Term.isStatistic_analyze (t : Term) (env : TypeEnv) :
    (t.analyze env).1.isStatistic = t.isStatistic := by
  cases t <;> rw [Term.analyze] <;> (repeat' split) <;> rfl

theorem Term.isStatistic_of_inspect {t t' : Term} {env env' : TypeEnv} {path : TreePath}
    {seen : List Inspection} {r : Except SpecError ValueType}
    (h : t.inspect path env = (seen, (t', r), env')) : t'.isStatistic = t.isStatistic := by
  have hanalyze := (t.gives_typecheck env).fst_eq
  rw [← t.follows_inspect path env, h] at hanalyze
  rw [← t.isStatistic_analyze env, ← hanalyze]

/-- Lowering as a term does not look into a statistic. -/
theorem Term.keeps_watch_of_isStatistic (names : List String) {t t' : Term}
    (hstatistic : t.isStatistic = true) {τ : ValueType} {env env' : TypeEnv} {path : TreePath}
    {seen : List Inspection} (h : t.inspect path env = (seen, (t', .ok τ), env')) :
    Keeps names seen (t'.watch path) env.binderScopes env.binderScopes := by
  have harrive := Keeps.arrive names h
  have hstatistic' := Term.isStatistic_of_inspect h
  rw [hstatistic] at hstatistic'
  cases t' <;> first | exact .bind harrive fun _ => .term _ | cases hstatistic'

mutual

theorem Term.keeps_watch (names : List String) : ∀ (t : Term) {t' : Term} {τ : ValueType}
    {env env' : TypeEnv} {path : TreePath} {seen : List Inspection},
    t.inspect path env = (seen, (t', .ok τ), env') →
      Keeps names seen (t'.watch path) env.binderScopes env.binderScopes
  | .constant note value, t', τ, env, env', path, seen, h => by
      have harrive := Keeps.arrive names h
      rw [Term.inspect] at h
      cases h
      exact .bind harrive fun _ => .term _
  | .identifier note name, t', τ, env, env', path, seen, h => by
      have harrive := Keeps.arrive names h
      rw [Term.inspect] at h
      cases h
      exact .bind harrive fun _ => .term _
  | .probability .., _, _, _, _, _, _, h | .probabilityOverItems .., _, _, _, _, _, _, h
  | .expectation .., _, _, _, _, _, _, h | .expectationOverItems .., _, _, _, _, _, _, h =>
      Term.keeps_watch_of_isStatistic names rfl h
  | .lookup note collection key, t', τ, env, env', path, seen, h => by
      have harrive := Keeps.arrive names h
      rw [Term.inspect] at h
      obtain ⟨_, rfl, h₁⟩ := exists_of_visit h
      obtain ⟨seenC, collection', τC, env₁, _, rfl, hc, h₂⟩ :=
        exists_of_bind_ok h₁ fun _ _ => ⟨_, rfl⟩
      obtain rfl := Term.env_eq_of_inspect hc
      obtain ⟨seenK, key', τK, env₂, _, rfl, hk, h₃⟩ := exists_of_bind_ok h₂ fun _ _ => ⟨_, rfl⟩
      dsimp only at h₃
      cases hentry : τC.entry? with
      | none => rw [hentry] at h₃; cases h₃
      | some entry =>
          rw [hentry] at h₃
          cases h₃
          refine .bind harrive fun _ => ?_
          refine .bind ((Term.keeps_watch names collection hc).mono (by simp)) fun c => ?_
          refine .bind ((Term.keeps_watch names key hk).mono (by simp)) fun k => ?_
          exact .ofResult _
  | .tuple note elements, t', τ, env, env', path, seen, h => by
      have harrive := Keeps.arrive names h
      rw [Term.inspect] at h
      obtain ⟨_, rfl, h₁⟩ := exists_of_visit h
      obtain ⟨seenE, elements', types, env₁, _, rfl, he, h₂⟩ :=
        exists_of_bind_ok h₁ fun _ _ => ⟨_, rfl⟩
      cases h₂
      refine .bind harrive fun _ => ?_
      exact .bind ((Term.keeps_watchList names elements he).mono (by simp)) fun items => .pure _
  | .binary note lhs op rhs, t', τ, env, env', path, seen, h => by
      have harrive := Keeps.arrive names h
      rw [Term.inspect] at h
      obtain ⟨_, rfl, h₁⟩ := exists_of_visit h
      obtain ⟨seenL, lhs', τL, env₁, _, rfl, hl, h₂⟩ := exists_of_bind_ok h₁ fun _ _ => ⟨_, rfl⟩
      obtain rfl := Term.env_eq_of_inspect hl
      obtain ⟨seenR, rhs', τR, env₂, _, rfl, hr, h₃⟩ := exists_of_bind_ok h₂ fun _ _ => ⟨_, rfl⟩
      dsimp only at h₃
      split at h₃
      · cases h₃
        refine .bind harrive fun _ => ?_
        refine .bind (.ofResult _) fun lhsTy => .bind (.ofResult _) fun rhsTy => ?_
        have hlhs : Keeps names (⟨path, .binary note lhs op rhs, env₁⟩ :: (seenL ++ (seenR ++ [])))
            (lhs'.watch (path ++ [0])) env₁.binderScopes env₁.binderScopes :=
          (Term.keeps_watch names lhs hl).mono (by simp)
        have hrhs : Keeps names (⟨path, .binary note lhs op rhs, env₁⟩ :: (seenL ++ (seenR ++ [])))
            (rhs'.watch (path ++ [1])) env₁.binderScopes env₁.binderScopes :=
          (Term.keeps_watch names rhs hr).mono (by simp)
        dsimp only
        -- A failed check on the types ends the lowering, so it need not be excluded here.
        by_cases hne : lhsTy ≠ rhsTy
        · rw [if_pos hne]
          refine .bind (.ofResult _) fun _ => ?_
          exact .bind hlhs fun a => .bind hrhs fun b => .ofResult _
        · rw [if_neg hne]
          exact .bind hlhs fun a => .bind hrhs fun b => .ofResult _
      · cases h₃
  | .sizeOf note collection, t', τ, env, env', path, seen, h => by
      have harrive := Keeps.arrive names h
      rw [Term.inspect] at h
      obtain ⟨_, rfl, h₁⟩ := exists_of_visit h
      obtain ⟨seenC, collection', τC, env₁, _, rfl, hc, h₂⟩ :=
        exists_of_bind_ok h₁ fun _ _ => ⟨_, rfl⟩
      cases h₂
      refine .bind harrive fun _ => ?_
      exact .bind ((Term.keeps_watch names collection hc).mono (by simp)) fun c => .pure _
  | .call note name args, t', τ, env, env', path, seen, h => by
      have harrive := Keeps.arrive names h
      rw [Term.inspect] at h
      obtain ⟨_, rfl, h₁⟩ := exists_of_visit h
      obtain ⟨seenA, args', types, env₁, _, rfl, ha, h₂⟩ := exists_of_bind_ok h₁ fun _ _ => ⟨_, rfl⟩
      cases h₂
      refine .bind harrive fun _ => ?_
      exact .bind ((Term.keeps_watchList names args ha).mono (by simp)) fun args => .pure _

theorem Term.keeps_watchList (names : List String) : ∀ (ts : List Term) {ts' : List Term}
    {types : List ValueType} {env env' : TypeEnv} {path : TreePath} {i : Nat}
    {seen : List Inspection}, Term.inspectList ts path i env = (seen, (ts', .ok types), env') →
      Keeps names seen (Term.watchList path i ts') env.binderScopes env.binderScopes
  | [], ts', types, env, env', path, i, seen, h => by
      rw [Term.inspectList] at h
      cases h
      exact .pure _
  | t :: rest, ts', types, env, env', path, i, seen, h => by
      rw [Term.inspectList] at h
      obtain ⟨seenT, t', τ, env₁, _, rfl, ht, h₁⟩ := exists_of_bind_ok h fun _ _ => ⟨_, rfl⟩
      obtain rfl := Term.env_eq_of_inspect ht
      obtain ⟨seenR, rest', types', env₂, _, rfl, hr, h₂⟩ :=
        exists_of_bind_ok h₁ fun _ _ => ⟨_, rfl⟩
      cases h₂
      refine .bind ((Term.keeps_watch names t ht).mono (by simp)) fun c => ?_
      exact .bind ((Term.keeps_watchList names rest hr).mono (by simp)) fun cs => .pure _

end

/-- Lowering ranges binds the names that analysing them does. -/
theorem Range.keeps_watchAll (names : List String) : ∀ (ranges : List Range)
    {ranges' : List Range} {env env' : TypeEnv} {path : TreePath} {i : Nat}
    {seen : List Inspection} {scope : List String} {outer : List (List String)},
    Range.inspectList ranges path i env = (seen, (ranges', .ok ()), env') →
    env.binderScopes = scope :: outer →
      ∃ scope', env'.binderScopes = scope' :: outer ∧
        Keeps names seen (Range.watchAll path i ranges') (scope :: outer) (scope' :: outer)
  | [], ranges', env, env', path, i, seen, scope, outer, h, hscopes => by
      rw [Range.inspectList] at h
      cases h
      exact ⟨scope, hscopes, .pure _⟩
  | .mk span var collection mode :: rest, ranges', env, env', path, i, seen, scope, outer, h,
      hscopes => by
      rw [Range.inspectList] at h
      obtain ⟨seenC, collection', τ, env₁, _, rfl, hc, h₁⟩ :=
        exists_of_bind_ok h fun _ _ => ⟨_, rfl⟩
      obtain rfl := Term.env_eq_of_inspect hc
      dsimp only at h₁
      cases helement : τ.element? with
      | none => rw [helement] at h₁; cases h₁
      | some element =>
          rw [helement] at h₁
          have h₂ := eq_of_modify h₁
          obtain ⟨seenR, rest', _, env₂, _, rfl, hr, h₃⟩ := exists_of_bind_ok h₂ fun _ _ => ⟨_, rfl⟩
          cases h₃
          obtain ⟨scope', hscopes', hrest⟩ := Range.keeps_watchAll names rest hr
            (TypeEnv.binderScopes_define hscopes var (mode.varType element))
          have hcollection := Term.keeps_watch names collection hc
          rw [hscopes] at hcollection
          refine ⟨scope', hscopes', ?_⟩
          refine .bind (hcollection.mono (by simp)) fun c => ?_
          refine .bind (.declare scope var) fun _ => .bind (.ofSteady .openBlock) fun _ => ?_
          exact .bind (hrest.mono (by simp)) fun loops => .pure _

theorem Clause.watch_compare {lhs : Term} (h : lhs.isStatistic = false) (target : Target)
    (span : Span) (op : CmpOp) (rhs : Term) (path : TreePath) (mode : Mode) :
    (Clause.compare span lhs op rhs).watch target path mode = (do
      let a ← lhs.watch (path ++ [0])
      let b ← rhs.watch (path ++ [1])
      return .ofCondition mode (.group a (.compare op) b)) := by
  cases lhs <;> first | rfl | cases h

/-- The right side of a comparison is checked in the environment of its left side. -/
theorem Clause.exists_of_inspect_compare {span : Span} {lhs rhs : Term} {op : CmpOp} {c' : Clause}
    {env env' : TypeEnv} {path : TreePath} {seen : List Inspection}
    (h : (Clause.compare span lhs op rhs).inspect path env = (seen, (c', .ok ()), env')) :
    ∃ seenL lhs' τ env₁ seenR rhs' σ env₂,
      lhs.inspect (path ++ [0]) env = (seenL, (lhs', .ok τ), env₁) ∧
      rhs.inspect (path ++ [1]) env = (seenR, (rhs', .ok σ), env₂) ∧ seen = seenL ++ seenR ∧
      c' = .compare span lhs' op rhs' := by
  rw [Clause.inspect] at h
  obtain ⟨seenL, lhs', τ, env₁, _, rfl, hl, h₁⟩ := exists_of_bind_ok h fun _ _ => ⟨_, rfl⟩
  obtain rfl := Term.env_eq_of_inspect hl
  obtain ⟨seenR, rhs', σ, env₂, _, rfl, hr, h₂⟩ := exists_of_bind_ok h₁ fun _ _ => ⟨_, rfl⟩
  cases h₂
  exact ⟨seenL, lhs', τ, _, seenR, rhs', σ, _, hl, hr, by rw [List.append_nil], rfl⟩

/-- A comparison without a statistic on its left arrives at its two sides. -/
theorem Clause.keeps_comparison (names : List String) (target : Target) {span : Span}
    {lhs rhs : Term} {op : CmpOp} {c' : Clause} (hplain : lhs.isStatistic = false)
    {env env' : TypeEnv} {path : TreePath} {seen : List Inspection} (mode : Mode)
    (h : (Clause.compare span lhs op rhs).inspect path env = (seen, (c', .ok ()), env')) :
    Keeps names seen (c'.watch target path mode) env.binderScopes env.binderScopes := by
  obtain ⟨seenL, lhs', τ, _, seenR, rhs', σ, _, hl, hr, rfl, rfl⟩ := exists_of_inspect_compare h
  rw [Clause.watch_compare ((Term.isStatistic_of_inspect hl).trans hplain)]
  refine .bind ((lhs.keeps_watch names hl).mono (by simp)) fun a => ?_
  exact .bind ((rhs.keeps_watch names hr).mono (by simp)) fun b => .pure _

/-- Wherever lowering of an analysed clause arrives, it is in the scopes of the
analysis, and it leaves the scopes that it enters. -/
theorem Clause.keeps_watch (names : List String) (target : Target) : ∀ (c : Clause)
    {c' : Clause} {env env' : TypeEnv} {path : TreePath} {seen : List Inspection} (mode : Mode),
    c.inspect path env = (seen, (c', .ok ()), env') →
      Keeps names seen (c'.watch target path mode) env.binderScopes env.binderScopes
  | .forAll span ranges body, c', env, env', path, seen, mode, h => by
      rw [Clause.inspect] at h
      have h₁ := eq_of_modify h
      obtain ⟨seenR, ranges', _, env₁, _, rfl, hr, h₂⟩ := exists_of_bind_ok h₁ fun _ _ => ⟨_, rfl⟩
      obtain ⟨seenB, body', _, env₂, _, rfl, hb, h₃⟩ := exists_of_bind_ok h₂ fun _ _ => ⟨_, rfl⟩
      cases h₃
      obtain ⟨scope, hscope, hranges⟩ :=
        Range.keeps_watchAll names ranges hr env.binderScopes_push
      -- The mode in which the body is lowered depends on what the ranges are over.
      have hbody := fun mode => body.keeps_watch names target mode hb
      rw [hscope] at hbody
      rw [Clause.watch]
      refine .bind (.ofSteady .fresh) fun result => ?_
      split
      · refine .bind (.ofSteady .fresh) fun pvalues => .bind (.ofSteady (.emit _)) fun _ => ?_
        refine .bind .pushScope fun _ => .bind (hranges.mono (by simp)) fun loops => ?_
        refine .bind ((hbody .probability).mono (by simp)) fun p => ?_
        refine .bind (.ofSteady (.emit _)) fun _ => ?_
        refine .bind (.ofSteady (.closeRanges _ _)) fun _ => ?_
        exact .bind (.popScope scope) fun _ => .bind (.ofSteady (.emit _)) fun _ => .pure _
      · refine .bind (.ofSteady (.emit _)) fun _ => ?_
        refine .bind .pushScope fun _ => .bind (hranges.mono (by simp)) fun loops => ?_
        refine .bind ((hbody .boolean).mono (by simp)) fun holds => ?_
        refine .bind (.ofSteady (.emit _)) fun _ => ?_
        refine .bind (.ofSteady (.closeRanges _ _)) fun _ => ?_
        exact .bind (.popScope scope) fun _ => .pure _
  | .letIn span name value body, c', env, env', path, seen, mode, h => by
      rw [Clause.inspect] at h
      obtain ⟨seenV, value', τ, env₁, _, rfl, hv, h₁⟩ := exists_of_bind_ok h fun _ _ => ⟨_, rfl⟩
      obtain rfl := Term.env_eq_of_inspect hv
      have h₂ := eq_of_modify h₁
      have h₃ := eq_of_modify h₂
      obtain ⟨seenB, body', _, env₂, _, rfl, hb, h₄⟩ := exists_of_bind_ok h₃ fun _ _ => ⟨_, rfl⟩
      cases h₄
      have hbody := body.keeps_watch names target mode hb
      rw [TypeEnv.binderScopes_define env₁.binderScopes_push] at hbody
      refine .bind ((value.keeps_watch names hv).mono (by simp)) fun v => ?_
      exact .bind (.ofSteady (.emit _)) fun _ => .withName (hbody.mono (by simp))
  | .membership span item collection, c', env, env', path, seen, mode, h => by
      rw [Clause.inspect] at h
      obtain ⟨seenI, item', τ, env₁, _, rfl, hi, h₁⟩ := exists_of_bind_ok h fun _ _ => ⟨_, rfl⟩
      obtain rfl := Term.env_eq_of_inspect hi
      obtain ⟨seenC, collection', σ, env₂, _, rfl, hc, h₂⟩ :=
        exists_of_bind_ok h₁ fun _ _ => ⟨_, rfl⟩
      cases h₂
      refine .bind ((item.keeps_watch names hi).mono (by simp)) fun i => ?_
      refine .bind (.ofSteady (.ofExcept _)) fun itemTy => ?_
      refine .bind ((collection.keeps_watch names hc).mono (by simp)) fun c => ?_
      refine .ofSteady (.bind (.ofExcept _) fun ty => ?_)
      cases ty <;> first | exact .pure _ | exact .throw _
  | .approx span lhs rhs, c', env, env', path, seen, mode, h => by
      rw [Clause.inspect] at h
      split at h
      · obtain ⟨seenL, lhs', τ, env₁, _, rfl, hl, h₁⟩ := exists_of_bind_ok h fun _ _ => ⟨_, rfl⟩
        obtain rfl := Term.env_eq_of_inspect hl
        obtain ⟨seenR, rhs', σ, env₂, _, rfl, hr, h₂⟩ := exists_of_bind_ok h₁ fun _ _ => ⟨_, rfl⟩
        cases h₂
        rw [Clause.watch]
        refine .bind (.ofSteady ?_) fun _ => ?_
        · cases lhs'.isIdentifier outputName
          · exact .throw _
          · exact .pure _
        · refine .bind ((rhs.keeps_watch names hr).mono (by simp)) fun expected => .ofSteady ?_
          refine .bind .fresh fun differences => .bind .fresh fun sample => ?_
          exact .bind (.emit _) fun _ => .pure _
      · cases h
  | .compare span (.probability note trials body) op rhs, c', env, env', path, seen, mode, h => by
      obtain ⟨seenL, lhs', τ, _, seenR, rhs', σ, _, hl, hr, rfl, rfl⟩ := exists_of_inspect_compare h
      rw [Term.inspect] at hl
      obtain ⟨_, rfl, hl₁⟩ := exists_of_visit hl
      obtain ⟨seenB, body', _, env₁, _, rfl, hb, hl₂⟩ := exists_of_bind_ok hl₁ fun _ _ => ⟨_, rfl⟩
      cases hl₂
      rw [Clause.watch]
      refine .bind (.ofSteady (.requireAlternative _ _)) fun alternative => ?_
      refine .bind (.ofSteady .fresh) fun count => .bind (.ofSteady (.emit _)) fun _ => ?_
      refine .bind (.ofSteady .fresh) fun index => .bind (.ofSteady .openBlock) fun _ => ?_
      -- Inside of a trial the output is read in another way, but the scopes are the same.
      refine .bind (.withTrial ((body.keeps_watch names target _ hb).mono (by simp))) fun hit => ?_
      refine .bind (.ofSteady (.emit _)) fun _ => .bind (.ofSteady .closeBlock) fun loopBody => ?_
      refine .bind (.ofSteady (.emit _)) fun _ => ?_
      exact .bind ((rhs.keeps_watch names hr).mono (by simp)) fun probability => .pure _
  | .compare span (.probabilityOverItems note ranges body) op rhs, c', env, env', path, seen,
      mode, h => by
      obtain ⟨seenL, lhs', τ, _, seenR, rhs', σ, _, hl, hr, rfl, rfl⟩ := exists_of_inspect_compare h
      rw [Term.inspect] at hl
      obtain ⟨_, rfl, hl₁⟩ := exists_of_visit hl
      have hl₂ := eq_of_modify hl₁
      obtain ⟨seenI, ranges', _, env₁, _, rfl, hranges, hl₃⟩ :=
        exists_of_bind_ok hl₂ fun _ _ => ⟨_, rfl⟩
      obtain ⟨seenB, body', _, env₂, _, rfl, hb, hl₄⟩ := exists_of_bind_ok hl₃ fun _ _ => ⟨_, rfl⟩
      cases hl₄
      obtain ⟨scope, hscope, hloops⟩ :=
        Range.keeps_watchAll names ranges hranges env.binderScopes_push
      have hbody := body.keeps_watch names target .boolean hb
      rw [hscope] at hbody
      rw [Clause.watch]
      refine .bind (.ofSteady (.requireAlternative _ _)) fun alternative => ?_
      refine .bind (.ofSteady .fresh) fun count => .bind (.ofSteady (.emit _)) fun _ => ?_
      refine .bind .pushScope fun _ => .bind (hloops.mono (by simp)) fun loops => ?_
      refine .bind (hbody.mono (by grind)) fun hit => .bind (.ofSteady (.emit _)) fun _ => ?_
      refine .bind (.ofSteady (.closeRanges _ _)) fun _ => .bind (.popScope scope) fun _ => ?_
      exact .bind ((rhs.keeps_watch names hr).mono (by grind)) fun probability => .pure _
  | .compare span (.expectation note trials body) op rhs, c', env, env', path, seen, mode, h => by
      obtain ⟨seenL, lhs', τ, _, seenR, rhs', σ, _, hl, hr, rfl, rfl⟩ := exists_of_inspect_compare h
      rw [Term.inspect] at hl
      obtain ⟨_, rfl, hl₁⟩ := exists_of_visit hl
      obtain ⟨seenB, body', _, env₁, _, rfl, hb, hl₂⟩ := exists_of_bind_ok hl₁ fun _ _ => ⟨_, rfl⟩
      cases hl₂
      rw [Clause.watch]
      refine .bind (.ofSteady ?_) fun _ => ?_
      · cases body'.isIdentifier outputName
        · exact .throw _
        · exact .pure _
      · refine .bind ((rhs.keeps_watch names hr).mono (by simp)) fun expected => ?_
        exact .ofSteady (.tTest _ _ _ _ _ _)
  | .compare span (.expectationOverItems note ranges body) op rhs, c', env, env', path, seen,
      mode, h => by
      obtain ⟨seenL, lhs', τ, _, seenR, rhs', σ, _, hl, hr, rfl, rfl⟩ := exists_of_inspect_compare h
      rw [Term.inspect] at hl
      obtain ⟨_, rfl, hl₁⟩ := exists_of_visit hl
      have hl₂ := eq_of_modify hl₁
      obtain ⟨seenI, ranges', _, env₁, _, rfl, hranges, hl₃⟩ :=
        exists_of_bind_ok hl₂ fun _ _ => ⟨_, rfl⟩
      obtain ⟨seenB, body', _, env₂, _, rfl, hb, hl₄⟩ := exists_of_bind_ok hl₃ fun _ _ => ⟨_, rfl⟩
      cases hl₄
      obtain ⟨scope, hscope, hloops⟩ :=
        Range.keeps_watchAll names ranges hranges env.binderScopes_push
      have hbody := body.keeps_watch names hb
      rw [hscope] at hbody
      rw [Clause.watch]
      refine .bind (.ofSteady .fresh) fun samples => .bind (.ofSteady (.emit _)) fun _ => ?_
      refine .bind .pushScope fun _ => .bind (hloops.mono (by simp)) fun loops => ?_
      refine .bind (hbody.mono (by grind)) fun value => .bind (.ofSteady (.emit _)) fun _ => ?_
      refine .bind (.ofSteady (.closeRanges _ _)) fun _ => .bind (.popScope scope) fun _ => ?_
      refine .bind ((rhs.keeps_watch names hr).mono (by grind)) fun expected => ?_
      exact .ofSteady (.tTest _ _ _ _ _ _)
  | .compare _ (.constant ..) _ _, _, _, _, _, _, mode, h
  | .compare _ (.lookup ..) _ _, _, _, _, _, _, mode, h
  | .compare _ (.identifier ..) _ _, _, _, _, _, _, mode, h
  | .compare _ (.tuple ..) _ _, _, _, _, _, _, mode, h
  | .compare _ (.binary ..) _ _, _, _, _, _, _, mode, h
  | .compare _ (.sizeOf ..) _ _, _, _, _, _, _, mode, h
  | .compare _ (.call ..) _ _, _, _, _, _, _, mode, h =>
      Clause.keeps_comparison names target rfl mode h
  | .logic span lhs op rhs, c', env, env', path, seen, mode, h => by
      rw [Clause.inspect] at h
      obtain ⟨seenL, lhs', _, env₁, _, rfl, hl, h₁⟩ := exists_of_bind_ok h fun _ _ => ⟨_, rfl⟩
      obtain rfl := Clause.env_eq_of_inspect hl
      obtain ⟨seenR, rhs', _, env₂, _, rfl, hr, h₂⟩ := exists_of_bind_ok h₁ fun _ _ => ⟨_, rfl⟩
      cases h₂
      refine .bind ((lhs.keeps_watch names target mode hl).mono (by simp)) fun a => ?_
      refine .bind ((rhs.keeps_watch names target mode hr).mono (by simp)) fun b => ?_
      cases mode <;> cases op <;> exact .pure _
  | .not span inner, c', env, env', path, seen, mode, h => by
      rw [Clause.inspect] at h
      obtain ⟨seenI, inner', _, env₁, _, rfl, hi, h₁⟩ := exists_of_bind_ok h fun _ _ => ⟨_, rfl⟩
      cases h₁
      refine .bind ((inner.keeps_watch names target mode hi).mono (by simp)) fun v => ?_
      cases mode <;> exact .pure _

theorem Context.isVisible_eq_false_iff (ctx : Context) (name : String) :
    ctx.isVisible name = false ↔ name ∉ ctx.scopes.flatten ∧ name ∉ ctx.names := by
  simp [Context.isVisible, List.any_append, List.mem_flatten]

/-- A name is read from the configuration when the code cannot read it directly, and
only then. -/
theorem Term.lower_identifier_eq_entry_iff (ctx : Context) (note : Note) (name : String) :
    (Term.identifier note name).lower ctx = .ok (.entry (.name "Config") name) ↔
      ctx.isVisible name = false := by
  rw [Term.lower, Context.resolve]
  cases ctx.isVisible name with
  | false => simp [Reference.code]
  | true =>
      cases ctx.trial with
      | none => simp [Reference.code, Code.entry]
      | some trial => by_cases hout : name = outputName <;> simp [Reference.code, Code.entry, hout]

namespace Specification

/-- Declarations are in no scope of a binder. -/
theorem binderScopes_env (spec : Specification) : spec.env.binderScopes = [] := by
  have hfold : ∀ (decls : List Decl) (env : TypeEnv), env.inner = [] →
      (decls.foldl (fun env d => env.define d.name d.ty) env).inner = [] := by
    intro decls
    induction decls with
    | nil => intro env henv; exact henv
    | cons d decls ih =>
        intro env henv
        refine ih (env.define d.name d.ty) ?_
        simp [TypeEnv.define, henv]
  rw [TypeEnv.binderScopes, env, hfold spec.decls {} rfl, List.map_nil]

/-- Lowering sees the scopes of the analysis. The analysis of an accuracy clause looks
at each of its terms once, and whenever lowering of the analysed clause arrives at a
term, whether or not it succeeds in the end, that is one of them: the term is what the
analysis made of it, and the names bound around it are those that the environment of
the analysis had above the declarations when it came there, scope by scope. So a name
is read from the configuration just when neither a let or range around it nor the
function binds it. -/
theorem lowering_sees_inspected_scopes {spec spec' : Specification} {d : Domain} {c : Clause}
    (h : spec.analyze = (spec', .ok d)) (hc : spec.accuracy = some c) (target : Target)
    (mode : Mode) (ctx : Context) (hctx : ctx.scopes = []) :
    (c.inspect [] spec.env).2 = c.typecheck spec.env ∧
    ((c.inspect [] spec.env).1.map Inspection.path).Nodup ∧
    ∃ c', spec'.accuracy = some c' ∧
      (c'.watch target [] mode ctx).2 = (c'.lower target mode).exec ctx ∧
      ∀ v ∈ (c'.watch target [] mode ctx).1, ∃ w ∈ (c.inspect [] spec.env).1, v.Matches w ∧
        ∀ note name, v.term = .identifier note name →
          (v.term.lower v.state = .ok (.entry (.name "Config") name) ↔
            name ∉ w.env.binderScopes.flatten ∧ name ∉ ctx.names) := by
  obtain ⟨-, hacc, -, -, rfl, -⟩ := (analyze_eq_ok_iff spec spec' d).1 h
  obtain ⟨u, hu⟩ := hacc c hc
  have hresult : (c.inspect [] spec.env).2.1 = ((c.analyze spec.env).1, .ok ()) := by
    rw [c.follows_inspect [] spec.env, (c.gives_typecheck spec.env).fst_eq]
    exact Prod.ext rfl hu
  refine ⟨c.follows_inspect [] spec.env, c.nodup_paths_inspect [] spec.env, _,
    by rw [hc]; rfl, Clause.follows_watch target _ [] mode ctx, fun v hv => ?_⟩
  obtain ⟨harrivals, -⟩ := c.keeps_watch ctx.names target mode
    (Prod.ext rfl (Prod.ext hresult rfl)) ctx rfl (hctx.trans spec.binderScopes_env.symm)
  obtain ⟨hnames, w, hw, hmatches⟩ := harrivals v hv
  refine ⟨w, hw, hmatches, fun note name hterm => ?_⟩
  rw [hterm, Term.lower_identifier_eq_entry_iff, Context.isVisible_eq_false_iff,
    hmatches.scopes_eq, hnames]

/-- The share of the outputs that reach a level, which comes from the configuration
and is scaled with the size of the input. -/
def scaledShare : Specification where
  decls := [⟨"Output", .sequence .scalar, .dummy⟩, ⟨"Input", .sequence .scalar, .dummy⟩]
  accuracy := some (.letIn .dummy "m" (.sizeOf {} (.identifier {} "Input"))
    (.compare .dummy
      (.probabilityOverItems {} [.mk .dummy "x" (.identifier {} "Output") .elements]
        (.compare .dummy (.identifier {} "x") .ge
          (.binary {} (.identifier {} "m") .mul (.identifier {} "level"))))
      .ge (.constant {} "0.5")))

theorem lowering_sees_inspected_scopes_scaledShare :
    ∃ spec' c', scaledShare.analyze = (spec', .ok .overItems) ∧ spec'.accuracy = some c' ∧
      ∃ v ∈ (c'.watch {} [] .boolean (.start ["Config", "Input", "Output"])).1,
        v.state.scopes = [["x"], ["m"]] ∧
          v.term.lower v.state = .ok (.entry (.name "Config") "level") := by
  obtain ⟨-, -, c', hc', -, hall⟩ := lowering_sees_inspected_scopes
    (show scaledShare.analyze = (_, .ok .overItems) from rfl) rfl {} .boolean
    (.start ["Config", "Input", "Output"]) rfl
  refine ⟨_, c', rfl, hc', ?_⟩
  cases hc'
  -- The last arrival but one is at the level.
  refine ⟨_, List.mem_of_getElem? (i := 6) rfl, rfl, ?_⟩
  obtain ⟨w, -, hw, hlevel⟩ := hall _ (List.mem_of_getElem? (i := 6) rfl)
  exact (hlevel _ "level" rfl).2 ⟨by rw [← hw.scopes_eq]; decide, by decide⟩

end Specification

end StatContract
