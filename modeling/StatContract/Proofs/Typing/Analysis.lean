import StatContract.Proofs.Typing.Erasure
import StatContract.Proofs.Typing.Rules

/-!
# The analysis decides the typing rules

The analysis works on a stack of scopes and fills slots as it goes; the rules
know neither. That the stack is the same before and after every part of the tree
is the matter of `Clause.gives_typecheck`. Here the two meet in `TypeEnv.Agrees`:
a stack and a lexical environment that know the same names with the same types.
Entering a scope leaves the agreement as it is, and defining a name in the
innermost scope is binding it in front, so the agreement is carried down to every
node.

From it follow both directions, by recursion on the tree: what passes the
analysis is derivable and comes back annotated (`typed_of_analyze`), and what
is derivable passes with the derived type (`analyze_of_typed`). That a term has
at most one type is the second direction read twice.
-/

namespace StatContract

namespace TypeEnv

/-- The stack of scopes and the lexical environment know the same names, with
the same types. -/
def Agrees (env : TypeEnv) (Γ : LexicalEnv) : Prop :=
  ∀ name, env.find? name = Γ.lookup name

theorem Agrees.typeOf {env : TypeEnv} {Γ : LexicalEnv} (h : env.Agrees Γ) (name : String) :
    env.typeOf name = LexicalEnv.typeOf Γ name := by
  rw [TypeEnv.typeOf, LexicalEnv.typeOf, h name]

theorem Agrees.push {env : TypeEnv} {Γ : LexicalEnv} (h : env.Agrees Γ) :
    env.push.Agrees Γ := by
  intro name
  rw [find?_push, h name]

/-- Defining a name in the innermost scope is binding it lexically. -/
theorem Agrees.define {env : TypeEnv} {Γ : LexicalEnv} (h : env.Agrees Γ) (name : String)
    (τ : ValueType) : (env.define name τ).Agrees ((name, τ) :: Γ) := by
  intro other
  by_cases heq : other = name
  · subst heq
    rw [find?_define_self, List.lookup_cons_self]
  · have hne : (other == name) = false := by simpa using heq
    rw [find?_define_of_ne env name other τ heq, h other, List.lookup_cons, hne]

end TypeEnv

/-- A range whose collection is a list of `τ` binds its variable as the mode
says. -/
theorem Range.TypedList.cons {slot : SlotRule} {Γ Δ : LexicalEnv} {span : Span} {var : String}
    {collection : Term} {mode : RangeMode} {rest : List Range} {τ : ValueType}
    (hcollection : collection.Typed slot Γ (.sequence τ))
    (hrest : Range.TypedList slot ((var, mode.varType τ) :: Γ) rest Δ) :
    Range.TypedList slot Γ (.mk span var collection mode :: rest) Δ := by
  cases mode with
  | indices => exact .indices hcollection hrest
  | elements => exact .elements hcollection (by simp) hrest
  | uniqueElements => exact .elements hcollection (by simp) hrest

theorem Range.TypedList.of_cons {slot : SlotRule} {Γ Δ : LexicalEnv} {span : Span} {var : String}
    {collection : Term} {mode : RangeMode} {rest : List Range}
    (h : Range.TypedList slot Γ (.mk span var collection mode :: rest) Δ) :
    ∃ τ, collection.Typed slot Γ (.sequence τ) ∧
      Range.TypedList slot ((var, mode.varType τ) :: Γ) rest Δ := by
  cases h with
  | indices hcollection hrest => exact ⟨_, hcollection, hrest⟩
  | @elements _ _ _ _ _ _ _ τ hcollection hmode hrest =>
      refine ⟨τ, hcollection, ?_⟩
      cases mode with
      | indices => exact absurd rfl hmode
      | elements | uniqueElements => exact hrest

theorem Term.isIdentifier_iff (t : Term) (name : String) :
    t.isIdentifier name = true ↔ ∃ note, t = .identifier note name := by
  cases t <;> simp [isIdentifier, asIdentifier]

mutual

/-- A clause that passes the analysis is derivable, and what the analysis hands
back is annotated. -/
theorem Clause.typed_of_analyze : ∀ (c : Clause) {c' : Clause} {env : TypeEnv}
    {Γ : LexicalEnv}, env.Agrees Γ → c.analyze env = (c', .ok ()) →
      c.WellTyped Γ ∧ c'.Annotated Γ
  | .forAll span ranges body, c', env, Γ, hΓ, h => by
      rw [Clause.analyze] at h
      rcases hr : Range.analyzeList env.push ranges with ⟨ranges', e | env'⟩
      · simp [hr] at h
      · obtain ⟨Δ, hΔ, hfree, hfilled⟩ := Range.typed_of_analyzeList ranges hΓ.push hr
        rcases hb : body.analyze env' with ⟨body', e | _⟩
        · simp [hr, hb] at h
        · obtain ⟨hbody, hbody'⟩ := Clause.typed_of_analyze body hΔ hb
          simp only [hr, hb, Prod.mk.injEq] at h
          rw [← h.1]
          exact ⟨.forAll hfree hbody, .forAll hfilled hbody'⟩
  | .letIn span name value body, c', env, Γ, hΓ, h => by
      rw [Clause.analyze] at h
      rcases hv : value.analyze env with ⟨value', e | τ⟩
      · simp [hv] at h
      · obtain ⟨hvalue, hvalue'⟩ := Term.typed_of_analyze value hΓ hv
        rcases hb : body.analyze (env.push.define name τ) with ⟨body', e | _⟩
        · simp [hv, hb] at h
        · obtain ⟨hbody, hbody'⟩ := Clause.typed_of_analyze body (hΓ.push.define name τ) hb
          simp only [hv, hb, Prod.mk.injEq] at h
          rw [← h.1]
          exact ⟨.letIn hvalue hbody, .letIn hvalue' hbody'⟩
  | .membership span item collection, c', env, Γ, hΓ, h => by
      rw [Clause.analyze] at h
      rcases hi : item.analyze env with ⟨item', e | τ⟩
      · simp [hi] at h
      · rcases hc : collection.analyze env with ⟨collection', e | σ⟩
        · simp [hi, hc, Except.map] at h
        · obtain ⟨hitem, hitem'⟩ := Term.typed_of_analyze item hΓ hi
          obtain ⟨hcoll, hcoll'⟩ := Term.typed_of_analyze collection hΓ hc
          simp only [hi, hc, Prod.mk.injEq] at h
          rw [← h.1]
          exact ⟨.membership hitem hcoll, .membership hitem' hcoll'⟩
  | .approx span lhs rhs, c', env, Γ, hΓ, h => by
      rw [Clause.analyze] at h
      split at h
      · rename_i hout
        obtain ⟨note, rfl⟩ := (Term.isIdentifier_iff lhs outputName).1 hout
        rcases hr : rhs.analyze env with ⟨rhs', e | σ⟩
        · simp [Term.analyze, hr, Except.map] at h
        · obtain ⟨hrhs, hrhs'⟩ := Term.typed_of_analyze rhs hΓ hr
          simp only [Term.analyze, hr, hΓ.typeOf, Prod.mk.injEq] at h
          rw [← h.1]
          exact ⟨.approx (.identifier trivial) hrhs, .approx (.identifier rfl) hrhs'⟩
      · simp at h
  | .compare span lhs op rhs, c', env, Γ, hΓ, h => by
      rw [Clause.analyze] at h
      rcases hl : lhs.analyze env with ⟨lhs', e | τ⟩
      · simp [hl] at h
      · rcases hr : rhs.analyze env with ⟨rhs', e | σ⟩
        · simp [hl, hr, Except.map] at h
        · obtain ⟨hlhs, hlhs'⟩ := Term.typed_of_analyze lhs hΓ hl
          obtain ⟨hrhs, hrhs'⟩ := Term.typed_of_analyze rhs hΓ hr
          simp only [hl, hr, Prod.mk.injEq] at h
          rw [← h.1]
          exact ⟨.compare hlhs hrhs, .compare hlhs' hrhs'⟩
  | .logic span lhs op rhs, c', env, Γ, hΓ, h => by
      rw [Clause.analyze] at h
      rcases hl : lhs.analyze env with ⟨lhs', e | _⟩
      · simp [hl] at h
      · rcases hr : rhs.analyze env with ⟨rhs', e | _⟩
        · simp [hl, hr] at h
        · obtain ⟨hlhs, hlhs'⟩ := Clause.typed_of_analyze lhs hΓ hl
          obtain ⟨hrhs, hrhs'⟩ := Clause.typed_of_analyze rhs hΓ hr
          simp only [hl, hr, Prod.mk.injEq] at h
          rw [← h.1]
          exact ⟨.logic hlhs hrhs, .logic hlhs' hrhs'⟩
  | .not span inner, c', env, Γ, hΓ, h => by
      rw [Clause.analyze] at h
      rcases hi : inner.analyze env with ⟨inner', e | _⟩
      · simp [hi] at h
      · obtain ⟨hinner, hinner'⟩ := Clause.typed_of_analyze inner hΓ hi
        simp only [hi, Prod.mk.injEq] at h
        rw [← h.1]
        exact ⟨.not hinner, .not hinner'⟩

/-- A term that passes the analysis has the type found, and what the analysis
hands back is annotated. -/
theorem Term.typed_of_analyze : ∀ (t : Term) {t' : Term} {τ : ValueType} {env : TypeEnv}
    {Γ : LexicalEnv}, env.Agrees Γ → t.analyze env = (t', .ok τ) →
      t.HasType Γ τ ∧ t'.Annotated Γ τ
  | .constant note value, t', τ, env, Γ, hΓ, h => by
      simp only [Term.analyze, Prod.mk.injEq, Except.ok.injEq] at h
      obtain ⟨rfl, rfl⟩ := h
      exact ⟨.constant trivial, .constant rfl⟩
  | .probability note trials body, t', τ, env, Γ, hΓ, h => by
      rw [Term.analyze] at h
      rcases hb : body.analyze env with ⟨body', e | _⟩
      · simp [hb] at h
      · obtain ⟨hbody, hbody'⟩ := Clause.typed_of_analyze body hΓ hb
        simp only [hb, Prod.mk.injEq, Except.ok.injEq] at h
        obtain ⟨rfl, rfl⟩ := h
        exact ⟨.probability hbody trivial, .probability hbody' rfl⟩
  | .probabilityOverItems note ranges body, t', τ, env, Γ, hΓ, h => by
      rw [Term.analyze] at h
      rcases hr : Range.analyzeList env.push ranges with ⟨ranges', e | env'⟩
      · simp [hr] at h
      · obtain ⟨Δ, hΔ, hfree, hfilled⟩ := Range.typed_of_analyzeList ranges hΓ.push hr
        rcases hb : body.analyze env' with ⟨body', e | _⟩
        · simp [hr, hb] at h
        · obtain ⟨hbody, hbody'⟩ := Clause.typed_of_analyze body hΔ hb
          simp only [hr, hb, Prod.mk.injEq, Except.ok.injEq] at h
          obtain ⟨rfl, rfl⟩ := h
          exact ⟨.probabilityOverItems hfree hbody trivial,
            .probabilityOverItems hfilled hbody' rfl⟩
  | .expectation note trials body, t', τ, env, Γ, hΓ, h => by
      rw [Term.analyze] at h
      rcases hb : body.analyze env with ⟨body', e | _⟩
      · simp [hb] at h
      · obtain ⟨hbody, hbody'⟩ := Term.typed_of_analyze body hΓ hb
        simp only [hb, Prod.mk.injEq, Except.ok.injEq] at h
        obtain ⟨rfl, rfl⟩ := h
        exact ⟨.expectation hbody trivial, .expectation hbody' rfl⟩
  | .expectationOverItems note ranges body, t', τ, env, Γ, hΓ, h => by
      rw [Term.analyze] at h
      rcases hr : Range.analyzeList env.push ranges with ⟨ranges', e | env'⟩
      · simp [hr] at h
      · obtain ⟨Δ, hΔ, hfree, hfilled⟩ := Range.typed_of_analyzeList ranges hΓ.push hr
        rcases hb : body.analyze env' with ⟨body', e | _⟩
        · simp [hr, hb] at h
        · obtain ⟨hbody, hbody'⟩ := Term.typed_of_analyze body hΔ hb
          simp only [hr, hb, Prod.mk.injEq, Except.ok.injEq] at h
          obtain ⟨rfl, rfl⟩ := h
          exact ⟨.expectationOverItems hfree hbody trivial,
            .expectationOverItems hfilled hbody' rfl⟩
  | .lookup note collection key, t', τ, env, Γ, hΓ, h => by
      rw [Term.analyze] at h
      rcases hc : collection.analyze env with ⟨collection', e | σ⟩
      · simp [hc] at h
      · rcases hk : key.analyze env with ⟨key', e | κ⟩
        · simp [hc, hk] at h
        · obtain ⟨hcoll, hcoll'⟩ := Term.typed_of_analyze collection hΓ hc
          obtain ⟨hkey, hkey'⟩ := Term.typed_of_analyze key hΓ hk
          cases σ with
          | sequence element =>
              simp only [hc, hk, ValueType.entry?, Prod.mk.injEq, Except.ok.injEq] at h
              obtain ⟨rfl, rfl⟩ := h
              exact ⟨.element hcoll hkey trivial, .element hcoll' hkey' rfl⟩
          | map _ value =>
              simp only [hc, hk, ValueType.entry?, Prod.mk.injEq, Except.ok.injEq] at h
              obtain ⟨rfl, rfl⟩ := h
              exact ⟨.entry hcoll hkey trivial, .entry hcoll' hkey' rfl⟩
          | scalar => simp [hc, hk, ValueType.entry?] at h
          | matrix => simp [hc, hk, ValueType.entry?] at h
  | .identifier note name, t', τ, env, Γ, hΓ, h => by
      simp only [Term.analyze, hΓ.typeOf, Prod.mk.injEq, Except.ok.injEq] at h
      obtain ⟨rfl, rfl⟩ := h
      exact ⟨.identifier trivial, .identifier rfl⟩
  | .tuple note elements, t', τ, env, Γ, hΓ, h => by
      rw [Term.analyze] at h
      rcases hs : Term.analyzeList env elements with ⟨elements', e | τs⟩
      · simp [hs] at h
      · obtain ⟨hfree, hfilled⟩ := Term.typed_of_analyzeList elements hΓ hs
        simp only [hs, Prod.mk.injEq, Except.ok.injEq] at h
        obtain ⟨rfl, rfl⟩ := h
        -- The first element decides on the type, so the empty tuple has a rule of its own.
        cases hfree with
        | nil =>
            cases hfilled
            exact ⟨.emptyTuple trivial, .emptyTuple rfl⟩
        | cons hfirst hrest =>
            cases hfilled with
            | cons hfirst' hrest' =>
                exact ⟨.tuple hfirst hrest trivial, .tuple hfirst' hrest' rfl⟩
  | .binary note lhs op rhs, t', τ, env, Γ, hΓ, h => by
      rw [Term.analyze] at h
      rcases hl : lhs.analyze env with ⟨lhs', e | σ⟩
      · simp [hl] at h
      · rcases hr : rhs.analyze env with ⟨rhs', e | σ'⟩
        · simp [hl, hr] at h
        · obtain ⟨hlhs, hlhs'⟩ := Term.typed_of_analyze lhs hΓ hl
          obtain ⟨hrhs, hrhs'⟩ := Term.typed_of_analyze rhs hΓ hr
          by_cases heq : σ = σ'
          · subst heq
            simp only [hl, hr, if_true, Prod.mk.injEq, Except.ok.injEq] at h
            obtain ⟨rfl, rfl⟩ := h
            exact ⟨.binary hlhs hrhs trivial, .binary hlhs' hrhs' rfl⟩
          · simp [hl, hr, heq] at h
  | .sizeOf note collection, t', τ, env, Γ, hΓ, h => by
      rw [Term.analyze] at h
      rcases hc : collection.analyze env with ⟨collection', e | σ⟩
      · simp [hc] at h
      · obtain ⟨hcoll, hcoll'⟩ := Term.typed_of_analyze collection hΓ hc
        simp only [hc, Prod.mk.injEq, Except.ok.injEq] at h
        obtain ⟨rfl, rfl⟩ := h
        exact ⟨.sizeOf hcoll trivial, .sizeOf hcoll' rfl⟩
  | .call note name args, t', τ, env, Γ, hΓ, h => by
      rw [Term.analyze] at h
      rcases hs : Term.analyzeList env args with ⟨args', e | τs⟩
      · simp [hs] at h
      · obtain ⟨hfree, hfilled⟩ := Term.typed_of_analyzeList args hΓ hs
        simp only [hs, hΓ.typeOf, Prod.mk.injEq, Except.ok.injEq] at h
        obtain ⟨rfl, rfl⟩ := h
        exact ⟨.call hfree trivial, .call hfilled rfl⟩

/-- Ranges that pass the analysis lead to the environment found. -/
theorem Range.typed_of_analyzeList : ∀ (ranges : List Range) {ranges' : List Range}
    {env env' : TypeEnv} {Γ : LexicalEnv}, env.Agrees Γ →
      Range.analyzeList env ranges = (ranges', .ok env') →
      ∃ Δ, env'.Agrees Δ ∧ Range.TypedList .free Γ ranges Δ ∧
        Range.TypedList .filled Γ ranges' Δ
  | [], ranges', env, env', Γ, hΓ, h => by
      simp only [Range.analyzeList, Prod.mk.injEq, Except.ok.injEq] at h
      obtain ⟨rfl, rfl⟩ := h
      exact ⟨Γ, hΓ, .nil, .nil⟩
  | .mk span var collection mode :: rest, ranges', env, env', Γ, hΓ, h => by
      rw [Range.analyzeList] at h
      rcases hc : collection.analyze env with ⟨collection', e | σ⟩
      · simp [hc] at h
      · cases he : σ.element? with
        | none => simp [hc, he] at h
        | some τ =>
            obtain rfl := (ValueType.element?_eq_some_iff σ τ).1 he
            obtain ⟨hcoll, hcoll'⟩ := Term.typed_of_analyze collection hΓ hc
            rcases hr : Range.analyzeList (env.define var (mode.varType τ)) rest
              with ⟨rest', e | env''⟩
            · simp [hc, he, hr] at h
            · obtain ⟨Δ, hΔ, hfree, hfilled⟩ :=
                Range.typed_of_analyzeList rest (hΓ.define var (mode.varType τ)) hr
              simp only [hc, he, hr, Prod.mk.injEq, Except.ok.injEq] at h
              obtain ⟨rfl, rfl⟩ := h
              exact ⟨Δ, hΔ, .cons hcoll hfree, .cons hcoll' hfilled⟩

/-- Terms that pass the analysis have the types found. -/
theorem Term.typed_of_analyzeList : ∀ (ts : List Term) {ts' : List Term}
    {τs : List ValueType} {env : TypeEnv} {Γ : LexicalEnv}, env.Agrees Γ →
      Term.analyzeList env ts = (ts', .ok τs) →
      Term.TypedList .free Γ ts τs ∧ Term.TypedList .filled Γ ts' τs
  | [], ts', τs, env, Γ, hΓ, h => by
      simp only [Term.analyzeList, Prod.mk.injEq, Except.ok.injEq] at h
      obtain ⟨rfl, rfl⟩ := h
      exact ⟨.nil, .nil⟩
  | t :: rest, ts', τs, env, Γ, hΓ, h => by
      rw [Term.analyzeList] at h
      rcases ht : t.analyze env with ⟨t', e | τ⟩
      · simp [ht] at h
      · rcases hr : Term.analyzeList env rest with ⟨rest', e | τs'⟩
        · simp [ht, hr, Except.map] at h
        · obtain ⟨hhead, hhead'⟩ := Term.typed_of_analyze t hΓ ht
          obtain ⟨htail, htail'⟩ := Term.typed_of_analyzeList rest hΓ hr
          simp only [ht, hr, Except.map, Prod.mk.injEq, Except.ok.injEq] at h
          obtain ⟨rfl, rfl⟩ := h
          exact ⟨.cons hhead htail, .cons hhead' htail'⟩

end

mutual

/-- A derivable clause passes the analysis. -/
theorem Clause.analyze_of_typed {slot : SlotRule} : ∀ (c : Clause) {env : TypeEnv}
    {Γ : LexicalEnv}, env.Agrees Γ → c.Typed slot Γ → ∃ c', c.analyze env = (c', .ok ())
  | .forAll span ranges body, env, Γ, hΓ, h => by
      cases h with
      | forAll hranges hbody =>
          obtain ⟨ranges', env', hr, hΔ⟩ := Range.analyzeList_of_typed ranges hΓ.push hranges
          obtain ⟨body', hb⟩ := Clause.analyze_of_typed body hΔ hbody
          exact ⟨.forAll span ranges' body', by simp only [Clause.analyze, hr, hb]⟩
  | .letIn span name value body, env, Γ, hΓ, h => by
      cases h with
      | letIn hvalue hbody =>
          obtain ⟨value', hv⟩ := Term.analyze_of_typed value hΓ hvalue
          obtain ⟨body', hb⟩ := Clause.analyze_of_typed body (hΓ.push.define name _) hbody
          exact ⟨.letIn span name value' body', by simp only [Clause.analyze, hv, hb]⟩
  | .membership span item collection, env, Γ, hΓ, h => by
      cases h with
      | membership hitem hcollection =>
          obtain ⟨item', hi⟩ := Term.analyze_of_typed item hΓ hitem
          obtain ⟨collection', hc⟩ := Term.analyze_of_typed collection hΓ hcollection
          exact ⟨.membership span item' collection',
            by simp only [Clause.analyze, hi, hc, Except.map]⟩
  | .approx span lhs rhs, env, Γ, hΓ, h => by
      cases h with
      | @approx _ _ note _ _ _ hlhs hrhs =>
          obtain ⟨rhs', hr⟩ := Term.analyze_of_typed rhs hΓ hrhs
          exact ⟨.approx span (.identifier (note.typed (env.typeOf outputName)) outputName) rhs',
            by simp [Clause.analyze, Term.isIdentifier, Term.asIdentifier, Term.analyze, hr,
              Except.map]⟩
  | .compare span lhs op rhs, env, Γ, hΓ, h => by
      cases h with
      | compare hlhs hrhs =>
          obtain ⟨lhs', hl⟩ := Term.analyze_of_typed lhs hΓ hlhs
          obtain ⟨rhs', hr⟩ := Term.analyze_of_typed rhs hΓ hrhs
          exact ⟨.compare span lhs' op rhs', by simp only [Clause.analyze, hl, hr, Except.map]⟩
  | .logic span lhs op rhs, env, Γ, hΓ, h => by
      cases h with
      | logic hlhs hrhs =>
          obtain ⟨lhs', hl⟩ := Clause.analyze_of_typed lhs hΓ hlhs
          obtain ⟨rhs', hr⟩ := Clause.analyze_of_typed rhs hΓ hrhs
          exact ⟨.logic span lhs' op rhs', by simp only [Clause.analyze, hl, hr]⟩
  | .not span inner, env, Γ, hΓ, h => by
      cases h with
      | not hinner =>
          obtain ⟨inner', hi⟩ := Clause.analyze_of_typed inner hΓ hinner
          exact ⟨.not span inner', by simp only [Clause.analyze, hi]⟩

/-- A term with a type passes the analysis, which finds that type. -/
theorem Term.analyze_of_typed {slot : SlotRule} : ∀ (t : Term) {τ : ValueType} {env : TypeEnv}
    {Γ : LexicalEnv}, env.Agrees Γ → t.Typed slot Γ τ → ∃ t', t.analyze env = (t', .ok τ)
  | .constant note value, τ, env, Γ, hΓ, h => by
      cases h with
      | constant hslot => exact ⟨.constant (note.typed .scalar) value, by simp only [Term.analyze]⟩
  | .probability note trials body, τ, env, Γ, hΓ, h => by
      cases h with
      | probability hbody hslot =>
          obtain ⟨body', hb⟩ := Clause.analyze_of_typed body hΓ hbody
          exact ⟨.probability (note.typed .scalar) trials body',
            by simp only [Term.analyze, hb]⟩
  | .probabilityOverItems note ranges body, τ, env, Γ, hΓ, h => by
      cases h with
      | probabilityOverItems hranges hbody hslot =>
          obtain ⟨ranges', env', hr, hΔ⟩ := Range.analyzeList_of_typed ranges hΓ.push hranges
          obtain ⟨body', hb⟩ := Clause.analyze_of_typed body hΔ hbody
          exact ⟨.probabilityOverItems (note.typed .scalar) ranges' body',
            by simp only [Term.analyze, hr, hb]⟩
  | .expectation note trials body, τ, env, Γ, hΓ, h => by
      cases h with
      | expectation hbody hslot =>
          obtain ⟨body', hb⟩ := Term.analyze_of_typed body hΓ hbody
          exact ⟨.expectation (note.typed .scalar) trials body',
            by simp only [Term.analyze, hb]⟩
  | .expectationOverItems note ranges body, τ, env, Γ, hΓ, h => by
      cases h with
      | expectationOverItems hranges hbody hslot =>
          obtain ⟨ranges', env', hr, hΔ⟩ := Range.analyzeList_of_typed ranges hΓ.push hranges
          obtain ⟨body', hb⟩ := Term.analyze_of_typed body hΔ hbody
          exact ⟨.expectationOverItems (note.typed .scalar) ranges' body',
            by simp only [Term.analyze, hr, hb]⟩
  | .lookup note collection key, τ, env, Γ, hΓ, h => by
      cases h with
      | element hcollection hkey hslot =>
          obtain ⟨collection', hc⟩ := Term.analyze_of_typed collection hΓ hcollection
          obtain ⟨key', hk⟩ := Term.analyze_of_typed key hΓ hkey
          exact ⟨.lookup (note.typed τ) collection' key',
            by simp only [Term.analyze, hc, hk, ValueType.entry?]⟩
      | entry hcollection hkey hslot =>
          obtain ⟨collection', hc⟩ := Term.analyze_of_typed collection hΓ hcollection
          obtain ⟨key', hk⟩ := Term.analyze_of_typed key hΓ hkey
          exact ⟨.lookup (note.typed τ) collection' key',
            by simp only [Term.analyze, hc, hk, ValueType.entry?]⟩
  | .identifier note name, τ, env, Γ, hΓ, h => by
      cases h with
      | identifier hslot => exact ⟨.identifier (note.typed (LexicalEnv.typeOf Γ name)) name,
          by simp only [Term.analyze, hΓ.typeOf]⟩
  | .tuple note elements, τ, env, Γ, hΓ, h => by
      obtain ⟨τs, hτs, rfl⟩ := h.of_tuple
      obtain ⟨elements', hs⟩ := Term.analyzeList_of_typed elements hΓ hτs
      exact ⟨.tuple (note.typed (.sequence (τs.headD .scalar))) elements',
        by simp only [Term.analyze, hs]⟩
  | .binary note lhs op rhs, τ, env, Γ, hΓ, h => by
      cases h with
      | binary hlhs hrhs hslot =>
          obtain ⟨lhs', hl⟩ := Term.analyze_of_typed lhs hΓ hlhs
          obtain ⟨rhs', hr⟩ := Term.analyze_of_typed rhs hΓ hrhs
          exact ⟨.binary (note.typed τ) lhs' op rhs',
            by simp only [Term.analyze, hl, hr, if_true]⟩
  | .sizeOf note collection, τ, env, Γ, hΓ, h => by
      cases h with
      | sizeOf hcollection hslot =>
          obtain ⟨collection', hc⟩ := Term.analyze_of_typed collection hΓ hcollection
          exact ⟨.sizeOf (note.typed .scalar) collection', by simp only [Term.analyze, hc]⟩
  | .call note name args, τ, env, Γ, hΓ, h => by
      cases h with
      | call hargs hslot =>
          obtain ⟨args', hs⟩ := Term.analyzeList_of_typed args hΓ hargs
          exact ⟨.call (note.typed (LexicalEnv.typeOf Γ name)) name args',
            by simp only [Term.analyze, hs, hΓ.typeOf]⟩

/-- Derivable ranges pass the analysis. -/
theorem Range.analyzeList_of_typed {slot : SlotRule} : ∀ (ranges : List Range) {env : TypeEnv}
    {Γ Δ : LexicalEnv}, env.Agrees Γ → Range.TypedList slot Γ ranges Δ →
      ∃ ranges' env', Range.analyzeList env ranges = (ranges', .ok env') ∧ env'.Agrees Δ
  | [], env, Γ, Δ, hΓ, h => by
      cases h with
      | nil => exact ⟨[], env, by simp only [Range.analyzeList], hΓ⟩
  | .mk span var collection mode :: rest, env, Γ, Δ, hΓ, h => by
      cases h with
      | indices hcollection hrest =>
          obtain ⟨collection', hc⟩ := Term.analyze_of_typed collection hΓ hcollection
          obtain ⟨rest', env', hr, hΔ⟩ :=
            Range.analyzeList_of_typed rest (hΓ.define var .scalar) hrest
          exact ⟨.mk span var collection' .indices :: rest', env',
            by simp only [Range.analyzeList, hc, ValueType.element?, RangeMode.varType, hr], hΔ⟩
      | @elements _ _ _ _ _ _ _ τ hcollection hmode hrest =>
          have hvar : mode.varType τ = τ := by
            cases mode with
            | indices => exact absurd rfl hmode
            | elements => rfl
            | uniqueElements => rfl
          obtain ⟨collection', hc⟩ := Term.analyze_of_typed collection hΓ hcollection
          obtain ⟨rest', env', hr, hΔ⟩ := Range.analyzeList_of_typed rest (hΓ.define var τ) hrest
          exact ⟨.mk span var collection' mode :: rest', env',
            by simp only [Range.analyzeList, hc, ValueType.element?, hvar, hr], hΔ⟩

/-- Terms with types pass the analysis, which finds these types. -/
theorem Term.analyzeList_of_typed {slot : SlotRule} : ∀ (ts : List Term)
    {τs : List ValueType} {env : TypeEnv} {Γ : LexicalEnv}, env.Agrees Γ →
      Term.TypedList slot Γ ts τs → ∃ ts', Term.analyzeList env ts = (ts', .ok τs)
  | [], τs, env, Γ, hΓ, h => by
      cases h with
      | nil => exact ⟨[], by simp only [Term.analyzeList]⟩
  | t :: rest, τs, env, Γ, hΓ, h => by
      cases h with
      | cons hhead htail =>
          obtain ⟨t', ht⟩ := Term.analyze_of_typed t hΓ hhead
          obtain ⟨rest', hr⟩ := Term.analyzeList_of_typed rest hΓ htail
          exact ⟨t' :: rest', by simp only [Term.analyzeList, ht, hr, Except.map]⟩

end

/-- The bindings of a lexical environment as declarations. -/
theorem TypeEnv.agrees_declared (Γ : LexicalEnv) : (TypeEnv.mk [] Γ).Agrees Γ := by
  intro name
  simp [TypeEnv.find?]

/-- The rules give a term at most one type. -/
theorem Term.Typed.unique {slot slot' : SlotRule} {Γ : LexicalEnv} {t : Term}
    {τ τ' : ValueType} (h : t.Typed slot Γ τ) (h' : t.Typed slot' Γ τ') : τ = τ' := by
  obtain ⟨u, hu⟩ := Term.analyze_of_typed t (TypeEnv.agrees_declared Γ) h
  obtain ⟨u', hu'⟩ := Term.analyze_of_typed t (TypeEnv.agrees_declared Γ) h'
  have heq := hu.symm.trans hu'
  simp only [Prod.mk.injEq, Except.ok.injEq] at heq
  exact heq.2

/-- A type does not depend on what is asked of the annotations. -/
theorem Term.Typed.hasType {slot : SlotRule} {Γ : LexicalEnv} {t : Term} {τ : ValueType}
    (h : t.Typed slot Γ τ) : t.HasType Γ τ := by
  obtain ⟨t', ht'⟩ := Term.analyze_of_typed t (TypeEnv.agrees_declared Γ) h
  exact (Term.typed_of_analyze t (TypeEnv.agrees_declared Γ) ht').1

/-- A clause passes the analysis exactly when it is derivable. -/
theorem Clause.analyze_ok_iff {env : TypeEnv} {Γ : LexicalEnv} (hΓ : env.Agrees Γ)
    (c : Clause) : (∃ u, (c.analyze env).2 = .ok u) ↔ c.WellTyped Γ := by
  constructor
  · rintro ⟨u, hu⟩
    exact (Clause.typed_of_analyze c hΓ (Prod.ext rfl hu)).1
  · intro h
    obtain ⟨c', hc⟩ := Clause.analyze_of_typed c hΓ h
    exact ⟨(), by rw [hc]⟩

/-- A term passes the analysis with a type exactly when it has that type. -/
theorem Term.analyze_ok_iff {env : TypeEnv} {Γ : LexicalEnv} (hΓ : env.Agrees Γ)
    (t : Term) (τ : ValueType) : (t.analyze env).2 = .ok τ ↔ t.HasType Γ τ := by
  constructor
  · intro h
    exact (Term.typed_of_analyze t hΓ (Prod.ext rfl h)).1
  · intro h
    obtain ⟨t', ht⟩ := Term.analyze_of_typed t hΓ h
    rw [ht]

namespace Specification

/-- The environment in which the analysis starts is that of the
declarations. -/
theorem env_agrees (spec : Specification) : spec.env.Agrees spec.lexicalEnv := by
  have hfold : ∀ (decls : List Decl) {env : TypeEnv} {Γ : LexicalEnv}, env.Agrees Γ →
      (decls.foldl (fun env d => env.define d.name d.ty) env).Agrees
        ((decls.map fun d => (d.name, d.ty)).reverse ++ Γ) := by
    intro decls
    induction decls with
    | nil => intro env Γ hΓ; exact hΓ
    | cons d decls ih =>
        intro env Γ hΓ
        rw [List.foldl_cons, List.map_cons, List.reverse_cons, List.append_assoc]
        exact ih (hΓ.define d.name d.ty)
  have hstart : ({} : TypeEnv).Agrees [] := by
    intro name
    simp [TypeEnv.find?]
  simpa [env, lexicalEnv] using hfold spec.decls hstart

theorem missingDeclaration?_eq_none_iff (spec : Specification) :
    spec.missingDeclaration? = none ↔
      spec.Declares outputName ∧ spec.Declares inputName := by
  simp [missingDeclaration?, Declares]

/-- What becomes of a contract that passes the analysis and may be absent. -/
theorem analyzePart_eq_none_iff {α β : Type} (f : α → α × Except SpecError β)
    (part part' : Option α) :
    analyzePart f part = (part', none) ↔
      part' = part.map (fun a => (f a).1) ∧ ∀ a ∈ part, ∃ b, (f a).2 = .ok b := by
  cases part with
  | none => simp [analyzePart, eq_comm]
  | some a => rcases hf : f a with ⟨a', e | b⟩ <;> simp [analyzePart, hf, eq_comm]

/-- An analysis succeeds when the two required names are declared and every
contract passes; then the contracts are replaced by what is handed back for
them. -/
theorem analyze_eq_ok_iff (spec spec' : Specification) (d : Domain) :
    spec.analyze = (spec', .ok d) ↔
      (spec.Declares outputName ∧ spec.Declares inputName) ∧
      (∀ c ∈ spec.accuracy, ∃ u, (c.analyze spec.env).2 = .ok u) ∧
      (∀ t ∈ spec.time, ∃ τ, (t.analyze spec.env).2 = .ok τ) ∧
      (∀ t ∈ spec.space, ∃ τ, (t.analyze spec.env).2 = .ok τ) ∧
      { spec with
        accuracy := spec.accuracy.map fun c => (c.analyze spec.env).1
        time := spec.time.map fun t => (t.analyze spec.env).1
        space := spec.space.map fun t => (t.analyze spec.env).1 } = spec' ∧
      spec.domain = d := by
  rw [← missingDeclaration?_eq_none_iff]
  cases hdecl : spec.missingDeclaration? with
  | some name => simp [analyze_of_missing hdecl]
  | none =>
      rw [analyze_of_declared hdecl, analyzeContracts]
      have h₁ := analyzePart_eq_none_iff (Clause.analyze spec.env) spec.accuracy
      have h₂ := analyzePart_eq_none_iff (Term.analyze spec.env) spec.time
      have h₃ := analyzePart_eq_none_iff (Term.analyze spec.env) spec.space
      -- The contracts are looked at in turn, and the first that fails decides.
      rcases hp₁ : analyzePart (Clause.analyze spec.env) spec.accuracy
        with ⟨accuracy, _ | e⟩
      · obtain ⟨rfl, hacc⟩ := (h₁ accuracy).1 hp₁
        rcases hp₂ : analyzePart (Term.analyze spec.env) spec.time
          with ⟨time, _ | e⟩
        · obtain ⟨rfl, htime⟩ := (h₂ time).1 hp₂
          rcases hp₃ : analyzePart (Term.analyze spec.env) spec.space
            with ⟨space, _ | e⟩
          · obtain ⟨rfl, hspace⟩ := (h₃ space).1 hp₃
            simp only [Prod.mk.injEq, Except.ok.injEq]
            exact ⟨fun h => ⟨trivial, hacc, htime, hspace, h⟩, fun h => h.2.2.2.2⟩
          · have hspace : ¬ ∀ t ∈ spec.space, ∃ τ, (t.analyze spec.env).2 = .ok τ := by
              intro h
              have := (h₃ _).2 ⟨rfl, h⟩
              simp [hp₃] at this
            exact ⟨fun h => by simp at h, fun h => absurd h.2.2.2.1 hspace⟩
        · have htime : ¬ ∀ t ∈ spec.time, ∃ τ, (t.analyze spec.env).2 = .ok τ := by
            intro h
            have := (h₂ _).2 ⟨rfl, h⟩
            simp [hp₂] at this
          exact ⟨fun h => by simp at h, fun h => absurd h.2.2.1 htime⟩
      · have hacc : ¬ ∀ c ∈ spec.accuracy, ∃ u, (c.analyze spec.env).2 = .ok u := by
          intro h
          have := (h₁ _).2 ⟨rfl, h⟩
          simp [hp₁] at this
        exact ⟨fun h => by simp at h, fun h => absurd h.2.1 hacc⟩

/-- What a successful analysis hands back is annotated. -/
theorem annotated_of_analyze {spec spec' : Specification} {d : Domain}
    (h : spec.analyze = (spec', .ok d)) : spec'.Typed .filled := by
  obtain ⟨-, hacc, htime, hspace, rfl, -⟩ := (analyze_eq_ok_iff spec spec' d).1 h
  have hΓ := spec.env_agrees
  refine ⟨?_, ?_, ?_⟩
  · intro c' hc'
    obtain ⟨c, hc, rfl⟩ := Option.map_eq_some_iff.1 hc'
    obtain ⟨u, hu⟩ := hacc c hc
    exact (Clause.typed_of_analyze c hΓ (Prod.ext rfl hu)).2
  · intro t' ht'
    obtain ⟨t, ht, rfl⟩ := Option.map_eq_some_iff.1 ht'
    obtain ⟨τ, hτ⟩ := htime t ht
    exact ⟨τ, (Term.typed_of_analyze t hΓ (Prod.ext rfl hτ)).2⟩
  · intro t' ht'
    obtain ⟨t, ht, rfl⟩ := Option.map_eq_some_iff.1 ht'
    obtain ⟨τ, hτ⟩ := hspace t ht
    exact ⟨τ, (Term.typed_of_analyze t hΓ (Prod.ext rfl hτ)).2⟩

/-- The analysis succeeds exactly on the specifications that declare their
output and input and whose contracts are derivable. -/
theorem analyze_ok_iff (spec : Specification) :
    (∃ d, spec.analyze.2 = .ok d) ↔
      spec.Declares outputName ∧ spec.Declares inputName ∧ spec.Typed .free := by
  have hΓ := spec.env_agrees
  have hparts : spec.Typed .free ↔
      (∀ c ∈ spec.accuracy, ∃ u, (c.analyze spec.env).2 = .ok u) ∧
      (∀ t ∈ spec.time, ∃ τ, (t.analyze spec.env).2 = .ok τ) ∧
      ∀ t ∈ spec.space, ∃ τ, (t.analyze spec.env).2 = .ok τ := by
    simp only [Clause.analyze_ok_iff hΓ, Term.analyze_ok_iff hΓ]
    exact ⟨fun h => ⟨h.accuracy, h.time, h.space⟩, fun h => ⟨h.1, h.2.1, h.2.2⟩⟩
  rw [hparts]
  constructor
  · rintro ⟨d, hd⟩
    obtain ⟨hdecl, hacc, htime, hspace, -⟩ := (analyze_eq_ok_iff spec _ d).1 (Prod.ext rfl hd)
    exact ⟨hdecl.1, hdecl.2, hacc, htime, hspace⟩
  · rintro ⟨hout, hin, hacc, htime, hspace⟩
    have h := (analyze_eq_ok_iff spec _ _).2 ⟨⟨hout, hin⟩, hacc, htime, hspace, rfl, rfl⟩
    exact ⟨spec.domain, by rw [h]⟩

/-- The analysis decides the typing rules. It succeeds exactly on the
specifications that declare their output and input and whose contracts are
derivable. On success it has left every scope that it entered, and it hands back
the same tree with every slot filled: each term of the tree records the type that
the rules give it in the environment of its place, and the rules give no term two
types. -/
theorem analyze_decides_typing (spec : Specification) :
    ((∃ d, spec.analyze.2 = .ok d) ↔
      spec.Declares outputName ∧ spec.Declares inputName ∧ spec.Typed .free) ∧
    (∀ d, spec.analyze.2 = .ok d →
      (spec.typecheck spec.env).2 = spec.env ∧
      spec.analyze.1.eraseTypes = spec.eraseTypes ∧
      spec.analyze.1.Typed .filled ∧
      ∀ t ∈ spec.analyze.1.terms, ∃ Γ τ, t.Annotated Γ τ ∧ t.ty = some τ) ∧
    ∀ (Γ : LexicalEnv) (t : Term) (τ τ' : ValueType),
      t.HasType Γ τ → t.HasType Γ τ' → τ = τ' := by
  refine ⟨analyze_ok_iff spec, ?_, fun Γ t τ τ' h h' => h.unique h'⟩
  intro d hd
  have hann : spec.analyze.1.Typed .filled := annotated_of_analyze (d := d) (Prod.ext rfl hd)
  refine ⟨env_of_analyze hd, eraseTypes_analyze spec, hann, ?_⟩
  intro t ht
  obtain ⟨Γ, τ, hτ⟩ := hann.of_mem_terms ht
  exact ⟨Γ, τ, hτ, hτ.ty_eq⟩

/-- The numbers in the rows of a list of lists, bounded by the number of rows.
The second range walks the variable of the first, and the second declaration of
`Input` counts. -/
def boundedRows : Specification where
  decls := [⟨"Output", .scalar, .dummy⟩, ⟨"Input", .scalar, .dummy⟩,
    ⟨"Input", .sequence (.sequence .scalar), .dummy⟩]
  accuracy := some (.letIn .dummy "m" (.sizeOf {} (.identifier {} "Input"))
    (.forAll .dummy [.mk .dummy "row" (.identifier {} "Input") .elements,
        .mk .dummy "x" (.identifier {} "row") .elements]
      (.compare .dummy (.identifier {} "x") .le (.identifier {} "m"))))

theorem analyze_decides_typing_boundedRows :
    (∃ d, boundedRows.analyze.2 = .ok d) ∧ boundedRows.Typed .free ∧
      boundedRows.analyze.1.Typed .filled := by
  refine ⟨⟨.none, rfl⟩, ?_, ?_⟩
  · exact ((analyze_decides_typing boundedRows).1.1 ⟨.none, rfl⟩).2.2
  · exact ((analyze_decides_typing boundedRows).2.1 .none rfl).2.2.1

end Specification

end StatContract
