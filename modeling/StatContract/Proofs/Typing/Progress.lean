import StatContract.Proofs.Typing.Reanalysis
import StatContract.Proofs.Typing.Steps

/-!
# How far the analysis gets

The analysis of a tree with empty slots works off the checks of the tree in evaluation order and
stops at the first that fails. The induction follows the analysis. Its invariant is that the
environment in use agrees with the one that the binders on the way to the current place lead to,
where the binders are taken from the analysed tree; so what comes after a binder can refer to the
type that was found there.
-/

namespace StatContract

/-- The defect that an analysis reports. -/
def defect? {α : Type} : Except SpecError α → Option SpecError
  | .ok _ => none
  | .error e => some e

@[simp] theorem defect?_map {α β : Type} (f : α → β) (x : Except SpecError α) :
    defect? (x.map f) = defect? x := by
  cases x <;> rfl

mutual

/-- The analysis of a clause without types works off the checks in the clause. -/
theorem Clause.reports_analyze {Γ : LexicalEnv} : ∀ (c : Clause) {binders : List Binder}
    {Δ : LexicalEnv} {env : TypeEnv}, Binder.Extend Γ binders Δ → env.Agrees Δ →
      (∀ n ∈ c.nodes, n.IsBlank) →
      Reports Γ ((c.analyze env).1.steps binders) (defect? (c.analyze env).2)
  | .forAll span ranges body, binders, Δ, env, hΔ, henv, hblank => by
      rw [Clause.nodes, List.forall_mem_cons, List.forall_mem_append] at hblank
      obtain ⟨-, hblankRanges, hblankBody⟩ := hblank
      have hranges := Range.reports_analyzeList ranges hΔ henv.push hblankRanges
      rw [Clause.analyze]
      rcases hr : Range.analyzeList env.push ranges with ⟨ranges', e | env'⟩
      · rw [hr] at hranges
        dsimp only
        rw [Clause.steps]
        exact hranges.1.stop ((body.covers _).isBlank hblankBody)
      · rw [hr] at hranges
        obtain ⟨Δ', hΔ', henv'⟩ := hranges.2 env' rfl
        dsimp only
        rw [Clause.steps]
        exact hranges.1.append (body.reports_analyze hΔ' henv' hblankBody)
  | .letIn span name value body, binders, Δ, env, hΔ, henv, hblank => by
      rw [Clause.nodes, List.forall_mem_cons, List.forall_mem_append] at hblank
      obtain ⟨-, hblankValue, hblankBody⟩ := hblank
      have hvalue := value.reports_analyze hΔ henv hblankValue
      rw [Clause.analyze]
      rcases hv : value.analyze env with ⟨value', e | τ⟩ <;> rw [hv] at hvalue <;> dsimp only <;>
        rw [Clause.steps]
      · exact hvalue.stop ((body.covers _).isBlank hblankBody)
      · have hvalue' := (Term.typed_of_analyze value henv hv).2.hasType
        exact hvalue.append (body.reports_analyze (.value hΔ hvalue') (henv.push.define name τ)
          hblankBody)
  | .membership span item collection, binders, Δ, env, hΔ, henv, hblank => by
      rw [Clause.nodes, List.forall_mem_cons, List.forall_mem_append] at hblank
      obtain ⟨-, hblankItem, hblankCollection⟩ := hblank
      have hitem := item.reports_analyze hΔ henv hblankItem
      rw [Clause.analyze]
      rcases hi : item.analyze env with ⟨item', e | τ⟩ <;> rw [hi] at hitem <;> dsimp only <;>
        rw [Clause.steps]
      · exact hitem.stop ((collection.covers _).isBlank hblankCollection)
      · rw [defect?_map]
        exact hitem.append (collection.reports_analyze hΔ henv hblankCollection)
  | .approx span lhs rhs, binders, Δ, env, hΔ, henv, hblank => by
      rw [Clause.nodes, List.forall_mem_cons, List.forall_mem_append] at hblank
      obtain ⟨-, hblankLhs, hblankRhs⟩ := hblank
      have hlhs := lhs.reports_analyze hΔ henv hblankLhs
      rw [Clause.analyze]
      by_cases hout : lhs.isIdentifier outputName = true
      · obtain ⟨note, rfl⟩ := (Term.isIdentifier_iff lhs outputName).1 hout
        rw [if_pos hout]
        simp only [Term.analyze, defect?_map] at hlhs ⊢
        rw [Clause.steps]
        -- A check that the left side is the output passes without any type to record.
        refine .pass .output ?_ (hlhs.append (rhs.reports_analyze hΔ henv hblankRhs))
        rintro _ ⟨⟩
      · rw [if_neg hout]
        dsimp only
        rw [Clause.steps]
        refine .fail (.approxTarget (by simpa using hout)) ?_
        rw [List.forall_mem_cons, List.forall_mem_append]
        refine ⟨?_, (lhs.covers _).isBlank hblankLhs, (rhs.covers _).isBlank hblankRhs⟩
        rintro _ ⟨⟩
  | .compare span lhs op rhs, binders, Δ, env, hΔ, henv, hblank => by
      rw [Clause.nodes, List.forall_mem_cons, List.forall_mem_append] at hblank
      obtain ⟨-, hblankLhs, hblankRhs⟩ := hblank
      have hlhs := lhs.reports_analyze hΔ henv hblankLhs
      rw [Clause.analyze]
      rcases hl : lhs.analyze env with ⟨lhs', e | τ⟩ <;> rw [hl] at hlhs <;> dsimp only <;>
        rw [Clause.steps]
      · exact hlhs.stop ((rhs.covers _).isBlank hblankRhs)
      · rw [defect?_map]
        exact hlhs.append (rhs.reports_analyze hΔ henv hblankRhs)
  | .logic span lhs op rhs, binders, Δ, env, hΔ, henv, hblank => by
      rw [Clause.nodes, List.forall_mem_cons, List.forall_mem_append] at hblank
      obtain ⟨-, hblankLhs, hblankRhs⟩ := hblank
      have hlhs := lhs.reports_analyze hΔ henv hblankLhs
      rw [Clause.analyze]
      rcases hl : lhs.analyze env with ⟨lhs', e | _⟩ <;> rw [hl] at hlhs <;> dsimp only <;>
        rw [Clause.steps]
      · exact hlhs.stop ((rhs.covers _).isBlank hblankRhs)
      · exact hlhs.append (rhs.reports_analyze hΔ henv hblankRhs)
  | .not span inner, binders, Δ, env, hΔ, henv, hblank => by
      rw [Clause.nodes, List.forall_mem_cons] at hblank
      rw [Clause.analyze]
      dsimp only
      rw [Clause.steps]
      exact inner.reports_analyze hΔ henv hblank.2

/-- The analysis of a term without types works off the checks in the term. -/
theorem Term.reports_analyze {Γ : LexicalEnv} : ∀ (t : Term) {binders : List Binder}
    {Δ : LexicalEnv} {env : TypeEnv}, Binder.Extend Γ binders Δ → env.Agrees Δ →
      (∀ n ∈ t.nodes, n.IsBlank) →
      Reports Γ ((t.analyze env).1.steps binders) (defect? (t.analyze env).2)
  | .constant note value, binders, Δ, env, hΔ, henv, hblank => by
      rw [Term.analyze]
      exact Reports.nil.own hΔ (.constant rfl)
  | .probability note trials body, binders, Δ, env, hΔ, henv, hblank => by
      rw [Term.nodes, List.forall_mem_cons] at hblank
      have hnote : note.ty = none := hblank.1 _ rfl
      have hbody := body.reports_analyze hΔ henv hblank.2
      rw [Term.analyze]
      rcases hb : body.analyze env with ⟨body', e | _⟩ <;> rw [hb] at hbody <;> dsimp only <;>
        rw [Term.steps]
      · exact hbody.stop (Step.isBlank_type hnote)
      · exact hbody.own hΔ (.probability (Clause.typed_of_analyze body henv hb).2 rfl)
  | .probabilityOverItems note ranges body, binders, Δ, env, hΔ, henv, hblank => by
      rw [Term.nodes, List.forall_mem_cons, List.forall_mem_append] at hblank
      obtain ⟨hblankOwn, hblankRanges, hblankBody⟩ := hblank
      have hnote : note.ty = none := hblankOwn _ rfl
      have hranges := Range.reports_analyzeList ranges hΔ henv.push hblankRanges
      rw [Term.analyze]
      rcases hr : Range.analyzeList env.push ranges with ⟨ranges', e | env'⟩ <;>
        rw [hr] at hranges <;> dsimp only
      · rw [Term.steps]
        exact (hranges.1.stop ((body.covers _).isBlank hblankBody)).stop (Step.isBlank_type hnote)
      · obtain ⟨Δ', hΔ', henv'⟩ := hranges.2 env' rfl
        have hbody := body.reports_analyze hΔ' henv' hblankBody
        rcases hb : body.analyze env' with ⟨body', e | _⟩ <;> rw [hb] at hbody <;> dsimp only <;>
          rw [Term.steps]
        · exact (hranges.1.append hbody).stop (Step.isBlank_type hnote)
        -- Ranges and body are analysed, so the rules give the whole a type, too.
        · have hown : Term.analyze env (.probabilityOverItems note ranges body) =
              (.probabilityOverItems (note.typed .scalar) ranges' body', .ok .scalar) := by
            simp only [Term.analyze, hr, hb]
          exact (hranges.1.append hbody).own hΔ (Term.typed_of_analyze _ henv hown).2
  | .expectation note trials body, binders, Δ, env, hΔ, henv, hblank => by
      rw [Term.nodes, List.forall_mem_cons] at hblank
      have hnote : note.ty = none := hblank.1 _ rfl
      have hbody := body.reports_analyze hΔ henv hblank.2
      rw [Term.analyze]
      rcases hb : body.analyze env with ⟨body', e | _⟩ <;> rw [hb] at hbody <;> dsimp only <;>
        rw [Term.steps]
      · exact hbody.stop (Step.isBlank_type hnote)
      · exact hbody.own hΔ (.expectation (Term.typed_of_analyze body henv hb).2 rfl)
  | .expectationOverItems note ranges body, binders, Δ, env, hΔ, henv, hblank => by
      rw [Term.nodes, List.forall_mem_cons, List.forall_mem_append] at hblank
      obtain ⟨hblankOwn, hblankRanges, hblankBody⟩ := hblank
      have hnote : note.ty = none := hblankOwn _ rfl
      have hranges := Range.reports_analyzeList ranges hΔ henv.push hblankRanges
      rw [Term.analyze]
      rcases hr : Range.analyzeList env.push ranges with ⟨ranges', e | env'⟩ <;>
        rw [hr] at hranges <;> dsimp only
      · rw [Term.steps]
        exact (hranges.1.stop ((body.covers _).isBlank hblankBody)).stop (Step.isBlank_type hnote)
      · obtain ⟨Δ', hΔ', henv'⟩ := hranges.2 env' rfl
        have hbody := body.reports_analyze hΔ' henv' hblankBody
        rcases hb : body.analyze env' with ⟨body', e | _⟩ <;> rw [hb] at hbody <;> dsimp only <;>
          rw [Term.steps]
        · exact (hranges.1.append hbody).stop (Step.isBlank_type hnote)
        · have hown : Term.analyze env (.expectationOverItems note ranges body) =
              (.expectationOverItems (note.typed .scalar) ranges' body', .ok .scalar) := by
            simp only [Term.analyze, hr, hb]
          exact (hranges.1.append hbody).own hΔ (Term.typed_of_analyze _ henv hown).2
  | .lookup note collection key, binders, Δ, env, hΔ, henv, hblank => by
      rw [Term.nodes, List.forall_mem_cons, List.forall_mem_append] at hblank
      obtain ⟨hblankOwn, hblankCollection, hblankKey⟩ := hblank
      have hnote : note.ty = none := hblankOwn _ rfl
      have hcollection := collection.reports_analyze hΔ henv hblankCollection
      have hkey := key.reports_analyze hΔ henv hblankKey
      rw [Term.analyze]
      rcases hc : collection.analyze env with ⟨collection', e | τ⟩ <;> rw [hc] at hcollection <;>
        dsimp only
      · rw [Term.steps]
        exact (hcollection.stop ((key.covers _).isBlank hblankKey)).stop (Step.isBlank_type hnote)
      · rcases hk : key.analyze env with ⟨key', e | κ⟩ <;> rw [hk] at hkey <;> dsimp only
        · rw [Term.steps]
          exact (hcollection.append hkey).stop (Step.isBlank_type hnote)
        · have hcollection' := (Term.typed_of_analyze collection henv hc).2
          have hkey' := (Term.typed_of_analyze key henv hk).2
          cases hentry : τ.entry? with
          | none =>
              dsimp only
              rw [Term.steps]
              refine (hcollection.append hkey).append (.fail (.notIndexable hΔ hcollection'.hasType
                hkey'.hasType ?_) (Step.isBlank_type hnote))
              cases τ <;> simp [ValueType.entry?] at hentry ⊢
          | some entry =>
              dsimp only
              rw [Term.steps]
              have hown : Term.analyze env (.lookup note collection key) =
                  (.lookup (note.typed entry) collection' key', .ok entry) := by
                simp only [Term.analyze, hc, hk, hentry]
              exact (hcollection.append hkey).own hΔ (Term.typed_of_analyze _ henv hown).2
  | .identifier note name, binders, Δ, env, hΔ, henv, hblank => by
      rw [Term.analyze, henv.typeOf]
      exact Reports.nil.own hΔ (.identifier rfl)
  | .tuple note elements, binders, Δ, env, hΔ, henv, hblank => by
      rw [Term.nodes, List.forall_mem_cons] at hblank
      have hnote : note.ty = none := hblank.1 _ rfl
      have helements := Term.reports_analyzeList elements hΔ henv hblank.2
      rw [Term.analyze]
      rcases he : Term.analyzeList env elements with ⟨elements', e | types⟩ <;>
        rw [he] at helements <;> dsimp only <;> rw [Term.steps]
      · exact helements.stop (Step.isBlank_type hnote)
      · have hown : Term.analyze env (.tuple note elements) =
            (.tuple (note.typed (.sequence (types.headD .scalar))) elements',
              .ok (.sequence (types.headD .scalar))) := by
          simp only [Term.analyze, he]
        exact helements.own hΔ (Term.typed_of_analyze _ henv hown).2
  | .binary note lhs op rhs, binders, Δ, env, hΔ, henv, hblank => by
      rw [Term.nodes, List.forall_mem_cons, List.forall_mem_append] at hblank
      obtain ⟨hblankOwn, hblankLhs, hblankRhs⟩ := hblank
      have hnote : note.ty = none := hblankOwn _ rfl
      have hlhs := lhs.reports_analyze hΔ henv hblankLhs
      have hrhs := rhs.reports_analyze hΔ henv hblankRhs
      rw [Term.analyze]
      rcases hl : lhs.analyze env with ⟨lhs', e | τ⟩ <;> rw [hl] at hlhs <;> dsimp only
      · rw [Term.steps]
        exact (hlhs.stop ((rhs.covers _).isBlank hblankRhs)).stop (Step.isBlank_type hnote)
      · rcases hr : rhs.analyze env with ⟨rhs', e | σ⟩ <;> rw [hr] at hrhs <;> dsimp only
        · rw [Term.steps]
          exact (hlhs.append hrhs).stop (Step.isBlank_type hnote)
        · have hlhs' := (Term.typed_of_analyze lhs henv hl).2
          have hrhs' := (Term.typed_of_analyze rhs henv hr).2
          by_cases heq : τ = σ
          · subst heq
            rw [if_pos rfl, Term.steps]
            exact (hlhs.append hrhs).own hΔ (.binary hlhs' hrhs' rfl)
          · rw [if_neg heq, Term.steps]
            exact (hlhs.append hrhs).append (.fail (.operandMismatch hΔ hlhs'.hasType
              hrhs'.hasType heq) (Step.isBlank_type hnote))
  | .sizeOf note collection, binders, Δ, env, hΔ, henv, hblank => by
      rw [Term.nodes, List.forall_mem_cons] at hblank
      have hnote : note.ty = none := hblank.1 _ rfl
      have hcollection := collection.reports_analyze hΔ henv hblank.2
      rw [Term.analyze]
      rcases hc : collection.analyze env with ⟨collection', e | _⟩ <;> rw [hc] at hcollection <;>
        dsimp only <;> rw [Term.steps]
      · exact hcollection.stop (Step.isBlank_type hnote)
      · exact hcollection.own hΔ (.sizeOf (Term.typed_of_analyze collection henv hc).2 rfl)
  | .call note name args, binders, Δ, env, hΔ, henv, hblank => by
      rw [Term.nodes, List.forall_mem_cons] at hblank
      have hnote : note.ty = none := hblank.1 _ rfl
      have hargs := Term.reports_analyzeList args hΔ henv hblank.2
      rw [Term.analyze]
      rcases ha : Term.analyzeList env args with ⟨args', e | types⟩ <;> rw [ha] at hargs <;>
        dsimp only <;> rw [Term.steps]
      · exact hargs.stop (Step.isBlank_type hnote)
      · have hown : Term.analyze env (.call note name args) =
            (.call (note.typed (env.typeOf name)) name args', .ok (env.typeOf name)) := by
          simp only [Term.analyze, ha]
        exact hargs.own hΔ (Term.typed_of_analyze _ henv hown).2

/-- The analysis of ranges without types works off the checks in the ranges, and leads to the
environment of their body. -/
theorem Range.reports_analyzeList {Γ : LexicalEnv} : ∀ (ranges : List Range)
    {binders : List Binder} {Δ : LexicalEnv} {env : TypeEnv}, Binder.Extend Γ binders Δ →
      env.Agrees Δ → (∀ n ∈ Range.nodesOfAll ranges, n.IsBlank) →
      Reports Γ (Range.stepsOfAll binders (Range.analyzeList env ranges).1)
        (defect? (Range.analyzeList env ranges).2) ∧
      ∀ env', (Range.analyzeList env ranges).2 = .ok env' →
        ∃ Δ', Binder.Extend Γ (Range.addBinders binders (Range.analyzeList env ranges).1) Δ' ∧
          env'.Agrees Δ'
  | [], binders, Δ, env, hΔ, henv, hblank => by
      rw [Range.analyzeList]
      refine ⟨.nil, ?_⟩
      rintro _ ⟨⟩
      exact ⟨Δ, hΔ, henv⟩
  | .mk span var collection mode :: rest, binders, Δ, env, hΔ, henv, hblank => by
      rw [Range.nodesOfAll, List.forall_mem_cons, List.forall_mem_append] at hblank
      obtain ⟨-, hblankCollection, hblankRest⟩ := hblank
      -- Blank is what follows the collection, whatever the analysis has made of the collection.
      have hblankList (collection : Term) :
          ∀ p ∈ Step.mk binders (.list collection) ::
            Range.stepsOfAll (.range var collection mode :: binders) rest, p.IsBlank := by
        rw [List.forall_mem_cons]
        refine ⟨?_, (Range.covers rest _).isBlank hblankRest⟩
        rintro _ ⟨⟩
      have hcollection := collection.reports_analyze hΔ henv hblankCollection
      rw [Range.analyzeList]
      rcases hc : collection.analyze env with ⟨collection', e | τ⟩ <;> rw [hc] at hcollection <;>
        dsimp only
      · rw [Range.stepsOfAll]
        refine ⟨hcollection.stop (hblankList collection'), ?_⟩
        rintro _ ⟨⟩
      · have hcollection' := (Term.typed_of_analyze collection henv hc).2.hasType
        cases helement : τ.element? with
        | none =>
            dsimp only
            rw [Range.stepsOfAll]
            refine ⟨hcollection.append (.fail (.notIterable hΔ hcollection' ?_)
              (hblankList collection')), ?_⟩
            · rintro σ rfl
              cases helement
            · rintro _ ⟨⟩
        | some element =>
            obtain rfl := (ValueType.element?_eq_some_iff τ element).1 helement
            have hrest := Range.reports_analyzeList rest (.range hΔ hcollection')
              (henv.define var (mode.varType element)) hblankRest
            dsimp only
            rw [Range.stepsOfAll]
            refine ⟨hcollection.append (.pass (.list hΔ hcollection') ?_ hrest.1), hrest.2⟩
            rintro _ ⟨⟩

/-- The analysis of terms without types works off the checks in the terms. -/
theorem Term.reports_analyzeList {Γ : LexicalEnv} : ∀ (ts : List Term) {binders : List Binder}
    {Δ : LexicalEnv} {env : TypeEnv}, Binder.Extend Γ binders Δ → env.Agrees Δ →
      (∀ n ∈ Term.nodesOfAll ts, n.IsBlank) →
      Reports Γ (Term.stepsOfAll binders (Term.analyzeList env ts).1)
        (defect? (Term.analyzeList env ts).2)
  | [], binders, Δ, env, hΔ, henv, hblank => by
      rw [Term.analyzeList]
      exact .nil
  | t :: rest, binders, Δ, env, hΔ, henv, hblank => by
      rw [Term.nodesOfAll, List.forall_mem_append] at hblank
      have ht := t.reports_analyze hΔ henv hblank.1
      rw [Term.analyzeList]
      rcases h : t.analyze env with ⟨t', e | τ⟩ <;> rw [h] at ht <;> dsimp only <;>
        rw [Term.stepsOfAll]
      · exact ht.stop ((Term.coversOfAll rest _).isBlank hblank.2)
      · rw [defect?_map]
        exact ht.append (Term.reports_analyzeList rest hΔ henv hblank.2)

end

namespace Specification

theorem reports_analyzePart {α β : Type} {Γ : LexicalEnv} {f : α → α × Except SpecError β}
    {steps : α → List Step} {part : Option α}
    (h : ∀ a ∈ part, Reports Γ (steps (f a).1) (defect? (f a).2)) :
    Reports Γ (((analyzePart f part).1.map steps).getD [])
      (analyzePart f part).2 := by
  cases part with
  | none => exact .nil
  | some a =>
      have ha := h a rfl
      rcases hf : f a with ⟨a', e | b⟩ <;> rw [hf] at ha <;> simp only [analyzePart, hf] <;>
        exact ha

/-- The analysis of a specification without types that declares its output and input works off the
checks in the specification. -/
theorem reports_analyze (spec : Specification) (hdecl : spec.missingDeclaration? = none)
    (hblank : ∀ n ∈ spec.nodes, n.IsBlank) :
    Reports spec.lexicalEnv spec.analyze.1.steps (defect? spec.analyze.2) := by
  rw [nodes, List.forall_mem_append, List.forall_mem_append] at hblank
  obtain ⟨⟨hblankAccuracy, hblankTime⟩, hblankSpace⟩ := hblank
  have hmem {α : Type} {nodes : α → List Node} {part : Option α}
      (h : ∀ n ∈ (part.map nodes).getD [], n.IsBlank) : ∀ a ∈ part, ∀ n ∈ nodes a, n.IsBlank := by
    rintro a ⟨⟩
    exact h
  have haccuracy := reports_analyzePart fun c hc =>
    Clause.reports_analyze c .nil spec.env_agrees (hmem hblankAccuracy c hc)
  have htime := reports_analyzePart fun t ht =>
    Term.reports_analyze t .nil spec.env_agrees (hmem hblankTime t ht)
  have hspace := reports_analyzePart fun t ht =>
    Term.reports_analyze t .nil spec.env_agrees (hmem hblankSpace t ht)
  have hrestTime := (covers_part (fun t => t.covers []) spec.time).isBlank hblankTime
  have hrestSpace := (covers_part (fun t => t.covers []) spec.space).isBlank hblankSpace
  have h := spec.analyzes_analyze
  -- One case for each part that the analysis can stop in.
  generalize spec.analyze = x at h ⊢
  cases h with
  | undeclared hname =>
      rw [hdecl] at hname
      cases hname
  | accuracy _ ha =>
      rw [ha] at haccuracy
      exact (haccuracy.stop hrestTime).stop hrestSpace
  | time _ ha ht =>
      rw [ha] at haccuracy
      rw [ht] at htime
      exact (haccuracy.append htime).stop hrestSpace
  | space _ ha ht hs =>
      rw [ha] at haccuracy
      rw [ht] at htime
      rw [hs] at hspace
      exact (haccuracy.append htime).append hspace
  | passed _ ha ht hs =>
      rw [ha] at haccuracy
      rw [ht] at htime
      rw [hs] at hspace
      exact (haccuracy.append htime).append hspace

/-- The analysis touches type slots only and stops at the first defect. Whether it succeeds or
fails, the tree it hands back differs from the given one in its slots only. Its result does not
depend on what the slots held, and analysing again changes nothing. When all slots are empty, the
output and the input are declared and the analysis fails, then the checks in evaluation order fall
in two: those before some check pass, and the types they are about are recorded as the rules give
them at their place; that check fails by the rules with the defect reported, and from it on no type
is recorded. -/
theorem analyze_stops_at_first_defect (spec : Specification) :
    spec.analyze.1.eraseTypes = spec.eraseTypes ∧
    (∀ spec' : Specification, spec'.eraseTypes = spec.eraseTypes →
      EndsAlike spec'.analyze spec.analyze) ∧
    spec.analyze.1.analyze = spec.analyze ∧
    spec.analyze.1.evaluationOrder.Perm spec.analyze.1.terms ∧
    ∀ e, (∀ t ∈ spec.terms, t.ty = none) → spec.Declares outputName → spec.Declares inputName →
      spec.analyze.2 = .error e →
      ∃ before s after, spec.analyze.1.steps = before ++ s :: after ∧
        (∀ p ∈ before, p.Passes spec.lexicalEnv ∧ p.Records spec.lexicalEnv) ∧
        s.FailsWith spec.lexicalEnv e ∧ ¬ s.Passes spec.lexicalEnv ∧
        ∀ p ∈ s :: after, p.IsBlank := by
  refine ⟨eraseTypes_analyze spec, fun spec' h => analyze_of_eraseTypes_eq h, analyze_analyze spec,
    evaluationOrder_perm _, ?_⟩
  intro e hempty houtput hinput herror
  have hdecl := (missingDeclaration?_eq_none_iff spec).2 ⟨houtput, hinput⟩
  have hblank : ∀ n ∈ spec.nodes, n.IsBlank := by
    rintro _ hn t rfl
    exact hempty t (List.mem_filterMap.2 ⟨.term t, hn, rfl⟩)
  have hreports := reports_analyze spec hdecl hblank
  rw [herror] at hreports
  obtain ⟨before, s, after, hsteps, hbefore, hs, hafter⟩ := hreports.exists_first
  exact ⟨before, s, after, hsteps, hbefore, hs, hs.not_passes, hafter⟩

/-- For every number in the input, its sum with the input scaled by its length is positive. A list
cannot be scaled. -/
def scaledInput : Specification where
  decls := [{ name := "Output", ty := .scalar }, { name := "Input", ty := .sequence .scalar }]
  accuracy := some (.letIn .dummy "n" (.sizeOf {} (.identifier {} "Input"))
    (.forAll .dummy [.mk .dummy "x" (.identifier {} "Input") .elements]
      (.compare .dummy
        (.binary {} (.identifier {} "x") .add
          (.binary {} (.identifier {} "n") .mul (.identifier {} "Input")))
        .gt (.constant {} "0"))))
  time := some (.identifier {} "n")

/-- The operands of the product are the last to get a type. The sum, the constant and the time stay
without one. -/
theorem analyze_stops_at_first_defect_scaledInput :
    ∃ e, scaledInput.analyze.2 = .error e ∧
      scaledInput.analyze.1.evaluationOrder.map Term.ty =
        [some (.sequence .scalar), some .scalar, some (.sequence .scalar), some .scalar,
          some .scalar, some (.sequence .scalar), none, none, none, none] ∧
      scaledInput.analyze.1.analyze.2 = .error e ∧
      ∃ before s after, scaledInput.analyze.1.steps = before ++ s :: after ∧
        s.FailsWith scaledInput.lexicalEnv e := by
  obtain ⟨-, hslots, -, -, hfirst⟩ := analyze_stops_at_first_defect scaledInput
  refine ⟨_, rfl, rfl, ?_, ?_⟩
  · exact (hslots _ (eraseTypes_analyze scaledInput)).snd_eq
  · obtain ⟨before, s, after, hsteps, -, hs, -⟩ :=
      hfirst _ (by decide) ⟨_, .head _, rfl⟩ ⟨_, .tail _ (.head _), rfl⟩ rfl
    exact ⟨before, s, after, hsteps, hs⟩

end Specification

end StatContract
