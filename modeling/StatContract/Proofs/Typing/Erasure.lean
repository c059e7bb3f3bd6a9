import StatContract.Proofs.Typing.Balance

/-!
# What the analysis leaves alone

`eraseTypes` empties all type slots of a tree and keeps everything else. Two
trees with the same erasure differ in their slots only, and a tree has the same
erasure as what the analysis hands back for it, whether the analysis succeeds
or stops half way. What is read off a tree without its slots, such as the
domain of a clause, is therefore the same before and after the analysis.
-/

namespace StatContract

/-- The annotation with an empty slot. -/
def Note.eraseType (n : Note) : Note := { n with ty := none }

@[simp] theorem Note.eraseType_typed (n : Note) (τ : ValueType) :
    (n.typed τ).eraseType = n.eraseType := rfl

mutual

/-- The clause with all type slots emptied. -/
def Clause.eraseTypes : Clause → Clause
  | .forAll span ranges body => .forAll span (Range.eraseTypesOfAll ranges) body.eraseTypes
  | .letIn span name value body => .letIn span name value.eraseTypes body.eraseTypes
  | .membership span item collection => .membership span item.eraseTypes collection.eraseTypes
  | .approx span lhs rhs => .approx span lhs.eraseTypes rhs.eraseTypes
  | .compare span lhs op rhs => .compare span lhs.eraseTypes op rhs.eraseTypes
  | .logic span lhs op rhs => .logic span lhs.eraseTypes op rhs.eraseTypes
  | .not span inner => .not span inner.eraseTypes

/-- The term with all type slots emptied. -/
def Term.eraseTypes : Term → Term
  | .constant note value => .constant note.eraseType value
  | .probability note trials body => .probability note.eraseType trials body.eraseTypes
  | .probabilityOverItems note ranges body =>
    .probabilityOverItems note.eraseType (Range.eraseTypesOfAll ranges) body.eraseTypes
  | .expectation note trials body => .expectation note.eraseType trials body.eraseTypes
  | .expectationOverItems note ranges body =>
    .expectationOverItems note.eraseType (Range.eraseTypesOfAll ranges) body.eraseTypes
  | .lookup note collection key =>
    .lookup note.eraseType collection.eraseTypes key.eraseTypes
  | .identifier note name => .identifier note.eraseType name
  | .tuple note elements => .tuple note.eraseType (Term.eraseTypesOfAll elements)
  | .binary note lhs op rhs => .binary note.eraseType lhs.eraseTypes op rhs.eraseTypes
  | .sizeOf note collection => .sizeOf note.eraseType collection.eraseTypes
  | .call note name args => .call note.eraseType name (Term.eraseTypesOfAll args)

/-- The ranges with all type slots emptied. -/
def Range.eraseTypesOfAll : List Range → List Range
  | [] => []
  | .mk span var collection mode :: rest =>
    .mk span var collection.eraseTypes mode :: Range.eraseTypesOfAll rest

/-- The terms with all type slots emptied. -/
def Term.eraseTypesOfAll : List Term → List Term
  | [] => []
  | t :: rest => t.eraseTypes :: Term.eraseTypesOfAll rest

end

/-- The specification with all type slots emptied. -/
def Specification.eraseTypes (spec : Specification) : Specification :=
  { spec with
    accuracy := spec.accuracy.map Clause.eraseTypes
    time := spec.time.map Term.eraseTypes
    space := spec.space.map Term.eraseTypes }

mutual

/-- Empty slots stay empty. -/
theorem Clause.eraseTypes_eraseTypes : ∀ c : Clause, c.eraseTypes.eraseTypes = c.eraseTypes
  | .forAll _ ranges body => by
      simp only [Clause.eraseTypes, Range.eraseTypesOfAll_eraseTypesOfAll ranges,
        body.eraseTypes_eraseTypes]
  | .letIn _ _ value body => by
      simp only [Clause.eraseTypes, value.eraseTypes_eraseTypes, body.eraseTypes_eraseTypes]
  | .membership _ item collection => by
      simp only [Clause.eraseTypes, item.eraseTypes_eraseTypes, collection.eraseTypes_eraseTypes]
  | .approx _ lhs rhs => by
      simp only [Clause.eraseTypes, lhs.eraseTypes_eraseTypes, rhs.eraseTypes_eraseTypes]
  | .compare _ lhs _ rhs => by
      simp only [Clause.eraseTypes, lhs.eraseTypes_eraseTypes, rhs.eraseTypes_eraseTypes]
  | .logic _ lhs _ rhs => by
      simp only [Clause.eraseTypes, lhs.eraseTypes_eraseTypes, rhs.eraseTypes_eraseTypes]
  | .not _ inner => by simp only [Clause.eraseTypes, inner.eraseTypes_eraseTypes]

/-- Empty slots stay empty. -/
theorem Term.eraseTypes_eraseTypes : ∀ t : Term, t.eraseTypes.eraseTypes = t.eraseTypes
  | .constant .. => by simp only [Term.eraseTypes, Note.eraseType]
  | .identifier .. => by simp only [Term.eraseTypes, Note.eraseType]
  | .probability _ _ body => by
      simp only [Term.eraseTypes, Note.eraseType, body.eraseTypes_eraseTypes]
  | .probabilityOverItems _ ranges body => by
      simp only [Term.eraseTypes, Note.eraseType, Range.eraseTypesOfAll_eraseTypesOfAll ranges,
        body.eraseTypes_eraseTypes]
  | .expectation _ _ body => by
      simp only [Term.eraseTypes, Note.eraseType, body.eraseTypes_eraseTypes]
  | .expectationOverItems _ ranges body => by
      simp only [Term.eraseTypes, Note.eraseType, Range.eraseTypesOfAll_eraseTypesOfAll ranges,
        body.eraseTypes_eraseTypes]
  | .lookup _ collection key => by
      simp only [Term.eraseTypes, Note.eraseType, collection.eraseTypes_eraseTypes,
        key.eraseTypes_eraseTypes]
  | .tuple _ elements => by
      simp only [Term.eraseTypes, Note.eraseType, Term.eraseTypesOfAll_eraseTypesOfAll elements]
  | .binary _ lhs _ rhs => by
      simp only [Term.eraseTypes, Note.eraseType, lhs.eraseTypes_eraseTypes,
        rhs.eraseTypes_eraseTypes]
  | .sizeOf _ collection => by
      simp only [Term.eraseTypes, Note.eraseType, collection.eraseTypes_eraseTypes]
  | .call _ _ args => by
      simp only [Term.eraseTypes, Note.eraseType, Term.eraseTypesOfAll_eraseTypesOfAll args]

theorem Range.eraseTypesOfAll_eraseTypesOfAll : ∀ ranges : List Range,
    Range.eraseTypesOfAll (Range.eraseTypesOfAll ranges) = Range.eraseTypesOfAll ranges
  | [] => by simp only [Range.eraseTypesOfAll]
  | .mk _ _ collection _ :: rest => by
      simp only [Range.eraseTypesOfAll, collection.eraseTypes_eraseTypes,
        Range.eraseTypesOfAll_eraseTypesOfAll rest]

theorem Term.eraseTypesOfAll_eraseTypesOfAll : ∀ ts : List Term,
    Term.eraseTypesOfAll (Term.eraseTypesOfAll ts) = Term.eraseTypesOfAll ts
  | [] => by simp only [Term.eraseTypesOfAll]
  | t :: rest => by
      simp only [Term.eraseTypesOfAll, t.eraseTypes_eraseTypes,
        Term.eraseTypesOfAll_eraseTypesOfAll rest]

end

theorem Specification.eraseTypes_eraseTypes (spec : Specification) :
    spec.eraseTypes.eraseTypes = spec.eraseTypes := by
  simp only [eraseTypes, Option.map_map, Function.comp_def, Clause.eraseTypes_eraseTypes,
    Term.eraseTypes_eraseTypes]

mutual

theorem Clause.eraseTypes_analyze (env : TypeEnv) :
    ∀ c : Clause, (c.analyze env).1.eraseTypes = c.eraseTypes
  | .forAll span ranges body => by
      have hr := Range.eraseTypes_analyzeList env.push ranges
      rw [Clause.analyze]
      rcases h : Range.analyzeList env.push ranges with ⟨ranges', e | env'⟩
      · simp only [h] at hr
        simp [Clause.eraseTypes, hr]
      · have hb := Clause.eraseTypes_analyze env' body
        simp only [h] at hr
        simp [Clause.eraseTypes, hr, hb]
  | .letIn span name value body => by
      have hv := Term.eraseTypes_analyze env value
      rw [Clause.analyze]
      rcases h : value.analyze env with ⟨value', e | τ⟩
      · simp only [h] at hv
        simp [Clause.eraseTypes, hv]
      · have hb := Clause.eraseTypes_analyze (env.push.define name τ) body
        simp only [h] at hv
        simp [Clause.eraseTypes, hv, hb]
  | .membership span item collection => by
      have hi := Term.eraseTypes_analyze env item
      have hc := Term.eraseTypes_analyze env collection
      rw [Clause.analyze]
      rcases h : item.analyze env with ⟨item', e | τ⟩ <;>
        simp only [h] at hi <;> simp [Clause.eraseTypes, hi, hc]
  | .approx span lhs rhs => by
      have hl := Term.eraseTypes_analyze env lhs
      have hr := Term.eraseTypes_analyze env rhs
      rw [Clause.analyze]
      by_cases hout : lhs.isIdentifier outputName
      · rcases h : lhs.analyze env with ⟨lhs', e | τ⟩ <;>
          simp only [h] at hl <;> simp [Clause.eraseTypes, hout, hl, hr]
      · simp [hout]
  | .compare span lhs op rhs => by
      have hl := Term.eraseTypes_analyze env lhs
      have hr := Term.eraseTypes_analyze env rhs
      rw [Clause.analyze]
      rcases h : lhs.analyze env with ⟨lhs', e | τ⟩ <;>
        simp only [h] at hl <;> simp [Clause.eraseTypes, hl, hr]
  | .logic span lhs op rhs => by
      have hl := Clause.eraseTypes_analyze env lhs
      have hr := Clause.eraseTypes_analyze env rhs
      rw [Clause.analyze]
      rcases h : lhs.analyze env with ⟨lhs', e | _⟩ <;>
        simp only [h] at hl <;> simp [Clause.eraseTypes, hl, hr]
  | .not span inner => by
      have hi := Clause.eraseTypes_analyze env inner
      simp [Clause.analyze, Clause.eraseTypes, hi]

theorem Term.eraseTypes_analyze (env : TypeEnv) :
    ∀ t : Term, (t.analyze env).1.eraseTypes = t.eraseTypes
  | .constant note value => by simp [Term.analyze, Term.eraseTypes]
  | .probability note trials body => by
      have hb := Clause.eraseTypes_analyze env body
      rw [Term.analyze]
      rcases h : body.analyze env with ⟨body', e | _⟩ <;>
        simp only [h] at hb <;> simp [Term.eraseTypes, hb]
  | .probabilityOverItems note ranges body => by
      have hr := Range.eraseTypes_analyzeList env.push ranges
      rw [Term.analyze]
      rcases h : Range.analyzeList env.push ranges with ⟨ranges', e | env'⟩
      · simp only [h] at hr
        simp [Term.eraseTypes, hr]
      · have hb := Clause.eraseTypes_analyze env' body
        simp only [h] at hr
        rcases h' : body.analyze env' with ⟨body', e | _⟩ <;>
          simp only [h'] at hb <;> simp [h', Term.eraseTypes, hr, hb]
  | .expectation note trials body => by
      have hb := Term.eraseTypes_analyze env body
      rw [Term.analyze]
      rcases h : body.analyze env with ⟨body', e | _⟩ <;>
        simp only [h] at hb <;> simp [Term.eraseTypes, hb]
  | .expectationOverItems note ranges body => by
      have hr := Range.eraseTypes_analyzeList env.push ranges
      rw [Term.analyze]
      rcases h : Range.analyzeList env.push ranges with ⟨ranges', e | env'⟩
      · simp only [h] at hr
        simp [Term.eraseTypes, hr]
      · have hb := Term.eraseTypes_analyze env' body
        simp only [h] at hr
        rcases h' : body.analyze env' with ⟨body', e | _⟩ <;>
          simp only [h'] at hb <;> simp [h', Term.eraseTypes, hr, hb]
  | .lookup note collection key => by
      have hc := Term.eraseTypes_analyze env collection
      have hk := Term.eraseTypes_analyze env key
      rw [Term.analyze]
      rcases h : collection.analyze env with ⟨collection', e | τ⟩
      · simp only [h] at hc
        simp [Term.eraseTypes, hc]
      · simp only [h] at hc
        rcases h' : key.analyze env with ⟨key', e | κ⟩
        · simp only [h'] at hk
          simp [Term.eraseTypes, hc, hk]
        · simp only [h'] at hk
          cases he : τ.entry? <;> simp [he, Term.eraseTypes, hc, hk]
  | .identifier note name => by simp [Term.analyze, Term.eraseTypes]
  | .tuple note elements => by
      have hs := Term.eraseTypes_analyzeList env elements
      rw [Term.analyze]
      rcases h : Term.analyzeList env elements with ⟨elements', e | _⟩ <;>
        simp only [h] at hs <;> simp [Term.eraseTypes, hs]
  | .binary note lhs op rhs => by
      have hl := Term.eraseTypes_analyze env lhs
      have hr := Term.eraseTypes_analyze env rhs
      rw [Term.analyze]
      rcases h : lhs.analyze env with ⟨lhs', e | τ⟩
      · simp only [h] at hl
        simp [Term.eraseTypes, hl]
      · simp only [h] at hl
        rcases h' : rhs.analyze env with ⟨rhs', e | σ⟩
        · simp only [h'] at hr
          simp [Term.eraseTypes, hl, hr]
        · simp only [h'] at hr
          by_cases heq : τ = σ <;> simp [heq, Term.eraseTypes, hl, hr]
  | .sizeOf note collection => by
      have hc := Term.eraseTypes_analyze env collection
      rw [Term.analyze]
      rcases h : collection.analyze env with ⟨collection', e | _⟩ <;>
        simp only [h] at hc <;> simp [Term.eraseTypes, hc]
  | .call note name args => by
      have hs := Term.eraseTypes_analyzeList env args
      rw [Term.analyze]
      rcases h : Term.analyzeList env args with ⟨args', e | _⟩ <;>
        simp only [h] at hs <;> simp [Term.eraseTypes, hs]

theorem Range.eraseTypes_analyzeList (env : TypeEnv) : ∀ ranges : List Range,
    Range.eraseTypesOfAll (Range.analyzeList env ranges).1 = Range.eraseTypesOfAll ranges
  | [] => by simp [Range.analyzeList]
  | .mk span var collection mode :: rest => by
      have hc := Term.eraseTypes_analyze env collection
      rw [Range.analyzeList]
      rcases h : collection.analyze env with ⟨collection', e | τ⟩
      · simp only [h] at hc
        simp [Range.eraseTypesOfAll, hc]
      · simp only [h] at hc
        cases he : τ.element? with
        | none => simp [he, Range.eraseTypesOfAll, hc]
        | some element =>
            have hrest :=
              Range.eraseTypes_analyzeList (env.define var (mode.varType element)) rest
            simp [he, Range.eraseTypesOfAll, hc, hrest]

theorem Term.eraseTypes_analyzeList (env : TypeEnv) : ∀ ts : List Term,
    Term.eraseTypesOfAll (Term.analyzeList env ts).1 = Term.eraseTypesOfAll ts
  | [] => by simp [Term.analyzeList]
  | t :: rest => by
      have ht := Term.eraseTypes_analyze env t
      have hrest := Term.eraseTypes_analyzeList env rest
      rw [Term.analyzeList]
      rcases h : t.analyze env with ⟨t', e | τ⟩ <;>
        simp only [h] at ht <;> simp [Term.eraseTypesOfAll, ht, hrest]

end

/-- The domain of a term is read off without its slots. -/
theorem Term.domain_eraseTypes : ∀ t : Term, t.eraseTypes.domain = t.domain
  | .binary _ lhs _ rhs => by
      simp only [Term.eraseTypes, Term.domain, Term.domain_eraseTypes lhs,
        Term.domain_eraseTypes rhs]
  | .constant .. | .probability .. | .probabilityOverItems .. | .expectation ..
  | .expectationOverItems .. | .lookup .. | .identifier .. | .tuple .. | .sizeOf ..
  | .call .. => by simp only [Term.eraseTypes, Term.domain]

/-- The domain of a clause is read off without its slots. -/
theorem Clause.domain_eraseTypes (c : Clause) : c.eraseTypes.domain = c.domain := by
  induction c using Clause.domain.induct <;>
    simp_all [Clause.eraseTypes, Clause.domain, Term.domain_eraseTypes]

namespace Specification

/-- Analysing a contract that may be absent keeps what the analysis of the
contract keeps. -/
theorem map_analyzePart {α β γ : Type} (erase : α → γ) (f : α → α × Except SpecError β)
    (h : ∀ a, erase (f a).1 = erase a) (part : Option α) :
    (analyzePart f part).1.map erase = part.map erase := by
  cases part with
  | none => rfl
  | some a =>
      have ha := h a
      rcases hres : f a with ⟨a', e | b⟩ <;>
        simp only [hres] at ha <;> simp [analyzePart, hres, ha]

/-- The analysis changes nothing but type slots. -/
theorem eraseTypes_analyze (spec : Specification) :
    spec.analyze.1.eraseTypes = spec.eraseTypes := by
  have ha := map_analyzePart Clause.eraseTypes (Clause.analyze spec.env)
    (Clause.eraseTypes_analyze spec.env) spec.accuracy
  have ht := map_analyzePart Term.eraseTypes (Term.analyze spec.env)
    (Term.eraseTypes_analyze spec.env) spec.time
  have hs := map_analyzePart Term.eraseTypes (Term.analyze spec.env)
    (Term.eraseTypes_analyze spec.env) spec.space
  cases hdecl : spec.missingDeclaration? with
  | some name => exact congrArg (·.1.eraseTypes) (analyze_of_missing hdecl)
  | none =>
      rw [analyze_of_declared hdecl, analyzeContracts]
      rcases h₁ : analyzePart (Clause.analyze spec.env) spec.accuracy
        with ⟨accuracy, _ | e⟩
      · rcases h₂ : analyzePart (Term.analyze spec.env) spec.time
          with ⟨time, _ | e⟩
        · rcases h₃ : analyzePart (Term.analyze spec.env) spec.space
            with ⟨space, _ | e⟩ <;>
            simp only [h₁, h₂, h₃] at ha ht hs ⊢ <;> simp [eraseTypes, ha, ht, hs]
        · simp only [h₁, h₂] at ha ht ⊢
          simp [eraseTypes, ha, ht]
      · simp only [h₁] at ha ⊢
        simp [eraseTypes, ha]

theorem domain_eraseTypes (spec : Specification) : spec.eraseTypes.domain = spec.domain := by
  cases h : spec.accuracy <;> simp [eraseTypes, domain, h, Clause.domain_eraseTypes]

/-- A specification has the domain of its analysed form. -/
theorem domain_analyze (spec : Specification) : spec.analyze.1.domain = spec.domain := by
  rw [← domain_eraseTypes, eraseTypes_analyze, domain_eraseTypes]

end Specification

end StatContract
