import StatContract.Diagnostic
import StatContract.Proofs.Checker.Prefilter
import StatContract.Proofs.Typing.Sites

/-!
# Diagnoses

A defect that stops a compilation is reported with a code, a message that quotes a text and,
depending on the kind of defect, types or an operator, and with a place (`SpecError.Worded`).
`Specification.Exhibits spec e` says what the defect `e` claims about the specification `spec`: for
most kinds, that a node of a certain form stands at some site of the tree (`Site.Shows`), where the
types are those that the rules give at that site.

The passes find defects in different trees. The analysis works on the given tree, lowering and the
cost models on the analysed one. The two differ in their slots only, and what a defect claims does
not depend on slots (`Specification.Exhibits.congr`).
-/

namespace StatContract

/-- The code, the message and the place under which a defect is reported. -/
inductive SpecError.Worded : SpecError → String → String → Span → Prop where
  | missingDeclaration {name span} : Worded (.missingDeclaration name span) "E0001"
      ("specification does not declare `" ++ name ++ "`") span
  | notIterable {node ty span} : Worded (.notIterable node ty span) "E0002"
      ("cannot iterate over `" ++ node ++ "` of type " ++ ty.text) span
  | notIndexable {node ty span} : Worded (.notIndexable node ty span) "E0003"
      ("cannot index into `" ++ node ++ "` of type " ++ ty.text) span
  | notSearchable {node ty span} : Worded (.notSearchable node ty span) "E0004"
      ("cannot test membership in `" ++ node ++ "` of type " ++ ty.text) span
  | operandMismatch {node lhs rhs span} : Worded (.operandMismatch node lhs rhs span) "E0005"
      ("operand types differ in `" ++ node ++ "`: " ++ lhs.text ++ " vs " ++ rhs.text) span
  | approxTarget {node span} : Worded (.approxTarget node span) "E0006"
      ("approximate comparison must compare `Output`, found `" ++ node ++ "`") span
  | expectationTarget {node span} : Worded (.expectationTarget node span) "E0007"
      ("expectation over inputs or runs must be taken of `Output`, found `" ++ node ++ "`") span
  | unsupportedTest {op test node span} : Worded (.unsupportedTest op test node span) "E0008"
      ("operator `" ++ op.symbol ++ "` is not supported by the " ++ test.text ++ " in `" ++ node
        ++ "`") span
  | unsupportedMatrixOp {op node span} : Worded (.unsupportedMatrixOp op node span) "E0009"
      ("operator `" ++ op.symbol ++ "` is not defined on matrices in `" ++ node ++ "`") span
  | misplacedStatistic {node span} : Worded (.misplacedStatistic node span) "E0010"
      ("statistic `" ++ node ++ "` may only appear as the left side of a comparison") span
  | unsupportedCost {node span} : Worded (.unsupportedCost node span) "E0011"
      ("cost term `" ++ node ++ "` cannot be turned into a fit function") span
  | untyped {node span} : Worded (.untyped node span) "E0012"
      ("expression `" ++ node ++ "` has no resolved type") span
  | mixedDomains {span} : Worded (.mixedDomains span) "E0013"
      "specification mixes incompatible probability domains" span
  | emptySpecification {span} : Worded (.emptySpecification span) "E0014"
      "specification is empty: no accuracy, time or space clause" span
  | noStatistic {span} : Worded (.noStatistic span) "E0015"
      "accuracy clause contains no probability, expectation or approximate comparison" span

/-- The tests that a comparison with the term on its left can turn into. -/
def Term.tests : Term → List TestKind
  | .probability .. | .probabilityOverItems .. => [.binomial]
  | .expectation .. | .expectationOverItems .. => [.tTest, .twoSidedTTest]
  | _ => []

/-- The test can decide a comparison with the operator. -/
def TestKind.decides : TestKind → CmpOp → Bool
  | .binomial, op | .tTest, op => op ≠ .ne
  | .twoSidedTTest, op => op = .eq

/-- The node at the site has the defect. -/
inductive Site.Shows (Γ : LexicalEnv) : Site → SpecError → Prop where
  | notIterable {binders isCompared Δ span var collection mode τ}
      (hΔ : Binder.Extend Γ binders Δ) (hcollection : Term.HasType Δ collection τ)
      (hτ : ∀ σ, τ ≠ .sequence σ) :
      Site.Shows Γ ⟨binders, isCompared, .range (.mk span var collection mode)⟩
        (.notIterable collection.text τ collection.span)
  | notIndexable {binders isCompared Δ note collection key τ}
      (hΔ : Binder.Extend Γ binders Δ) (hcollection : Term.HasType Δ collection τ)
      (hτ : τ = .scalar ∨ τ = .matrix) :
      Site.Shows Γ ⟨binders, isCompared, .term (.lookup note collection key)⟩
        (.notIndexable collection.text τ collection.span)
  | notSearchable {binders isCompared Δ span item collection τ}
      (hΔ : Binder.Extend Γ binders Δ) (hcollection : Term.HasType Δ collection τ)
      (hτ : τ = .scalar ∨ τ = .matrix) :
      Site.Shows Γ ⟨binders, isCompared, .clause (.membership span item collection)⟩
        (.notSearchable collection.text τ collection.span)
  | operandMismatch {binders isCompared Δ note lhs op rhs τ σ}
      (hΔ : Binder.Extend Γ binders Δ) (hlhs : Term.HasType Δ lhs τ)
      (hrhs : Term.HasType Δ rhs σ) (hne : τ ≠ σ) :
      Site.Shows Γ ⟨binders, isCompared, .term (.binary note lhs op rhs)⟩
        (.operandMismatch (lhs.text ++ " " ++ op.symbol ++ " " ++ rhs.text) τ σ
          (lhs.span.merge rhs.span))
  | approxTarget {binders isCompared span lhs rhs} (hlhs : lhs.isIdentifier outputName = false) :
      Site.Shows Γ ⟨binders, isCompared, .clause (.approx span lhs rhs)⟩
        (.approxTarget lhs.text lhs.span)
  | expectationTarget {binders isCompared note trials body}
      (hbody : body.isIdentifier outputName = false) :
      Site.Shows Γ ⟨binders, isCompared, .term (.expectation note trials body)⟩
        (.expectationTarget body.text body.span)
  | unsupportedTest {binders isCompared span lhs op rhs test} (htest : test ∈ lhs.tests)
      (hop : test.decides op = false) :
      Site.Shows Γ ⟨binders, isCompared, .clause (.compare span lhs op rhs)⟩
        (.unsupportedTest op test (Clause.compare span lhs op rhs).text span)
  | unsupportedMatrixOp {binders isCompared Δ note lhs op rhs} (hΔ : Binder.Extend Γ binders Δ)
      (hmatrix : Term.HasType Δ (.binary note lhs op rhs) .matrix) (hop : op = .div ∨ op = .pow) :
      Site.Shows Γ ⟨binders, isCompared, .term (.binary note lhs op rhs)⟩
        (.unsupportedMatrixOp op (Term.binary note lhs op rhs).text
          (Term.binary note lhs op rhs).span)
  | misplacedStatistic {binders t} (ht : t.isStatistic = true) :
      Site.Shows Γ ⟨binders, false, .term t⟩ (.misplacedStatistic t.text t.span)

/-- The specification has the defect. -/
inductive Specification.Exhibits (spec : Specification) : SpecError → Prop where
  | missingDeclaration {name} (hname : name = outputName ∨ name = inputName)
      (hdecl : ¬ spec.Declares name) : Exhibits spec (.missingDeclaration name spec.span)
  | site {p e} (hp : p ∈ spec.sites) (hshows : p.Shows spec.lexicalEnv e) : Exhibits spec e
  | unsupportedCost {p t} (hp : p ∈ spec.costSites) (hnode : p.node = .term t) :
      Exhibits spec (.unsupportedCost t.text t.span)
  | mixedDomains (hdomain : spec.domain = .conflict) : Exhibits spec (.mixedDomains spec.span)
  | emptySpecification (haccuracy : spec.accuracy = none) (htime : spec.time = none)
      (hspace : spec.space = none) : Exhibits spec (.emptySpecification spec.span)
  | noStatistic {c} (haccuracy : spec.accuracy = some c) (hdomain : c.domain = .none) :
      Exhibits spec (.noStatistic c.span)

theorem SpecError.worded (e : SpecError) : e.Worded e.code e.message e.span := by
  cases e <;> constructor

/-! ### Slots do not matter -/

section Congr

variable {t t' : Term} (h : t'.eraseTypes = t.eraseTypes)
include h

theorem Term.text_congr : t'.text = t.text := by
  rw [← Term.text_eraseTypes, h, Term.text_eraseTypes]

theorem Term.span_congr : t'.span = t.span := by
  rw [← Term.span_eraseTypes, h, Term.span_eraseTypes]

theorem Term.isIdentifier_congr (name : String) : t'.isIdentifier name = t.isIdentifier name := by
  rw [← Term.isIdentifier_eraseTypes, h, Term.isIdentifier_eraseTypes]

end Congr

theorem Term.tests_eraseTypes (t : Term) : t.eraseTypes.tests = t.tests := by
  cases t <;> simp only [Term.eraseTypes] <;> rfl

theorem Term.isStatistic_eraseTypes (t : Term) : t.eraseTypes.isStatistic = t.isStatistic := by
  cases t <;> simp only [Term.eraseTypes] <;> rfl

theorem Clause.text_congr {c c' : Clause} (h : c'.eraseTypes = c.eraseTypes) :
    c'.text = c.text := by
  rw [← Clause.text_eraseTypes, h, Clause.text_eraseTypes]

theorem Clause.span_congr {c c' : Clause} (h : c'.eraseTypes = c.eraseTypes) :
    c'.span = c.span := by
  have hspan (c : Clause) : c.eraseTypes.span = c.span := by
    cases c <;> simp only [Clause.eraseTypes] <;> rfl
  rw [← hspan, h, hspan]

namespace Node

variable {n : Node}

theorem exists_clause_of_eraseTypes_eq {c : Clause} (h : n.eraseTypes = .clause c.eraseTypes) :
    ∃ c', n = .clause c' ∧ c'.eraseTypes = c.eraseTypes := by
  cases n with
  | clause c' => exact ⟨c', rfl, Node.clause.inj h⟩
  | term t => cases h
  | range r => cases h

theorem exists_term_of_eraseTypes_eq {t : Term} (h : n.eraseTypes = .term t.eraseTypes) :
    ∃ t', n = .term t' ∧ t'.eraseTypes = t.eraseTypes := by
  cases n with
  | clause c => cases h
  | term t' => exact ⟨t', rfl, Node.term.inj h⟩
  | range r => cases h

theorem exists_range_of_eraseTypes_eq {r : Range} (h : n.eraseTypes = .range r.eraseTypes) :
    ∃ r', n = .range r' ∧ r'.eraseTypes = r.eraseTypes := by
  cases n with
  | clause c => cases h
  | term t => cases h
  | range r' => exact ⟨r', rfl, Node.range.inj h⟩

end Node

/-- A site that differs from another in its slots only has the same defects. -/
theorem Site.Shows.congr {Γ : LexicalEnv} {p p' : Site} {e : SpecError} (hshows : p.Shows Γ e)
    (h : p'.eraseTypes = p.eraseTypes) : p'.Shows Γ e := by
  obtain ⟨binders, isCompared, node⟩ := p
  obtain ⟨binders', isCompared', node'⟩ := p'
  simp only [Site.eraseTypes, Site.mk.injEq] at h
  obtain ⟨hbinders, rfl, hnode⟩ := h
  -- The node has the same constructor as the other, and its parts agree up to slots.
  cases hshows with
  | notIterable hΔ hcollection hτ =>
      obtain ⟨⟨_, _, collection', _⟩, rfl, hparts⟩ := Node.exists_range_of_eraseTypes_eq hnode
      simp only [Range.eraseTypes, Range.mk.injEq] at hparts
      obtain ⟨-, -, hparts, -⟩ := hparts
      rw [← Term.text_congr hparts, ← Term.span_congr hparts]
      exact .notIterable (hΔ.congr hbinders) (hcollection.congr hparts) hτ
  | notIndexable hΔ hcollection hτ =>
      obtain ⟨t, rfl, hparts⟩ := Node.exists_term_of_eraseTypes_eq hnode
      cases t <;> simp only [Term.eraseTypes, Term.lookup.injEq, reduceCtorEq] at hparts
      obtain ⟨-, hparts, -⟩ := hparts
      rw [← Term.text_congr hparts, ← Term.span_congr hparts]
      exact .notIndexable (hΔ.congr hbinders) (hcollection.congr hparts) hτ
  | notSearchable hΔ hcollection hτ =>
      obtain ⟨c, rfl, hparts⟩ := Node.exists_clause_of_eraseTypes_eq hnode
      cases c <;> simp only [Clause.eraseTypes, Clause.membership.injEq, reduceCtorEq] at hparts
      obtain ⟨-, -, hparts⟩ := hparts
      rw [← Term.text_congr hparts, ← Term.span_congr hparts]
      exact .notSearchable (hΔ.congr hbinders) (hcollection.congr hparts) hτ
  | operandMismatch hΔ hlhs hrhs hne =>
      obtain ⟨t, rfl, hparts⟩ := Node.exists_term_of_eraseTypes_eq hnode
      cases t <;> simp only [Term.eraseTypes, Term.binary.injEq, reduceCtorEq] at hparts
      obtain ⟨-, hl, rfl, hr⟩ := hparts
      rw [← Term.text_congr hl, ← Term.span_congr hl, ← Term.text_congr hr, ← Term.span_congr hr]
      exact .operandMismatch (hΔ.congr hbinders) (hlhs.congr hl) (hrhs.congr hr) hne
  | approxTarget hlhs =>
      obtain ⟨c, rfl, hparts⟩ := Node.exists_clause_of_eraseTypes_eq hnode
      cases c <;> simp only [Clause.eraseTypes, Clause.approx.injEq, reduceCtorEq] at hparts
      obtain ⟨-, hparts, -⟩ := hparts
      rw [← Term.text_congr hparts, ← Term.span_congr hparts]
      exact .approxTarget ((Term.isIdentifier_congr hparts _).trans hlhs)
  | expectationTarget hbody =>
      obtain ⟨t, rfl, hparts⟩ := Node.exists_term_of_eraseTypes_eq hnode
      cases t <;> simp only [Term.eraseTypes, Term.expectation.injEq, reduceCtorEq] at hparts
      obtain ⟨-, -, hparts⟩ := hparts
      rw [← Term.text_congr hparts, ← Term.span_congr hparts]
      exact .expectationTarget ((Term.isIdentifier_congr hparts _).trans hbody)
  | unsupportedTest htest hop =>
      obtain ⟨c, rfl, hparts⟩ := Node.exists_clause_of_eraseTypes_eq hnode
      rw [← Clause.text_congr hparts]
      cases c <;> simp only [Clause.eraseTypes, Clause.compare.injEq, reduceCtorEq] at hparts
      obtain ⟨rfl, hl, rfl, -⟩ := hparts
      rw [← Term.tests_eraseTypes, ← hl, Term.tests_eraseTypes] at htest
      exact .unsupportedTest htest hop
  | unsupportedMatrixOp hΔ hmatrix hop =>
      obtain ⟨t, rfl, hparts⟩ := Node.exists_term_of_eraseTypes_eq hnode
      have hmatrix' := hmatrix.congr hparts
      rw [← Term.text_congr hparts, ← Term.span_congr hparts]
      cases t <;> simp only [Term.eraseTypes, Term.binary.injEq, reduceCtorEq] at hparts
      obtain ⟨-, -, rfl, -⟩ := hparts
      exact .unsupportedMatrixOp (hΔ.congr hbinders) hmatrix' hop
  | misplacedStatistic ht =>
      obtain ⟨t, rfl, hparts⟩ := Node.exists_term_of_eraseTypes_eq hnode
      rw [← Term.text_congr hparts, ← Term.span_congr hparts]
      rw [← Term.isStatistic_eraseTypes, ← hparts, Term.isStatistic_eraseTypes] at ht
      exact .misplacedStatistic ht

/-- A specification that differs from another in its slots only has the same defects. -/
theorem Specification.Exhibits.congr {spec spec' : Specification} {e : SpecError}
    (hexhibits : spec.Exhibits e) (h : spec.eraseTypes = spec'.eraseTypes) :
    spec'.Exhibits e := by
  have hspan : spec'.span = spec.span := (congrArg Specification.span h).symm
  have hdecls : spec'.decls = spec.decls := (congrArg Specification.decls h).symm
  have hdomain : spec'.domain = spec.domain := by
    rw [← domain_eraseTypes, ← h, domain_eraseTypes]
  have haccuracy : spec.accuracy.map Clause.eraseTypes = spec'.accuracy.map Clause.eraseTypes :=
    congrArg Specification.accuracy h
  have htime : spec.time.map Term.eraseTypes = spec'.time.map Term.eraseTypes :=
    congrArg Specification.time h
  have hspace : spec.space.map Term.eraseTypes = spec'.space.map Term.eraseTypes :=
    congrArg Specification.space h
  cases hexhibits with
  | missingDeclaration hname hdecl =>
      rw [← hspan]
      refine .missingDeclaration hname ?_
      rwa [Declares, hdecls]
  | site hp hshows =>
      obtain ⟨p', hp', heq⟩ := exists_site_of_eraseTypes_eq h hp
      refine .site hp' ?_
      rw [lexicalEnv, hdecls]
      exact hshows.congr heq
  | @unsupportedCost p t hp hnode =>
      obtain ⟨p', hp', heq⟩ := exists_costSite_of_eraseTypes_eq h hp
      have hnode' := congrArg Site.node heq
      rw [Site.eraseTypes, Site.eraseTypes, hnode] at hnode'
      obtain ⟨t', ht', hparts⟩ := Node.exists_term_of_eraseTypes_eq hnode'
      rw [← Term.text_congr hparts, ← Term.span_congr hparts]
      exact .unsupportedCost hp' ht'
  | mixedDomains hconflict =>
      rw [← hspan]
      exact .mixedDomains (hdomain.trans hconflict)
  | emptySpecification ha ht hs =>
      rw [ha, Option.map_none, eq_comm, Option.map_eq_none_iff] at haccuracy
      rw [ht, Option.map_none, eq_comm, Option.map_eq_none_iff] at htime
      rw [hs, Option.map_none, eq_comm, Option.map_eq_none_iff] at hspace
      rw [← hspan]
      exact .emptySpecification haccuracy htime hspace
  | noStatistic ha hnone =>
      rw [ha, Option.map_some, eq_comm, Option.map_eq_some_iff] at haccuracy
      obtain ⟨c', hc', hparts⟩ := haccuracy
      rw [← Clause.span_congr hparts]
      refine .noStatistic hc' ?_
      rwa [← Clause.domain_eraseTypes, hparts, Clause.domain_eraseTypes]

/-! ### Defects of the analysis -/

/-- A check that fails shows its defect at its site. -/
theorem Step.FailsWith.shows {Γ : LexicalEnv} {s : Step} {e : SpecError} {p : Site}
    (h : s.FailsWith Γ e) (hat : s.IsAt p) : p.Shows Γ e := by
  cases h with
  | notIndexable hΔ hcollection hkey hτ =>
      cases hat
      exact .notIndexable hΔ hcollection hτ
  | operandMismatch hΔ hlhs hrhs hne =>
      cases hat
      exact .operandMismatch hΔ hlhs hrhs hne
  | approxTarget hlhs =>
      cases hat
      exact .approxTarget hlhs
  | notIterable hΔ hcollection hτ =>
      cases hat
      exact .notIterable hΔ hcollection hτ

/-- When the output and the input are declared, a defect that the analysis finds shows at a site. -/
theorem Specification.exists_site_of_analyze {spec : Specification} {e : SpecError}
    (hdecl : spec.missingDeclaration? = none) (h : spec.analyze.2 = .error e) :
    ∃ p ∈ spec.sites, p.Shows spec.lexicalEnv e := by
  -- The checks are those of the tree without types.
  rw [← (spec.endsAlike_analyze).snd_eq] at h
  have hreports := spec.eraseTypes.reports_analyze hdecl spec.isBlank_of_mem_nodes_eraseTypes
  rw [h] at hreports
  obtain ⟨before, s, after, hsteps, -, hs, -⟩ := hreports.exists_first
  have hmem : s ∈ spec.eraseTypes.analyze.1.steps := by
    rw [hsteps]
    exact List.mem_append_right _ List.mem_cons_self
  obtain ⟨p, hp, hat⟩ := spec.eraseTypes.analyze.1.located s hmem
  have hspec : spec.eraseTypes.analyze.1.eraseTypes = spec.eraseTypes :=
    (eraseTypes_analyze _).trans spec.eraseTypes_eraseTypes
  obtain ⟨p', hp', heq⟩ := exists_site_of_eraseTypes_eq hspec hp
  exact ⟨p', hp', (hs.shows hat).congr heq⟩

/-- A defect that the analysis finds is there. -/
theorem Specification.exhibits_of_analyze {spec : Specification} {e : SpecError}
    (h : spec.analyze.2 = .error e) : spec.Exhibits e := by
  cases hdecl : spec.missingDeclaration? with
  | some name =>
      rw [analyze_of_missing hdecl] at h
      cases h
      have hname := List.mem_of_find?_eq_some hdecl
      have hmissing := List.find?_some hdecl
      refine .missingDeclaration (by simpa using hname) ?_
      simpa [Declares] using hmissing
  | none =>
      obtain ⟨p, hp, hshows⟩ := exists_site_of_analyze hdecl h
      exact .site hp hshows

/-! ### Defects of the lowering -/

/-- The defect, if there is one, shows at one of the sites. -/
def Explains (Γ : LexicalEnv) (sites : List Site) (o : Option SpecError) : Prop :=
  ∀ e, o = some e → ∃ p ∈ sites, p.Shows Γ e

namespace Explains

variable {Γ : LexicalEnv} {ps qs : List Site} {p : Site} {o o' : Option SpecError} {e : SpecError}

theorem none (ps : List Site) : Explains Γ ps none := by
  rintro e ⟨⟩

theorem head (h : p.Shows Γ e) (ps : List Site) : Explains Γ (p :: ps) (some e) := by
  rintro _ ⟨⟩
  exact ⟨p, List.mem_cons_self, h⟩

theorem or (h : Explains Γ ps o) (h' : Explains Γ ps o') : Explains Γ ps (o.or o') := by
  intro e he
  rcases Option.or_eq_some_iff.1 he with he | ⟨-, he⟩
  · exact h e he
  · exact h' e he

theorem mono (h : Explains Γ ps o) (hsub : ps ⊆ qs) : Explains Γ qs o := by
  intro e he
  obtain ⟨p, hp, hshows⟩ := h e he
  exact ⟨p, hsub hp, hshows⟩

theorem tail (h : Explains Γ ps o) (p : Site) : Explains Γ (p :: ps) o :=
  h.mono (List.subset_cons_self p ps)

theorem left (h : Explains Γ ps o) (qs : List Site) : Explains Γ (ps ++ qs) o :=
  h.mono (List.subset_append_left ps qs)

theorem right (h : Explains Γ qs o) (ps : List Site) : Explains Γ (ps ++ qs) o :=
  h.mono (List.subset_append_right ps qs)

/-- The parts of a node, one after the other. -/
theorem parts (h : Explains Γ ps o) (h' : Explains Γ qs o') (p : Site) :
    Explains Γ (p :: (ps ++ qs)) (o.or o') :=
  ((h.left qs).or (h'.right ps)).tail p

end Explains

/-- The binders of typed ranges lead to the environment of their body. -/
theorem Range.TypedList.extend {slot : SlotRule} {Γ Δ Δ' : LexicalEnv} {ranges : List Range}
    {binders : List Binder} (hΔ : Binder.Extend Γ binders Δ)
    (h : Range.TypedList slot Δ ranges Δ') :
    Binder.Extend Γ (Range.addBinders binders ranges) Δ' := by
  induction ranges generalizing Δ binders with
  | nil =>
      cases h
      exact hΔ
  | cons range rest ih =>
      obtain ⟨_, var, collection, mode⟩ := range
      obtain ⟨τ, hcollection, hrest⟩ := h.of_cons
      exact ih (.range hΔ hcollection.hasType) hrest

mutual

/-- The first defect that an annotated term has as an expression shows at one of its sites. A term
on the left side of a comparison may not be a statistic here. -/
theorem Term.explains {Γ : LexicalEnv} : ∀ (t : Term) (isCompared : Bool) {binders : List Binder}
    {Δ : LexicalEnv} {τ : ValueType}, Binder.Extend Γ binders Δ → t.Annotated Δ τ →
      (isCompared = true → t.isStatistic = false) →
        Explains Γ (t.sites binders isCompared) t.refusal?
  | .constant .., _, _, _, _, _, _, _ | .identifier .., _, _, _, _, _, _, _ => .none _
  -- A statistic is out of place everywhere but on the left of a comparison.
  | .probability .., false, _, _, _, _, _, _
  | .probabilityOverItems .., false, _, _, _, _, _, _
  | .expectation .., false, _, _, _, _, _, _
  | .expectationOverItems .., false, _, _, _, _, _, _ => by
      rw [Term.sites, Term.refusal?]
      exact .head (.misplacedStatistic rfl) _
  | .probability .., true, _, _, _, _, _, hplain
  | .probabilityOverItems .., true, _, _, _, _, _, hplain
  | .expectation .., true, _, _, _, _, _, hplain
  | .expectationOverItems .., true, _, _, _, _, _, hplain => by
      cases hplain rfl
  | .lookup note collection key, isCompared, binders, Δ, τ, hΔ, h, hplain => by
      rw [Term.sites, Term.refusal?]
      cases h with
      | element hcollection hkey =>
          exact .parts (collection.explains false hΔ hcollection (by simp))
            (key.explains false hΔ hkey (by simp)) _
      | entry hcollection hkey =>
          exact .parts (collection.explains false hΔ hcollection (by simp))
            (key.explains false hΔ hkey (by simp)) _
  | .tuple note elements, isCompared, binders, Δ, τ, hΔ, h, hplain => by
      obtain ⟨τs, hτs, -⟩ := h.of_tuple
      rw [Term.sites, Term.refusal?]
      exact (Term.explainsOfAll elements hΔ hτs).tail _
  | .binary note lhs op rhs, isCompared, binders, Δ, τ, hΔ, h, hplain => by
      have hmatrix := h.hasType
      rw [Term.sites, Term.refusal?, ← Option.or_assoc]
      cases h with
      | binary hlhs hrhs =>
          refine .or (.parts (lhs.explains false hΔ hlhs (by simp))
            (rhs.explains false hΔ hrhs (by simp)) _) ?_
          -- The slot of an operand tells its type, and only for matrices operations are missing.
          split
          · next hop =>
              rw [hlhs.ty_eq, Option.some.injEq] at hop
              obtain ⟨rfl, hop⟩ := hop
              rw [ArithOp.matrixFunction?_eq_none_iff] at hop
              exact .head (.unsupportedMatrixOp hΔ hmatrix (by cases op <;> simp at hop ⊢)) _
          · exact .none _
  | .sizeOf note collection, isCompared, binders, Δ, τ, hΔ, h, hplain => by
      rw [Term.sites, Term.refusal?]
      cases h with
      | sizeOf hcollection => exact (collection.explains false hΔ hcollection (by simp)).tail _
  | .call note name args, isCompared, binders, Δ, τ, hΔ, h, hplain => by
      rw [Term.sites, Term.refusal?]
      cases h with
      | call hargs => exact (Term.explainsOfAll args hΔ hargs).tail _

/-- The first defect that annotated terms have as expressions shows at one of their sites. -/
theorem Term.explainsOfAll {Γ : LexicalEnv} : ∀ (ts : List Term) {binders : List Binder}
    {Δ : LexicalEnv} {τs : List ValueType}, Binder.Extend Γ binders Δ →
      Term.TypedList .filled Δ ts τs →
        Explains Γ (Term.sitesOfAll binders ts) (Term.refusalOfAll? ts)
  | [], binders, Δ, τs, hΔ, h => .none _
  | t :: rest, binders, Δ, τs, hΔ, h => by
      rw [Term.sitesOfAll, Term.refusalOfAll?]
      cases h with
      | cons hhead htail =>
          exact ((t.explains false hΔ hhead (by simp)).left _).or
            ((Term.explainsOfAll rest hΔ htail).right _)

end

/-- The first defect that the collections of annotated ranges have as expressions shows at one of
the sites of the ranges. -/
theorem Range.explains {Γ Δ Δ' : LexicalEnv} {ranges : List Range} {binders : List Binder}
    (hΔ : Binder.Extend Γ binders Δ) (h : Range.TypedList .filled Δ ranges Δ') :
    Explains Γ (Range.sitesOfAll binders ranges) (Range.refusalOfAll? ranges) := by
  induction ranges generalizing Δ binders with
  | nil => exact .none _
  | cons range rest ih =>
      obtain ⟨_, var, collection, mode⟩ := range
      obtain ⟨τ, hcollection, hrest⟩ := h.of_cons
      rw [Range.sitesOfAll, Range.refusalOfAll?]
      exact .parts (collection.explains false hΔ hcollection (by simp))
        (ih (.range hΔ hcollection.hasType) hrest) _

theorem Term.explains_searchRefusal {Γ Δ : LexicalEnv} {binders : List Binder} {span : Span}
    {item collection : Term} {τ : ValueType} (hΔ : Binder.Extend Γ binders Δ)
    (h : collection.Annotated Δ τ) (ps : List Site) :
    Explains Γ (⟨binders, false, .clause (.membership span item collection)⟩ :: ps)
      collection.searchRefusal? := by
  rw [Term.searchRefusal?, h.ty_eq]
  cases τ with
  | scalar => exact .head (.notSearchable hΔ h.hasType (.inl rfl)) ps
  | matrix => exact .head (.notSearchable hΔ h.hasType (.inr rfl)) ps
  | sequence σ => exact .none _
  | map κ σ => exact .none _

section Tests

variable {Γ : LexicalEnv} {binders : List Binder} {span : Span} {lhs : Term} (op : CmpOp)
  {rhs : Term} (ps : List Site)

theorem Clause.explains_binomialRefusal (htest : .binomial ∈ lhs.tests) :
    Explains Γ (⟨binders, false, .clause (.compare span lhs op rhs)⟩ :: ps)
      ((Clause.compare span lhs op rhs).binomialRefusal? op) := by
  rw [Clause.binomialRefusal?]
  split
  · next hop => exact .head (.unsupportedTest htest (by simp [TestKind.decides, hop])) ps
  · exact .none _

theorem Clause.explains_tTestRefusal (htests : lhs.tests = [.tTest, .twoSidedTTest])
    (mode : Mode) :
    Explains Γ (⟨binders, false, .clause (.compare span lhs op rhs)⟩ :: ps)
      ((Clause.compare span lhs op rhs).tTestRefusal? op mode) := by
  unfold Clause.tTestRefusal?
  split
  · exact .none _
  · next hop =>
      refine .head (.unsupportedTest ?_ ?_) ps
      · cases mode <;> simp [htests]
      · cases mode <;> simpa [TestKind.decides, CmpOp.hasTTest] using hop

end Tests

theorem Term.explains_expectationRefusal {Γ : LexicalEnv} {binders : List Binder}
    {isCompared : Bool} {note : Note} {trials : Trials} (body : Term) (ps : List Site) :
    Explains Γ (⟨binders, isCompared, .term (.expectation note trials body)⟩ :: ps)
      body.expectationRefusal? := by
  rw [Term.expectationRefusal?]
  split
  · exact .none _
  · next hbody => exact .head (.expectationTarget (by simpa using hbody)) ps

theorem Clause.explains_comparison {Γ Δ : LexicalEnv} {binders : List Binder} {span : Span}
    {lhs rhs : Term} {op : CmpOp} {mode : Mode} (hplain : lhs.isStatistic = false)
    (hΔ : Binder.Extend Γ binders Δ) (h : (Clause.compare span lhs op rhs).Annotated Δ) :
    Explains Γ ((Clause.compare span lhs op rhs).sites binders)
      ((Clause.compare span lhs op rhs).refusal? mode) := by
  rw [Clause.sites, Clause.refusal?_compare hplain]
  cases h with
  | compare hlhs hrhs =>
      exact .parts (lhs.explains true hΔ hlhs fun _ => hplain)
        (rhs.explains false hΔ hrhs (by simp)) _

/-- The first defect of an annotated clause that is to be lowered shows at one of its sites. -/
theorem Clause.explains {Γ : LexicalEnv} : ∀ (c : Clause) (mode : Mode) {binders : List Binder}
    {Δ : LexicalEnv}, Binder.Extend Γ binders Δ → c.Annotated Δ →
      Explains Γ (c.sites binders) (c.refusal? mode)
  | .forAll span ranges body, mode, binders, Δ, hΔ, h => by
      rw [Clause.sites, Clause.refusal?]
      cases h with
      | forAll hranges hbody =>
          exact .parts (Range.explains hΔ hranges) (body.explains _ (hranges.extend hΔ) hbody) _
  | .letIn span name value body, mode, binders, Δ, hΔ, h => by
      rw [Clause.sites, Clause.refusal?]
      cases h with
      | letIn hvalue hbody =>
          exact .parts (value.explains false hΔ hvalue (by simp))
            (body.explains mode (.value hΔ hvalue.hasType) hbody) _
  | .membership span item collection, mode, binders, Δ, hΔ, h => by
      rw [Clause.sites, Clause.refusal?, ← Option.or_assoc]
      cases h with
      | membership hitem hcollection =>
          exact .or (.parts (item.explains false hΔ hitem (by simp))
            (collection.explains false hΔ hcollection (by simp)) _)
            (Term.explains_searchRefusal hΔ hcollection _)
  | .approx span lhs rhs, mode, binders, Δ, hΔ, h => by
      rw [Clause.sites, Clause.refusal?]
      cases h with
      | approx hlhs hrhs => exact ((rhs.explains false hΔ hrhs (by simp)).right _).tail _
  | .compare span (.probability note trials body) op rhs, mode, binders, Δ, hΔ, h => by
      rw [Clause.sites, Term.sites, Clause.refusal?]
      cases h with
      | compare hlhs hrhs =>
          cases hlhs with
          | probability hbody =>
              refine .or (explains_binomialRefusal op _ List.mem_cons_self) ?_
              exact .parts ((body.explains .boolean hΔ hbody).tail _)
                (rhs.explains false hΔ hrhs (by simp)) _
  | .compare span (.probabilityOverItems note ranges body) op rhs, mode, binders, Δ, hΔ, h => by
      rw [Clause.sites, Term.sites, Clause.refusal?]
      cases h with
      | compare hlhs hrhs =>
          cases hlhs with
          | probabilityOverItems hranges hbody =>
              refine .or (explains_binomialRefusal op _ List.mem_cons_self) ?_
              rw [← Option.or_assoc]
              exact .parts (.parts (Range.explains hΔ hranges)
                (body.explains .boolean (hranges.extend hΔ) hbody) _)
                (rhs.explains false hΔ hrhs (by simp)) _
  | .compare span (.expectation note trials body) op rhs, mode, binders, Δ, hΔ, h => by
      rw [Clause.sites, Term.sites, Clause.refusal?, ← Option.or_assoc]
      cases h with
      | compare hlhs hrhs =>
          refine .or ?_ (explains_tTestRefusal op _ rfl mode)
          exact .parts (body.explains_expectationRefusal _)
            (rhs.explains false hΔ hrhs (by simp)) _
  | .compare span (.expectationOverItems note ranges body) op rhs, mode, binders, Δ, hΔ, h => by
      rw [Clause.sites, Term.sites, Clause.refusal?, ← Option.or_assoc, ← Option.or_assoc]
      cases h with
      | compare hlhs hrhs =>
          cases hlhs with
          | expectationOverItems hranges hbody =>
              refine .or ?_ (explains_tTestRefusal op _ rfl mode)
              exact .parts (.parts (Range.explains hΔ hranges)
                (body.explains false (hranges.extend hΔ) hbody (by simp)) _)
                (rhs.explains false hΔ hrhs (by simp)) _
  | .compare _ (.constant ..) _ _, _, _, _, hΔ, h | .compare _ (.lookup ..) _ _, _, _, _, hΔ, h
  | .compare _ (.identifier ..) _ _, _, _, _, hΔ, h | .compare _ (.tuple ..) _ _, _, _, _, hΔ, h
  | .compare _ (.binary ..) _ _, _, _, _, hΔ, h | .compare _ (.sizeOf ..) _ _, _, _, _, hΔ, h
  | .compare _ (.call ..) _ _, _, _, _, hΔ, h => explains_comparison rfl hΔ h
  | .logic span lhs op rhs, mode, binders, Δ, hΔ, h => by
      rw [Clause.sites, Clause.refusal?]
      cases h with
      | logic hlhs hrhs => exact .parts (lhs.explains mode hΔ hlhs) (rhs.explains mode hΔ hrhs) _
  | .not span inner, mode, binders, Δ, hΔ, h => by
      rw [Clause.sites, Clause.refusal?]
      cases h with
      | not hinner => exact (inner.explains mode hΔ hinner).tail _

/-- The checker of an annotated clause fails with the first defect of the clause. -/
theorem Clause.checker_finds {c : Clause} {Γ : LexicalEnv} (h : c.Annotated Γ) (target : Target)
    (domain : Domain) (signature : Signature) :
    Finds (c.refusal? .boolean) (c.checker target domain signature) := by
  have hbody : Lower.Finds (c.refusal? .boolean) (c.lowerBody target) := by
    refine .after (.emit _) fun _ => .last (c.lower_finds target .boolean h) fun verdict => ?_
    have hreturn (result : Code) : Lower.Succeeds (do
        Lower.emit (.ifTrue (.not result) [.print [.quoted "Checker detected a possible error"]])
        Lower.emit (.ret result)) :=
      .bind (.emit _) fun _ => .emit _
    split
    · exact hreturn _
    · exact .bind .fresh fun temp => .bind (.emit _) fun _ => hreturn _
  have hstart : Finds (c.refusal? .boolean)
      ((c.lowerBody target).run (Context.start domain.scopeNames)).1 := hbody _
  rw [Clause.checker]
  generalize c.refusal? .boolean = o at hstart ⊢
  rcases hrun : (c.lowerBody target).run (Context.start domain.scopeNames) with ⟨e | _, ctx⟩ <;>
    rw [hrun] at hstart <;> cases hstart
  · exact .error e
  · exact .ok _

namespace Specification

theorem exhibits_of_domainError {spec : Specification} {e : SpecError}
    (h : spec.domainError? = some e) : spec.Exhibits e := by
  unfold domainError? at h
  split at h
  · next hdomain =>
      cases h
      exact .mixedDomains hdomain
  · next hdomain =>
      rw [domain] at hdomain
      cases haccuracy : spec.accuracy with
      | some c =>
          rw [haccuracy] at h hdomain
          cases h
          exact .noStatistic haccuracy hdomain
      | none =>
          rw [haccuracy] at h hdomain
          cases h
          have hcosts : spec.time = none ∧ spec.space = none := by
            simpa using hdomain
          exact .emptySpecification haccuracy hcosts.1 hcosts.2
  all_goals cases h

theorem checkers_exhibit {spec : Specification} (h : spec.Typed .filled) (target : Target) :
    FailsOnly spec.Exhibits (spec.checkers target) := by
  unfold checkers
  split
  · next signature c _ hc =>
      refine .bind ?_ fun _ => .ok _
      intro e he
      have hann := h.accuracy c hc
      rw [(Clause.checker_finds hann target spec.domain signature).eq_error_iff] at he
      obtain ⟨p, hp, hshows⟩ := c.explains .boolean .nil hann e he
      refine .site ?_ hshows
      rw [sites, hc]
      exact List.mem_append_left _ hp
  · exact .ok _

theorem costModel_exhibits {spec : Specification} {cost : Option Term}
    (hsites : (cost.map (Term.sites [] false)).getD [] ⊆ spec.costSites) :
    FailsOnly spec.Exhibits (cost.mapM CostModel.synthesize) := by
  cases cost with
  | none => exact .ok _
  | some t =>
      refine .bind ?_ fun _ => .ok _
      intro e he
      rw [(CostModel.synthesize_finds t).eq_error_iff] at he
      obtain ⟨part, hpart, rfl⟩ := Option.map_eq_some_iff.1 he
      have hmem := CostModel.term_mem_nodes_of_unsupported? hpart
      rw [← t.map_node_sites [] false] at hmem
      obtain ⟨p, hp, hnode⟩ := List.mem_map.1 hmem
      exact .unsupportedCost (hsites hp) hnode

/-- A defect that the generation finds in an annotated specification is there. -/
theorem exhibits_of_generate {spec : Specification} (h : spec.Typed .filled)
    {options : CheckerOptions} {e : SpecError} (he : spec.generate options = .error e) :
    spec.Exhibits e := by
  cases hdomain : spec.domainError? with
  | some e' =>
      rw [generate_of_domainError hdomain] at he
      cases he
      exact exhibits_of_domainError hdomain
  | none =>
      have hfails : FailsOnly spec.Exhibits (spec.generate options) := by
        unfold generate
        rw [hdomain]
        refine .bind (checkers_exhibit h _) fun checkers => ?_
        refine .bind (costModel_exhibits (List.subset_append_left _ _)) fun _ => ?_
        exact .bind (costModel_exhibits (List.subset_append_right _ _)) fun _ => .ok _
      exact hfails e he

/-- A defect that the compilation finds is there. -/
theorem exhibits_of_compile {spec : Specification} {options : CheckerOptions} {e : SpecError}
    (h : spec.compile options = .error e) : spec.Exhibits e := by
  rcases hanalyze : spec.analyze with ⟨spec', e' | d⟩
  · rw [(check_of_analyze_error hanalyze options).2] at h
    cases h
    exact exhibits_of_analyze (congrArg Prod.snd hanalyze)
  · rw [compile_of_analyze_ok hanalyze] at h
    have herase : spec'.eraseTypes = spec.eraseTypes := by
      rw [← eraseTypes_analyze spec, hanalyze]
    exact (exhibits_of_generate (annotated_of_analyze hanalyze) h).congr herase

/-- A specification that cannot be compiled gets one diagnostic, and it has the defect that the
diagnostic reports by its code, its message and its place. For all kinds but three the defect is
about a node of the specification: the types in the message are those that the rules give at the
site of the node, and the quoted text and the place are those of the node or of its part in
question. -/
theorem compile_reports_real_defect (spec : Specification) (options : CheckerOptions) :
    spec.sites.map Site.node = spec.nodes ∧
    ((∃ m, spec.compileOrDiagnose options = .ok m) ∨
      ∃ d code e, spec.compileOrDiagnose options = .error [d] ∧ d.code = some code ∧
        e.Worded code d.message d.span ∧ spec.Exhibits e) := by
  refine ⟨spec.map_node_sites, ?_⟩
  rw [compileOrDiagnose]
  rcases hcompile : spec.compile options with e | m
  · exact .inr ⟨.ofSpecError e, e.code, e, rfl, rfl, e.worded, exhibits_of_compile hcompile⟩
  · exact .inl ⟨m, rfl⟩

end Specification

end StatContract
