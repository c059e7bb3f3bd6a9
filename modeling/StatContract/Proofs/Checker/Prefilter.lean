import StatContract.Checker.Module
import StatContract.Proofs.Cost.Acceptance
import StatContract.Proofs.Lowering.Failure
import StatContract.Proofs.Typing.Analysis

/-!
# The check as a filter before the generation

A specification that the check refuses is refused by the generation for the
same reason. One that it accepts can still be refused, but only with a defect
that needs lowering or a cost model to be found; what the analysis has decided
is not in question again.

The step from the analysis to the generation is `annotated_of_analyze`: the
generation gets a tree whose slots are filled.
-/

namespace StatContract

/-- The model of a cost fails with late defects only. -/
theorem CostModel.synthesize_failsOnly (cost : Term) :
    FailsOnly SpecError.IsLate (synthesize cost) := by
  intro e he
  rw [(synthesize_finds cost).eq_error_iff] at he
  obtain ⟨part, -, rfl⟩ := Option.map_eq_some_iff.1 he
  simp [SpecError.IsLate, SpecError.code]

/-- The checker of an annotated clause fails with late defects only. -/
theorem Clause.checker_failsOnly {clause : Clause} {Γ : LexicalEnv} (h : clause.Annotated Γ)
    (target : Target) (domain : Domain) (signature : Signature) :
    FailsOnly SpecError.IsLate (clause.checker target domain signature) := by
  have hbody : Lower.FailsOnly SpecError.IsLate (clause.lowerBody target) := by
    refine .bind (.emit _) fun _ => .bind (clause.lower_failsOnly target _ h) fun verdict => ?_
    have hreturn (result : Code) : Lower.FailsOnly SpecError.IsLate (do
        Lower.emit (.ifTrue (.not result) [.print [.quoted "Checker detected a possible error"]])
        Lower.emit (.ret result)) :=
      .bind (.emit _) fun _ => .emit _
    split
    · exact hreturn _
    · exact .bind .fresh fun temp => .bind (.emit _) fun _ => hreturn _
  unfold Clause.checker
  split
  · next e ctx heq => exact .error (hbody _ e (congrArg Prod.fst heq))
  · exact .ok _

namespace Specification

/-- The costs of a specification have models, or fail with late defects only. -/
theorem costModel_failsOnly (cost : Option Term) :
    FailsOnly SpecError.IsLate (cost.mapM CostModel.synthesize) := by
  cases cost with
  | none => exact .ok _
  | some t => exact .bind (CostModel.synthesize_failsOnly t) fun _ => .ok _

/-- The checkers of an annotated specification fail with late defects only. -/
theorem checkers_failsOnly {spec : Specification} (h : spec.Typed .filled) (target : Target) :
    FailsOnly SpecError.IsLate (spec.checkers target) := by
  unfold checkers
  split
  · next signature clause _ hclause =>
      exact .bind (Clause.checker_failsOnly (h.accuracy clause hclause) _ _ _) fun _ => .ok _
  · exact .ok _

/-- A domain that cannot be checked stops the generation. -/
theorem generate_of_domainError {spec : Specification} {e : SpecError}
    (h : spec.domainError? = some e) (options : CheckerOptions) :
    spec.generate options = .error e := by
  unfold generate
  rw [h]
  rfl

/-- With a domain that can be checked, generating the module of an annotated
specification fails with late defects only. -/
theorem generate_failsOnly {spec : Specification} (h : spec.Typed .filled)
    (hdomain : spec.domainError? = none) (options : CheckerOptions) :
    FailsOnly SpecError.IsLate (spec.generate options) := by
  unfold generate
  rw [hdomain]
  refine .bind (checkers_failsOnly h _) fun checkers => ?_
  exact .bind (costModel_failsOnly _) fun _ => .bind (costModel_failsOnly _) fun _ => .ok _

/-- A module is generated from a domain that can be checked, the checkers, and the models of
the costs. -/
theorem generate_eq_ok_iff (spec : Specification) (options : CheckerOptions) (m : CheckerModule) :
    spec.generate options = .ok m ↔
      spec.domainError? = none ∧ ∃ checkers timeModel spaceModel,
        spec.checkers { library := ⟨options.library⟩, alpha := options.alpha } = .ok checkers ∧
        spec.time.mapM CostModel.synthesize = .ok timeModel ∧
        spec.space.mapM CostModel.synthesize = .ok spaceModel ∧
        ⟨spec.domain, checkers ++ [Aggregate.ofRuns spec.domain, Aggregate.ofInputs spec.domain,
          Resource.finalFunction ⟨options.library⟩ options.dataPrefix timeModel spaceModel],
          timeModel, spaceModel⟩ = m := by
  cases hdomain : spec.domainError? with
  | some e => simp [generate_of_domainError hdomain]
  | none =>
      unfold generate
      rw [hdomain]
      simp only [true_and]
      constructor
      · intro h
        obtain ⟨checkers, hcheckers, h⟩ := except_bind_eq_ok_iff.1 h
        obtain ⟨timeModel, htime, h⟩ := except_bind_eq_ok_iff.1 h
        obtain ⟨spaceModel, hspace, h⟩ := except_bind_eq_ok_iff.1 h
        exact ⟨checkers, timeModel, spaceModel, hcheckers, htime, hspace, Except.ok.inj h⟩
      · rintro ⟨checkers, timeModel, spaceModel, hcheckers, htime, hspace, rfl⟩
        refine except_bind_eq_ok_iff.2 ⟨checkers, hcheckers, ?_⟩
        refine except_bind_eq_ok_iff.2 ⟨timeModel, htime, ?_⟩
        exact except_bind_eq_ok_iff.2 ⟨spaceModel, hspace, rfl⟩

/-- What a generated module is made of. -/
theorem exists_of_generate {spec : Specification} {options : CheckerOptions} {m : CheckerModule}
    (h : spec.generate options = .ok m) :
    spec.domainError? = none ∧ ∃ target checkers last, spec.checkers target = .ok checkers ∧
      m.domain = spec.domain ∧ m.functions =
        checkers ++ [Aggregate.ofRuns spec.domain, Aggregate.ofInputs spec.domain, last] := by
  obtain ⟨hdomain, checkers, _, _, hcheckers, -, -, rfl⟩ := (generate_eq_ok_iff spec options m).1 h
  exact ⟨hdomain, _, checkers, _, hcheckers, rfl, rfl⟩

/-- A generated module has the domain of its specification. -/
theorem domain_of_generate {spec : Specification} {options : CheckerOptions} {m : CheckerModule}
    (h : spec.generate options = .ok m) : m.domain = spec.domain := by
  obtain ⟨-, _, _, _, -, hdomain, -⟩ := exists_of_generate h
  exact hdomain

/-- A defect that the analysis finds stops both the check and the generation. -/
theorem check_of_analyze_error {spec spec' : Specification} {e : SpecError}
    (h : spec.analyze = (spec', .error e)) (options : CheckerOptions) :
    spec.check = .error e ∧ spec.compile options = .error e := by
  unfold check compile
  rw [h]
  exact ⟨rfl, rfl⟩

/-- After the analysis the check only looks at the domain. -/
theorem check_of_analyze_ok {spec spec' : Specification} {d : Domain}
    (h : spec.analyze = (spec', .ok d)) :
    spec.check = match spec'.domainError? with
      | some e => .error e
      | none => .ok d := by
  unfold check
  rw [h]
  rfl

theorem compile_of_analyze_ok {spec spec' : Specification} {d : Domain}
    (h : spec.analyze = (spec', .ok d)) (options : CheckerOptions) :
    spec.compile options = spec'.generate options := by
  unfold compile
  rw [h]
  rfl

/-- A compiled module is generated from the specification with its types filled in. -/
theorem generate_of_compile {spec : Specification} {options : CheckerOptions}
    {m : CheckerModule} (h : spec.compile options = .ok m) :
    spec.analyze.1.generate options = .ok m := by
  rcases hanalyze : spec.analyze with ⟨spec', e | d⟩
  · rw [(check_of_analyze_error hanalyze options).2] at h
    cases h
  · rwa [compile_of_analyze_ok hanalyze] at h

theorem domain_of_compile {spec : Specification} {options : CheckerOptions}
    {m : CheckerModule} (h : spec.compile options = .ok m) : m.domain = spec.domain := by
  rw [domain_of_generate (generate_of_compile h), domain_analyze]

/-- A domain that cannot be checked is reported as such. -/
theorem code_of_domainError {spec : Specification} {e : SpecError}
    (h : spec.domainError? = some e) : e.code ∈ ["E0013", "E0014", "E0015"] := by
  unfold domainError? at h
  split at h
  · cases h
    simp [SpecError.code]
  · split at h <;> cases h <;> simp [SpecError.code]
  all_goals cases h

/-- The check is a faithful filter before the generation. What it refuses, the
generation refuses for the same reason; what it accepts with a domain becomes a
module for that domain, or is refused with a defect that only lowering or a cost
model can find. After a successful analysis, the defects of typing are not found
again. -/
theorem check_prefilters_compile (spec : Specification) (options : CheckerOptions) :
    (∀ e, spec.check = .error e → spec.compile options = .error e) ∧
    (∀ d, spec.check = .ok d →
      (∃ m, spec.compile options = .ok m ∧ m.domain = d) ∨
      ∃ e, spec.compile options = .error e ∧
        e.code ∈ ["E0004", "E0007", "E0008", "E0009", "E0010", "E0011"]) ∧
    ∀ d, spec.analyze.2 = .ok d → ∀ e, spec.analyze.1.generate options = .error e →
      e.code ∉ ["E0012", "E0005", "E0003", "E0006"] := by
  rcases h : spec.analyze with ⟨spec', e | d⟩
  · obtain ⟨hcheck, hcompile⟩ := check_of_analyze_error h options
    rw [hcheck, hcompile]
    refine ⟨?_, nofun, nofun⟩
    rintro _ ⟨⟩
    rfl
  · have hann : spec'.Typed .filled := annotated_of_analyze h
    have hd : spec'.domain = d := by
      have hok := (analyze_eq_ok_iff spec spec' d).1 h
      rw [← hok.2.2.2.2.2, ← domain_analyze spec, h]
    rw [check_of_analyze_ok h, compile_of_analyze_ok h]
    cases hdomain : spec'.domainError? with
    | some e =>
        rw [generate_of_domainError hdomain]
        refine ⟨?_, nofun, ?_⟩
        · rintro _ ⟨⟩
          rfl
        · rintro _ _ _ ⟨⟩
          have hcode := code_of_domainError hdomain
          revert hcode
          cases e <;> simp [SpecError.code]
    | none =>
        -- With types and domain in order, only the defects of lowering and of the cost models are
        -- left.
        have hlate := generate_failsOnly hann hdomain options
        refine ⟨nofun, ?_, ?_⟩
        · rintro _ ⟨⟩
          cases hgen : spec'.generate options with
          | ok m => exact .inl ⟨m, rfl, (domain_of_generate hgen).trans hd⟩
          | error e => exact .inr ⟨e, rfl, hlate e hgen⟩
        · intro _ _ e he
          have hcode := hlate e he
          revert hcode
          cases e <;> simp [SpecError.IsLate, SpecError.code]

/-- The output is positive in a share of the runs that is compared with an
operator. -/
def positiveShare (op : CmpOp) (decls : List Decl) : Specification where
  decls := decls
  accuracy := some (.compare .dummy
    (.probability {} .runs (.compare .dummy (.identifier {} "Output") .gt (.constant {} "0")))
    op (.constant {} "0.9"))

/-- Without declarations both refuse alike; with them the check accepts, and the
generation finds that no binomial test decides the comparison. -/
theorem check_prefilters_compile_positiveShare :
    (positiveShare .ne []).check = .error (.missingDeclaration "Output" .dummy) ∧
    (positiveShare .ne []).compile {} = .error (.missingDeclaration "Output" .dummy) ∧
    (positiveShare .ne [⟨"Output", .scalar, .dummy⟩, ⟨"Input", .scalar, .dummy⟩]).check
      = .ok .overRuns ∧
    ∃ e, (positiveShare .ne [⟨"Output", .scalar, .dummy⟩, ⟨"Input", .scalar, .dummy⟩]).compile {}
      = .error e ∧ e.code ∈ ["E0004", "E0007", "E0008", "E0009", "E0010", "E0011"] := by
  have herror : (positiveShare .ne []).check
      = .error (.missingDeclaration "Output" .dummy) := rfl
  have hok : (positiveShare .ne [⟨"Output", .scalar, .dummy⟩, ⟨"Input", .scalar, .dummy⟩]).check
      = .ok .overRuns := rfl
  refine ⟨herror, (check_prefilters_compile _ {}).1 _ herror, hok, ?_⟩
  rcases (check_prefilters_compile _ {}).2.1 _ hok with ⟨m, hm, -⟩ | h
  · cases hm
  · exact h

end Specification

end StatContract
