import StatContract.Proofs.Spec.Names
import StatContract.Proofs.Typing.Erasure

/-!
# The trials of a clause

A comparison of a probability over trials counts these trials, and it may stand at
any depth: in a quantifier, or in the body of another statistic. The domain of a
clause looks at the outer statistics only. So the kinds of trials are listed twice
here, all of them and those in the body of a statistic, and the link is
`Clause.mem_trials_cases`: what is not in a body agrees with the domain.
-/

namespace StatContract

/-- The node is a probability, an expectation or an approximate comparison. -/
def Node.isStatistical : Node → Bool
  | .term t => t.isStatistic
  | .clause (.approx ..) => true
  | _ => false

/-- The kinds of trials that the comparisons in a clause count. -/
def Clause.trials : Clause → List Trials
  | .forAll _ _ body | .letIn _ _ _ body => body.trials
  | .not _ inner => inner.trials
  | .logic _ lhs _ rhs => lhs.trials ++ rhs.trials
  | .compare _ (.probability _ trials body) _ _ => trials :: body.trials
  | .compare _ (.probabilityOverItems _ _ body) _ _ => body.trials
  | .compare .. | .membership .. | .approx .. => []

/-- The kinds of trials that are counted in the body of a statistic. -/
def Clause.innerTrials : Clause → List Trials
  | .forAll _ _ body | .letIn _ _ _ body => body.innerTrials
  | .not _ inner => inner.innerTrials
  | .logic _ lhs _ rhs => lhs.innerTrials ++ rhs.innerTrials
  | .compare _ (.probability _ _ body) _ _
  | .compare _ (.probabilityOverItems _ _ body) _ _ => body.trials
  | .compare .. | .membership .. | .approx .. => []

theorem Clause.trials_compare {lhs : Term} (h : lhs.isStatistic = false) (span : Span)
    (op : CmpOp) (rhs : Term) : (Clause.compare span lhs op rhs).trials = [] := by
  cases lhs <;> first | rfl | cases h

theorem Clause.mem_trials_of_mem_innerTrials {T : Trials} (c : Clause) (h : T ∈ c.innerTrials) :
    T ∈ c.trials := by
  induction c using Clause.innerTrials.induct with
  | case1 _ _ _ ih | case2 _ _ _ _ ih | case3 _ _ ih => exact ih h
  | case4 _ _ _ _ ih₁ ih₂ =>
      rcases List.mem_append.1 h with h | h
      · exact List.mem_append_left _ (ih₁ h)
      · exact List.mem_append_right _ (ih₂ h)
  | case5 => exact List.mem_cons_of_mem _ h
  | case6 => exact h
  | case7 | case8 | case9 => simp_all [Clause.innerTrials]

theorem Trials.domain_ne_none (T : Trials) : T.domain ≠ .none := by
  cases T <;> decide

/-- A commitment stays, unless it is in conflict. -/
theorem Domain.merge_eq_or_conflict {a d : Domain} (hd : d ≠ .none) (ha : a = d ∨ a = .conflict)
    (b : Domain) : a.merge b = d ∨ a.merge b = .conflict := by
  rcases ha with rfl | rfl
  · cases a <;> cases b <;> first | exact absurd rfl hd | decide
  · cases b <;> exact .inr rfl

/-- Trials are counted in the body of a statistic, or they are what the clause is
committed to, unless its commitments conflict. -/
theorem Clause.mem_trials_cases {T : Trials} :
    ∀ {c : Clause}, T ∈ c.trials → T ∈ c.innerTrials ∨ c.domain = T.domain ∨ c.domain = .conflict
  | .forAll _ _ body, h | .letIn _ _ _ body, h | .not _ body, h =>
      Clause.mem_trials_cases (c := body) h
  | .logic _ lhs _ rhs, h => by
      rw [Clause.trials, List.mem_append] at h
      rw [Clause.innerTrials, List.mem_append, Clause.domain]
      rcases h with h | h
      · rcases Clause.mem_trials_cases h with hinner | hdomain
        · exact .inl (.inl hinner)
        · exact .inr (Domain.merge_eq_or_conflict T.domain_ne_none hdomain rhs.domain)
      · rcases Clause.mem_trials_cases h with hinner | hdomain
        · exact .inl (.inr hinner)
        · rw [Domain.merge_comm]
          exact .inr (Domain.merge_eq_or_conflict T.domain_ne_none hdomain lhs.domain)
  | .compare _ (.probability ..) _ rhs, h => by
      rcases List.mem_cons.1 h with rfl | h
      · exact .inr (Domain.merge_eq_or_conflict T.domain_ne_none (.inl rfl) rhs.domain)
      · exact .inl h
  | .compare _ (.probabilityOverItems ..) _ _, h => .inl h

theorem Clause.domain_ne_performanceOnly (c : Clause) : c.domain ≠ .performanceOnly := by
  have hmerge : ∀ {a b : Domain}, a ≠ .performanceOnly → b ≠ .performanceOnly →
      a.merge b ≠ .performanceOnly := by
    intro a b
    cases a <;> cases b <;> decide
  have hterm : ∀ t : Term, t.domain ≠ .performanceOnly := by
    intro t
    induction t using Term.domain.induct with
    | case1 note trials body => cases trials <;> simp [Term.domain, Trials.domain]
    | case2 note trials body => cases trials <;> simp [Term.domain, Trials.domain]
    | case5 note lhs op rhs ih₁ ih₂ => exact hmerge ih₁ ih₂
    | _ => simp_all [Term.domain]
  induction c using Clause.domain.induct with
  | case5 | case6 => simp [Clause.domain, *]
  | case7 => exact hmerge (hterm _) (hterm _)
  | case8 _ _ _ _ ih₁ ih₂ => exact hmerge ih₁ ih₂
  | _ => simp_all [Clause.domain]

theorem Clause.trials_eraseTypes (c : Clause) : c.eraseTypes.trials = c.trials := by
  induction c using Clause.trials.induct with
  | case7 span lhs op rhs =>
      cases lhs <;> simp_all [Clause.eraseTypes, Term.eraseTypes, Clause.trials]
  | _ => simp_all [Clause.eraseTypes, Term.eraseTypes, Clause.trials]

theorem Clause.innerTrials_eraseTypes (c : Clause) : c.eraseTypes.innerTrials = c.innerTrials := by
  induction c using Clause.innerTrials.induct with
  | case7 span lhs op rhs =>
      cases lhs <;> simp_all [Clause.eraseTypes, Term.eraseTypes, Clause.innerTrials]
  | _ =>
      simp_all [Clause.eraseTypes, Term.eraseTypes, Clause.innerTrials, Clause.trials_eraseTypes]

mutual

/-- What a clause binds is read off without its slots. -/
theorem Clause.binders_eraseTypes : ∀ c : Clause, c.eraseTypes.binders = c.binders
  | .forAll _ ranges body => by
      simp [Clause.eraseTypes, Range.bindersOfAll_eraseTypes ranges, Clause.binders_eraseTypes body]
  | .letIn _ _ value body => by
      simp [Clause.eraseTypes, Term.binders_eraseTypes value, Clause.binders_eraseTypes body]
  | .membership _ item collection => by
      simp [Clause.eraseTypes, Term.binders_eraseTypes item, Term.binders_eraseTypes collection]
  | .approx _ lhs rhs => by
      simp [Clause.eraseTypes, Term.binders_eraseTypes lhs, Term.binders_eraseTypes rhs]
  | .compare _ lhs _ rhs => by
      simp [Clause.eraseTypes, Term.binders_eraseTypes lhs, Term.binders_eraseTypes rhs]
  | .logic _ lhs _ rhs => by
      simp [Clause.eraseTypes, Clause.binders_eraseTypes lhs, Clause.binders_eraseTypes rhs]
  | .not _ inner => by simp [Clause.eraseTypes, Clause.binders_eraseTypes inner]

theorem Term.binders_eraseTypes : ∀ t : Term, t.eraseTypes.binders = t.binders
  | .constant .. | .identifier .. => rfl
  | .probability _ _ body => by simp [Term.eraseTypes, Clause.binders_eraseTypes body]
  | .probabilityOverItems _ ranges body => by
      simp [Term.eraseTypes, Range.bindersOfAll_eraseTypes ranges, Clause.binders_eraseTypes body]
  | .expectation _ _ body => by simp [Term.eraseTypes, Term.binders_eraseTypes body]
  | .expectationOverItems _ ranges body => by
      simp [Term.eraseTypes, Range.bindersOfAll_eraseTypes ranges, Term.binders_eraseTypes body]
  | .lookup _ collection key => by
      simp [Term.eraseTypes, Term.binders_eraseTypes collection, Term.binders_eraseTypes key]
  | .tuple _ elements => by simp [Term.eraseTypes, Term.bindersOfAll_eraseTypes elements]
  | .binary _ lhs _ rhs => by
      simp [Term.eraseTypes, Term.binders_eraseTypes lhs, Term.binders_eraseTypes rhs]
  | .sizeOf _ collection => by simp [Term.eraseTypes, Term.binders_eraseTypes collection]
  | .call _ _ args => by simp [Term.eraseTypes, Term.bindersOfAll_eraseTypes args]

theorem Range.bindersOfAll_eraseTypes : ∀ ranges : List Range,
    Range.bindersOfAll (Range.eraseTypesOfAll ranges) = Range.bindersOfAll ranges
  | [] => rfl
  | .mk _ _ collection _ :: rest => by
      simp [Range.eraseTypesOfAll, Term.binders_eraseTypes collection,
        Range.bindersOfAll_eraseTypes rest]

theorem Term.bindersOfAll_eraseTypes : ∀ ts : List Term,
    Term.bindersOfAll (Term.eraseTypesOfAll ts) = Term.bindersOfAll ts
  | [] => rfl
  | t :: rest => by
      simp [Term.eraseTypesOfAll, Term.binders_eraseTypes t, Term.bindersOfAll_eraseTypes rest]

end

end StatContract
