import StatContract.Proofs.Checker.Diagnosis
import StatContract.Proofs.Spec.Exposure

/-!
# Statistics out of sight

The domain of a clause is read off the terms that are compared in it. Not looked at are the values
of lets, the collections of ranges, both sides of a membership test, and inside a compared term the
parts of lookups, tuples, sizes and calls. These are the hidden parts of a clause.

A clause without a domain is refused with the reason that it contains no statistic. What it really
has none of is a statistic outside of its hidden parts (`Clause.domain_eq_none_iff_hidden`).
-/

namespace StatContract

namespace Node

/-- The statistics among nodes. -/
def statistics (nodes : List Node) : List Node := nodes.filter isStatistical

theorem statistics_append (ms ns : List Node) :
    statistics (ms ++ ns) = statistics ms ++ statistics ns :=
  List.filter_append ..

theorem statistics_cons {n : Node} (h : n.isStatistical = false) (ns : List Node) :
    statistics (n :: ns) = statistics ns :=
  List.filter_cons_of_neg (by simp [h])

theorem length_statistics_pos {n : Node} (h : n.isStatistical = true) (ns : List Node) :
    0 < (statistics (n :: ns)).length := by
  rw [statistics, List.filter_cons_of_pos h]
  exact Nat.succ_pos _

theorem length_statistics_le {ms ns : List Node} (h : ms.Sublist ns) :
    (statistics ms).length ≤ (statistics ns).length :=
  (h.filter isStatistical).length_le

theorem statistics_eq_nil_iff (ns : List Node) :
    statistics ns = [] ↔ ∀ n ∈ ns, n.isStatistical = false := by
  simp [statistics]

end Node

/-- The nodes of a compared term that do not count for its domain. -/
def Term.hidden : Term → List Node
  | .lookup _ collection key => collection.nodes ++ key.nodes
  | .tuple _ elements => Term.nodesOfAll elements
  | .binary _ lhs _ rhs => lhs.hidden ++ rhs.hidden
  | .sizeOf _ collection => collection.nodes
  | .call _ _ args => Term.nodesOfAll args
  | .constant .. | .identifier .. | .probability .. | .probabilityOverItems .. | .expectation ..
  | .expectationOverItems .. => []

/-- The nodes of a clause that do not count for its domain. -/
def Clause.hidden : Clause → List Node
  | .forAll _ ranges body => Range.nodesOfAll ranges ++ body.hidden
  | .letIn _ _ value body => value.nodes ++ body.hidden
  | .membership _ item collection => item.nodes ++ collection.nodes
  | .approx .. => []
  | .compare _ lhs _ rhs => lhs.hidden ++ rhs.hidden
  | .logic _ lhs _ rhs => lhs.hidden ++ rhs.hidden
  | .not _ inner => inner.hidden

theorem Term.hidden_sublist : ∀ t : Term, t.hidden.Sublist t.nodes
  | .lookup .. | .tuple .. | .sizeOf .. | .call .. => by
      rw [Term.hidden, Term.nodes]
      exact List.sublist_cons_self _ _
  | .binary _ lhs _ rhs => by
      rw [Term.hidden, Term.nodes]
      exact (lhs.hidden_sublist.append rhs.hidden_sublist).cons _
  | .constant .. | .identifier .. | .probability .. | .probabilityOverItems .. | .expectation ..
  | .expectationOverItems .. => List.nil_sublist _

theorem Clause.hidden_sublist (c : Clause) : c.hidden.Sublist c.nodes := by
  cases c with
  | forAll _ ranges body =>
      rw [Clause.hidden, Clause.nodes]
      exact (body.hidden_sublist.append_left _).cons _
  | letIn _ _ value body =>
      rw [Clause.hidden, Clause.nodes]
      exact (body.hidden_sublist.append_left _).cons _
  | membership =>
      rw [Clause.hidden, Clause.nodes]
      exact List.sublist_cons_self _ _
  | approx => exact List.nil_sublist _
  | compare _ lhs _ rhs =>
      rw [Clause.hidden, Clause.nodes]
      exact (lhs.hidden_sublist.append rhs.hidden_sublist).cons _
  | logic _ lhs _ rhs =>
      rw [Clause.hidden, Clause.nodes]
      exact (lhs.hidden_sublist.append rhs.hidden_sublist).cons _
  | not _ inner =>
      rw [Clause.hidden, Clause.nodes]
      exact inner.hidden_sublist.cons _

/-- If nothing is exposed, all statistics of a term are hidden. -/
theorem Term.statistics_eq_hidden : ∀ {t : Term}, t.exposed = ∅ →
    Node.statistics t.nodes = Node.statistics t.hidden
  | .constant .., _ | .identifier .., _ | .lookup .., _ | .tuple .., _ | .sizeOf .., _
  | .call .., _ => by
      rw [Term.hidden, Term.nodes, Node.statistics_cons rfl]
  | .binary _ lhs _ rhs, h => by
      obtain ⟨hlhs, hrhs⟩ := Finset.union_eq_empty.1 h
      rw [Term.hidden, Term.nodes, Node.statistics_cons rfl, Node.statistics_append,
        Node.statistics_append, statistics_eq_hidden hlhs, statistics_eq_hidden hrhs]
  | .probability .., h | .probabilityOverItems .., h | .expectation .., h
  | .expectationOverItems .., h => (Finset.singleton_ne_empty _ h).elim

/-- If nothing is exposed, all statistics of a clause are hidden. -/
theorem Clause.statistics_eq_hidden : ∀ {c : Clause}, c.exposed = ∅ →
    Node.statistics c.nodes = Node.statistics c.hidden
  | .forAll _ ranges body, h => by
      rw [Clause.hidden, Clause.nodes, Node.statistics_cons rfl, Node.statistics_append,
        Node.statistics_append, body.statistics_eq_hidden h]
  | .letIn _ _ value body, h => by
      rw [Clause.hidden, Clause.nodes, Node.statistics_cons rfl, Node.statistics_append,
        Node.statistics_append, body.statistics_eq_hidden h]
  | .membership .., _ => by rw [Clause.hidden, Clause.nodes, Node.statistics_cons rfl]
  | .approx .., h => by
      rw [Clause.exposed] at h
      split at h <;> exact (Finset.singleton_ne_empty _ h).elim
  | .compare _ lhs _ rhs, h => by
      obtain ⟨hlhs, hrhs⟩ := Finset.union_eq_empty.1 h
      rw [Clause.hidden, Clause.nodes, Node.statistics_cons rfl, Node.statistics_append,
        Node.statistics_append, lhs.statistics_eq_hidden hlhs, rhs.statistics_eq_hidden hrhs]
  | .logic _ lhs _ rhs, h => by
      obtain ⟨hlhs, hrhs⟩ := Finset.union_eq_empty.1 h
      rw [Clause.hidden, Clause.nodes, Node.statistics_cons rfl, Node.statistics_append,
        Node.statistics_append, lhs.statistics_eq_hidden hlhs, rhs.statistics_eq_hidden hrhs]
  | .not _ inner, h => by
      rw [Clause.hidden, Clause.nodes, Node.statistics_cons rfl, inner.statistics_eq_hidden h]

/-- Of two parts, one with a statistic that is not hidden is enough. -/
theorem length_hidden_append_lt {hs hs' ns ns' : List Node} (h : hs.Sublist ns)
    (h' : hs'.Sublist ns')
    (hlt : (Node.statistics hs).length < (Node.statistics ns).length ∨
      (Node.statistics hs').length < (Node.statistics ns').length) :
    (Node.statistics (hs ++ hs')).length < (Node.statistics (ns ++ ns')).length := by
  have hle := Node.length_statistics_le h
  have hle' := Node.length_statistics_le h'
  rw [Node.statistics_append, Node.statistics_append, List.length_append, List.length_append]
  omega

/-- A term that exposes something has a statistic that is not hidden. -/
theorem Term.length_hidden_lt : ∀ {t : Term}, t.exposed ≠ ∅ →
    (Node.statistics t.hidden).length < (Node.statistics t.nodes).length
  | .probability .., _ | .probabilityOverItems .., _ | .expectation .., _
  | .expectationOverItems .., _ => by
      rw [Term.hidden, Term.nodes]
      exact Node.length_statistics_pos rfl _
  | .binary _ lhs _ rhs, h => by
      rw [Term.exposed, ne_eq, Finset.union_eq_empty, not_and_or] at h
      rw [Term.hidden, Term.nodes, Node.statistics_cons rfl]
      exact length_hidden_append_lt lhs.hidden_sublist rhs.hidden_sublist
        (h.imp length_hidden_lt length_hidden_lt)
  | .constant .., h | .identifier .., h | .lookup .., h | .tuple .., h | .sizeOf .., h
  | .call .., h => (h rfl).elim

/-- A clause that exposes something has a statistic that is not hidden. -/
theorem Clause.length_hidden_lt : ∀ {c : Clause}, c.exposed ≠ ∅ →
    (Node.statistics c.hidden).length < (Node.statistics c.nodes).length
  | .forAll _ ranges body, h => by
      rw [Clause.hidden, Clause.nodes, Node.statistics_cons rfl]
      exact length_hidden_append_lt (.refl _) body.hidden_sublist (.inr (body.length_hidden_lt h))
  | .letIn _ _ value body, h => by
      rw [Clause.hidden, Clause.nodes, Node.statistics_cons rfl]
      exact length_hidden_append_lt (.refl _) body.hidden_sublist (.inr (body.length_hidden_lt h))
  | .membership .., h => (h rfl).elim
  | .approx .., _ => by
      rw [Clause.hidden, Clause.nodes]
      exact Node.length_statistics_pos rfl _
  | .compare _ lhs _ rhs, h => by
      rw [Clause.exposed, ne_eq, Finset.union_eq_empty, not_and_or] at h
      rw [Clause.hidden, Clause.nodes, Node.statistics_cons rfl]
      exact length_hidden_append_lt lhs.hidden_sublist rhs.hidden_sublist
        (h.imp lhs.length_hidden_lt rhs.length_hidden_lt)
  | .logic _ lhs _ rhs, h => by
      rw [Clause.exposed, ne_eq, Finset.union_eq_empty, not_and_or] at h
      rw [Clause.hidden, Clause.nodes, Node.statistics_cons rfl]
      exact length_hidden_append_lt lhs.hidden_sublist rhs.hidden_sublist
        (h.imp lhs.length_hidden_lt rhs.length_hidden_lt)
  | .not _ inner, h => by
      rw [Clause.hidden, Clause.nodes, Node.statistics_cons rfl]
      exact inner.length_hidden_lt h

/-- A clause has no domain exactly if all of its statistics are hidden. -/
theorem Clause.domain_eq_none_iff_hidden (c : Clause) :
    c.domain = .none ↔ Node.statistics c.nodes = Node.statistics c.hidden := by
  rw [c.domain_eq_sup, Domain.sup_eq_none_iff c.none_notMem_exposed]
  constructor
  · exact c.statistics_eq_hidden
  · intro h
    -- Hidden nodes can equal exposed ones, so the two lists are compared by their lengths.
    by_contra hexposed
    exact (c.length_hidden_lt hexposed).ne (congrArg List.length h).symm

namespace Specification

/-- The analysis does not look for statistics. -/
theorem analyze_ne_noStatistic (spec : Specification) (span : Span) :
    spec.analyze.2 ≠ .error (.noStatistic span) := by
  intro h
  cases hdecl : spec.missingDeclaration? with
  | some name =>
      rw [analyze_of_missing hdecl] at h
      cases h
  | none =>
      obtain ⟨p, -, hshows⟩ := exists_site_of_analyze hdecl h
      cases hshows

/-- Why there is no domain to check does not depend on the types. -/
theorem domainError?_eraseTypes (spec : Specification) :
    spec.eraseTypes.domainError? = spec.domainError? := by
  unfold domainError?
  rw [domain_eraseTypes]
  cases haccuracy : spec.accuracy with
  | none => simp [eraseTypes, haccuracy]
  | some c => simp [eraseTypes, haccuracy, Clause.span_congr c.eraseTypes_eraseTypes]

theorem domainError?_eq_noStatistic_iff (spec : Specification) (span : Span) :
    spec.domainError? = some (.noStatistic span) ↔
      ∃ c, spec.accuracy = some c ∧ c.span = span ∧ c.domain = .none := by
  unfold domainError? domain
  cases spec.accuracy with
  | none => exact iff_of_false (by split <;> simp) (by simp)
  | some c => cases hdomain : c.domain <;> simp [hdomain]

/-- The specification passes the analysis, and what its accuracy clause at the place has of
statistics is hidden. -/
def HidesStatistics (spec : Specification) (span : Span) : Prop :=
  (∃ d, spec.analyze.2 = .ok d) ∧
    ∃ c, spec.accuracy = some c ∧ c.span = span ∧ Node.statistics c.nodes = Node.statistics c.hidden

/-- After the analysis the reason is given exactly if the statistics are hidden. -/
theorem hidesStatistics_iff_domainError? {spec spec' : Specification} {d : Domain}
    (h : spec.analyze = (spec', .ok d)) (span : Span) :
    spec.HidesStatistics span ↔ spec'.domainError? = some (.noStatistic span) := by
  have herase : spec'.eraseTypes = spec.eraseTypes := by
    rw [← eraseTypes_analyze spec, h]
  rw [← spec'.domainError?_eraseTypes, herase, domainError?_eraseTypes,
    domainError?_eq_noStatistic_iff, HidesStatistics, h]
  simp only [Clause.domain_eq_none_iff_hidden, Except.ok.injEq, exists_eq', true_and]

/-- A defect that the analysis finds is not the lack of a statistic, and with one the specification
does not hide statistics either. -/
theorem analyze_error_iff_hidesStatistics {spec spec' : Specification} {e : SpecError} {α : Type}
    (h : spec.analyze = (spec', .error e)) (span : Span) :
    (.error e : Except SpecError α) = .error (.noStatistic span) ↔ spec.HidesStatistics span := by
  refine iff_of_false ?_ ?_
  · rintro ⟨⟩
    exact spec.analyze_ne_noStatistic span (congrArg Prod.snd h)
  · rintro ⟨⟨d, hd⟩, -⟩
    rw [h] at hd
    cases hd

theorem check_eq_noStatistic_iff (spec : Specification) (span : Span) :
    spec.check = .error (.noStatistic span) ↔ spec.HidesStatistics span := by
  rcases hanalyze : spec.analyze with ⟨spec', e | d⟩
  · rw [(check_of_analyze_error hanalyze {}).1]
    exact analyze_error_iff_hidesStatistics hanalyze span
  · rw [hidesStatistics_iff_domainError? hanalyze, check_of_analyze_ok hanalyze]
    cases spec'.domainError? <;> simp

theorem compile_eq_noStatistic_iff (spec : Specification) (options : CheckerOptions)
    (span : Span) :
    spec.compile options = .error (.noStatistic span) ↔ spec.HidesStatistics span := by
  rcases hanalyze : spec.analyze with ⟨spec', e | d⟩
  · rw [(check_of_analyze_error hanalyze options).2]
    exact analyze_error_iff_hidesStatistics hanalyze span
  · rw [hidesStatistics_iff_domainError? hanalyze, compile_of_analyze_ok hanalyze]
    cases hdomain : spec'.domainError? with
    | some e => simp [generate_of_domainError hdomain]
    | none =>
        refine iff_of_false (fun h => ?_) (by simp)
        have hlate := generate_failsOnly (annotated_of_analyze hanalyze) hdomain options _ h
        simp [SpecError.IsLate, SpecError.code] at hlate

/-- The report that the accuracy clause has no statistic is made by the check and by the compiler
alike, exactly if all statistics of the clause are hidden. So it is true exactly if the hidden parts
have none. -/
theorem noStatistic_reported_iff_hidden (spec : Specification) (options : CheckerOptions)
    (span : Span) :
    (spec.check = .error (.noStatistic span) ↔ spec.HidesStatistics span) ∧
    (spec.compile options = .error (.noStatistic span) ↔ spec.HidesStatistics span) ∧
    (spec.HidesStatistics span → ∀ c, spec.accuracy = some c →
      ((∀ n ∈ c.nodes, n.isStatistical = false) ↔ ∀ n ∈ c.hidden, n.isStatistical = false)) := by
  refine ⟨spec.check_eq_noStatistic_iff span, spec.compile_eq_noStatistic_iff options span, ?_⟩
  rintro ⟨-, c', hc', -, hstatistics⟩ c hc
  obtain rfl : c' = c := Option.some.inj (hc'.symm.trans hc)
  rw [← Node.statistics_eq_nil_iff, ← Node.statistics_eq_nil_iff, hstatistics]

/-- A share of the runs is looked for among the items of the input. -/
def shareAmongItems : Specification where
  decls := [⟨"Output", .scalar, .dummy⟩, ⟨"Input", .sequence .scalar, .dummy⟩]
  accuracy := some (.membership .dummy
    (.probability {} .runs (.compare .dummy (.identifier {} "Output") .gt (.constant {} "0")))
    (.identifier {} "Input"))

/-- The share is hidden, so the report is made, and it is not true. -/
theorem noStatistic_reported_shareAmongItems :
    shareAmongItems.HidesStatistics .dummy ∧
    shareAmongItems.check = .error (.noStatistic .dummy) ∧
    shareAmongItems.compile {} = .error (.noStatistic .dummy) ∧
    ∃ c, shareAmongItems.accuracy = some c ∧ ¬ ∀ n ∈ c.nodes, n.isStatistical = false := by
  have hhides : shareAmongItems.HidesStatistics .dummy :=
    ⟨⟨.none, rfl⟩, _, rfl, rfl, rfl⟩
  obtain ⟨hcheck, hcompile, htrue⟩ := noStatistic_reported_iff_hidden shareAmongItems {} .dummy
  refine ⟨hhides, hcheck.2 hhides, hcompile.2 hhides, _, rfl, ?_⟩
  rw [htrue hhides _ rfl, ← Node.statistics_eq_nil_iff]
  decide

end Specification

end StatContract
