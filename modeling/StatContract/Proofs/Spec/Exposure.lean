import StatContract.Proofs.Spec.Trials
import Mathlib.Data.Finset.Card
import Mathlib.Data.Finset.Lattice.Fold

/-!
# Exposed statistics

The domain of a clause merges the commitments of its parts on the way up the
tree. Here the commitments are collected as a set instead, `Clause.exposed`,
without merging anything. Domains are a flat lattice with `merge` as its join:
no commitment is below everything, a conflict is above everything, and two
different commitments have nothing but a conflict above both. So the domain is
the least upper bound of the exposed commitments, and what it is can be told from
the set.

A set has no order, no grouping and no repetition. `Clause.Rearranged` relates
clauses that differ in these respects only, anywhere in the tree, and they have
the same domain.
-/

namespace StatContract

namespace Domain

instance : Max Domain := ⟨merge⟩

/-- What commits to more is higher, and `merge` is the join. -/
instance : SemilatticeSup Domain := SemilatticeSup.mk' merge_comm merge_assoc merge_self

instance : OrderBot Domain where
  bot := none
  bot_le := none_merge

theorem sup_eq_merge (a b : Domain) : a ⊔ b = a.merge b := rfl

theorem le_iff_merge_eq (a b : Domain) : a ≤ b ↔ a.merge b = b := Iff.rfl

/-- The lattice is flat: below a commitment there is only no commitment. -/
theorem eq_of_le {a d : Domain} (h : a ≤ d) (ha : a ≠ none) (hd : d ≠ conflict) : a = d := by
  rw [le_iff_merge_eq] at h
  cases a <;> cases d <;> first | rfl | exact absurd rfl ha | exact absurd rfl hd | cases h

/-- Only a conflict is above two commitments. -/
theorem eq_conflict_of_le {a b d : Domain} (ha : a ≤ d) (hb : b ≤ d) (hne : a ≠ b)
    (ha' : a ≠ none) (hb' : b ≠ none) : d = conflict := by
  by_contra hd
  exact hne ((eq_of_le ha ha' hd).trans (eq_of_le hb hb' hd).symm)

/-- Nothing but a conflict is above a conflict. -/
theorem eq_conflict_of_conflict_le {d : Domain} (h : conflict ≤ d) : d = conflict := by
  rw [le_iff_merge_eq] at h
  cases d <;> first | rfl | cases h

/-- Without commitments there is nothing to join. -/
theorem sup_eq_none_iff {K : Finset Domain} (hK : none ∉ K) : K.sup id = none ↔ K = ∅ := by
  constructor
  · intro h
    rw [Finset.eq_empty_iff_forall_notMem]
    intro d hd
    have hle : d ≤ none := h ▸ Finset.le_sup (f := id) hd
    rw [show d = none from le_bot_iff.1 hle] at hd
    exact hK hd
  · rintro rfl
    rfl

/-- A commitment is the join of itself alone. -/
theorem sup_eq_iff {K : Finset Domain} (hK : none ∉ K) {d : Domain} (hd : d ≠ none)
    (hd' : d ≠ conflict) : K.sup id = d ↔ K = {d} := by
  constructor
  · intro h
    rw [Finset.eq_singleton_iff_nonempty_unique_mem]
    constructor
    · rw [Finset.nonempty_iff_ne_empty]
      rintro rfl
      exact hd h.symm
    · intro a ha
      have hle : a ≤ d := h ▸ Finset.le_sup (f := id) ha
      exact eq_of_le hle (fun h => hK (h ▸ ha)) hd'
  · rintro rfl
    exact Finset.sup_singleton

/-- A conflict comes from two commitments or is there from the start. -/
theorem sup_eq_conflict_iff {K : Finset Domain} (hK : none ∉ K) :
    K.sup id = conflict ↔ 2 ≤ K.card ∨ conflict ∈ K := by
  constructor
  · intro h
    by_contra hfew
    rw [not_or, not_le, Nat.lt_succ_iff, Finset.card_le_one_iff_subset_singleton] at hfew
    obtain ⟨⟨d, hsub⟩, hconflict⟩ := hfew
    rcases Finset.subset_singleton_iff.1 hsub with rfl | rfl
    · cases h
    · rw [Finset.sup_singleton] at h
      exact hconflict (h ▸ Finset.mem_singleton_self d)
  · rintro (hcard | hmem)
    · obtain ⟨a, ha, b, hb, hne⟩ := Finset.one_lt_card.1 hcard
      exact eq_conflict_of_le (Finset.le_sup (f := id) ha) (Finset.le_sup (f := id) hb) hne
        (fun h => hK (h ▸ ha)) fun h => hK (h ▸ hb)
    · exact eq_conflict_of_conflict_le (Finset.le_sup (f := id) hmem)

end Domain

/-- The commitments of the statistics that are compared in a term. -/
def Term.exposed : Term → Finset Domain
  | probability _ trials _ | expectation _ trials _ => {trials.domain}
  | probabilityOverItems .. | expectationOverItems .. => {.overItems}
  | binary _ lhs _ rhs => lhs.exposed ∪ rhs.exposed
  | _ => ∅

/-- The commitments of the statistics that are compared in a clause. -/
def Clause.exposed : Clause → Finset Domain
  | forAll _ _ body | letIn _ _ _ body => body.exposed
  | not _ inner => inner.exposed
  | membership .. => ∅
  | approx _ lhs rhs => if lhs.exposed = ∅ ∧ rhs.exposed = ∅ then {.overRuns} else {.conflict}
  | compare _ lhs _ rhs => lhs.exposed ∪ rhs.exposed
  | logic _ lhs _ rhs => lhs.exposed ∪ rhs.exposed

theorem Term.none_notMem_exposed : ∀ t : Term, .none ∉ t.exposed
  | .probability _ trials _ | .expectation _ trials _ => by
      rw [Term.exposed, Finset.mem_singleton]
      exact trials.domain_ne_none.symm
  | .probabilityOverItems .. | .expectationOverItems .. => by
      rw [Term.exposed, Finset.mem_singleton]
      decide
  | .binary _ lhs _ rhs =>
      Finset.notMem_union.2 ⟨lhs.none_notMem_exposed, rhs.none_notMem_exposed⟩
  | .constant .. | .lookup .. | .identifier .. | .tuple .. | .sizeOf .. | .call .. =>
      Finset.notMem_empty _

theorem Clause.none_notMem_exposed : ∀ c : Clause, .none ∉ c.exposed
  | .forAll _ _ body | .letIn _ _ _ body | .not _ body => body.none_notMem_exposed
  | .membership .. => Finset.notMem_empty _
  | .approx .. => by
      rw [Clause.exposed]
      split <;> decide
  | .compare _ lhs _ rhs =>
      Finset.notMem_union.2 ⟨lhs.none_notMem_exposed, rhs.none_notMem_exposed⟩
  | .logic _ lhs _ rhs =>
      Finset.notMem_union.2 ⟨lhs.none_notMem_exposed, rhs.none_notMem_exposed⟩

/-- The domain of a term is the join of what it exposes. -/
theorem Term.domain_eq_sup : ∀ t : Term, t.domain = t.exposed.sup id
  | .probability .. | .expectation .. | .probabilityOverItems .. | .expectationOverItems .. =>
      Finset.sup_singleton.symm
  | .binary _ lhs _ rhs => by
      rw [Term.domain, Term.exposed, Finset.sup_union, Domain.sup_eq_merge, lhs.domain_eq_sup,
        rhs.domain_eq_sup]
  | .constant .. | .lookup .. | .identifier .. | .tuple .. | .sizeOf .. | .call .. => rfl

/-- Nothing is exposed exactly if there is no commitment. -/
theorem Term.domain_eq_none_iff (t : Term) : t.domain = .none ↔ t.exposed = ∅ := by
  rw [t.domain_eq_sup]
  exact Domain.sup_eq_none_iff t.none_notMem_exposed

/-- The domain of a clause is the join of what it exposes. -/
theorem Clause.domain_eq_sup : ∀ c : Clause, c.domain = c.exposed.sup id
  | .forAll _ _ body | .letIn _ _ _ body | .not _ body => body.domain_eq_sup
  | .membership .. => rfl
  | .approx _ lhs rhs => by
      simp only [Clause.domain, Clause.exposed, lhs.domain_eq_none_iff, rhs.domain_eq_none_iff]
      split <;> rw [Finset.sup_singleton, id]
  | .compare _ lhs _ rhs => by
      rw [Clause.domain, Clause.exposed, Finset.sup_union, Domain.sup_eq_merge, lhs.domain_eq_sup,
        rhs.domain_eq_sup]
  | .logic _ lhs _ rhs => by
      rw [Clause.domain, Clause.exposed, Finset.sup_union, Domain.sup_eq_merge, lhs.domain_eq_sup,
        rhs.domain_eq_sup]

mutual

/-- The clauses differ at most in the order, the grouping and the repetition of
the operands of connectives and in the sides of comparisons, at any depth. What
the places of the rebuilt nodes are does not matter, nor which operator takes the
place of a comparison that is turned around. -/
inductive Clause.Rearranged : Clause → Clause → Prop where
  | refl (c) : Clause.Rearranged c c
  | symm {c d} (h : Clause.Rearranged c d) : Clause.Rearranged d c
  | trans {c d e} (h : Clause.Rearranged c d) (h' : Clause.Rearranged d e) :
      Clause.Rearranged c e
  | swap {span span' lhs op rhs} :
      Clause.Rearranged (.logic span lhs op rhs) (.logic span' rhs op lhs)
  | regroup {span₁ span₂ span₃ span₄ a op b op' c} :
      Clause.Rearranged (.logic span₁ (.logic span₂ a op b) op' c)
        (.logic span₃ a op (.logic span₄ b op' c))
  | repeated {span c op} : Clause.Rearranged c (.logic span c op c)
  | turned {span span' lhs op op' rhs} :
      Clause.Rearranged (.compare span lhs op rhs) (.compare span' rhs op' lhs)
  | forAll {span ranges ranges' body body'} (hranges : Range.RearrangedAll ranges ranges')
      (hbody : Clause.Rearranged body body') :
      Clause.Rearranged (.forAll span ranges body) (.forAll span ranges' body')
  | letIn {span name value value' body body'} (hvalue : Term.Rearranged value value')
      (hbody : Clause.Rearranged body body') :
      Clause.Rearranged (.letIn span name value body) (.letIn span name value' body')
  | membership {span item item' collection collection'} (hitem : Term.Rearranged item item')
      (hcollection : Term.Rearranged collection collection') :
      Clause.Rearranged (.membership span item collection) (.membership span item' collection')
  | approx {span lhs lhs' rhs rhs'} (hlhs : Term.Rearranged lhs lhs')
      (hrhs : Term.Rearranged rhs rhs') :
      Clause.Rearranged (.approx span lhs rhs) (.approx span lhs' rhs')
  | compare {span lhs lhs' op rhs rhs'} (hlhs : Term.Rearranged lhs lhs')
      (hrhs : Term.Rearranged rhs rhs') :
      Clause.Rearranged (.compare span lhs op rhs) (.compare span lhs' op rhs')
  | logic {span lhs lhs' op rhs rhs'} (hlhs : Clause.Rearranged lhs lhs')
      (hrhs : Clause.Rearranged rhs rhs') :
      Clause.Rearranged (.logic span lhs op rhs) (.logic span lhs' op rhs')
  | not {span inner inner'} (hinner : Clause.Rearranged inner inner') :
      Clause.Rearranged (.not span inner) (.not span inner')

/-- The terms differ at most in the clauses of their statistics, and these are
rearranged. -/
inductive Term.Rearranged : Term → Term → Prop where
  | refl (t) : Term.Rearranged t t
  | probability {note trials body body'} (hbody : Clause.Rearranged body body') :
      Term.Rearranged (.probability note trials body) (.probability note trials body')
  | probabilityOverItems {note ranges ranges' body body'}
      (hranges : Range.RearrangedAll ranges ranges') (hbody : Clause.Rearranged body body') :
      Term.Rearranged (.probabilityOverItems note ranges body)
        (.probabilityOverItems note ranges' body')
  | expectation {note trials body body'} (hbody : Term.Rearranged body body') :
      Term.Rearranged (.expectation note trials body) (.expectation note trials body')
  | expectationOverItems {note ranges ranges' body body'}
      (hranges : Range.RearrangedAll ranges ranges') (hbody : Term.Rearranged body body') :
      Term.Rearranged (.expectationOverItems note ranges body)
        (.expectationOverItems note ranges' body')
  | lookup {note collection collection' key key'}
      (hcollection : Term.Rearranged collection collection') (hkey : Term.Rearranged key key') :
      Term.Rearranged (.lookup note collection key) (.lookup note collection' key')
  | tuple {note elements elements'} (helements : Term.RearrangedAll elements elements') :
      Term.Rearranged (.tuple note elements) (.tuple note elements')
  | binary {note lhs lhs' op rhs rhs'} (hlhs : Term.Rearranged lhs lhs')
      (hrhs : Term.Rearranged rhs rhs') :
      Term.Rearranged (.binary note lhs op rhs) (.binary note lhs' op rhs')
  | sizeOf {note collection collection'} (hcollection : Term.Rearranged collection collection') :
      Term.Rearranged (.sizeOf note collection) (.sizeOf note collection')
  | call {note name args args'} (hargs : Term.RearrangedAll args args') :
      Term.Rearranged (.call note name args) (.call note name args')

inductive Range.RearrangedAll : List Range → List Range → Prop where
  | nil : Range.RearrangedAll [] []
  | cons {span var collection collection' mode rest rest'}
      (hcollection : Term.Rearranged collection collection')
      (hrest : Range.RearrangedAll rest rest') :
      Range.RearrangedAll (.mk span var collection mode :: rest)
        (.mk span var collection' mode :: rest')

inductive Term.RearrangedAll : List Term → List Term → Prop where
  | nil : Term.RearrangedAll [] []
  | cons {t t' rest rest'} (ht : Term.Rearranged t t') (hrest : Term.RearrangedAll rest rest') :
      Term.RearrangedAll (t :: rest) (t' :: rest')

end

/-- Rearranging inside a term changes nothing about what the term exposes: the
bodies of statistics are ignored. -/
theorem Term.Rearranged.exposed_eq : ∀ {t t' : Term}, t.Rearranged t' → t.exposed = t'.exposed
  | _, _, .binary hlhs hrhs => by
      rw [Term.exposed, Term.exposed, hlhs.exposed_eq, hrhs.exposed_eq]
  | _, _, .refl _ | _, _, .probability _ | _, _, .probabilityOverItems _ _ | _, _, .expectation _
  | _, _, .expectationOverItems _ _ | _, _, .lookup _ _ | _, _, .tuple _ | _, _, .sizeOf _
  | _, _, .call _ => rfl

/-- Rearranging a clause changes nothing about what it exposes. -/
theorem Clause.Rearranged.exposed_eq : ∀ {c c' : Clause}, c.Rearranged c' → c.exposed = c'.exposed
  | _, _, .refl _ => rfl
  | _, _, .symm h => h.exposed_eq.symm
  | _, _, .trans h h' => h.exposed_eq.trans h'.exposed_eq
  | _, _, .swap => Finset.union_comm _ _
  | _, _, .regroup => Finset.union_assoc _ _ _
  | _, _, .repeated => (Finset.union_self _).symm
  | _, _, .turned => Finset.union_comm _ _
  | _, _, .forAll _ hbody | _, _, .letIn _ hbody | _, _, .not hbody => hbody.exposed_eq
  | _, _, .membership _ _ => rfl
  | _, _, .approx hlhs hrhs => by
      rw [Clause.exposed, Clause.exposed, hlhs.exposed_eq, hrhs.exposed_eq]
  | _, _, .compare hlhs hrhs => by
      rw [Clause.exposed, Clause.exposed, hlhs.exposed_eq, hrhs.exposed_eq]
  | _, _, .logic hlhs hrhs => by
      rw [Clause.exposed, Clause.exposed, hlhs.exposed_eq, hrhs.exposed_eq]

/-- The domain of a clause is told by the set of its exposed statistics: none at
all, a single one, or several or a conflict. So it is the same for all ways of
arranging the operands of connectives and comparisons in an accuracy clause. -/
theorem Clause.domain_tells_exposed (c : Clause) :
    (c.domain = .none ↔ c.exposed = ∅) ∧
    (∀ d ∈ [Domain.overInputs, .overRuns, .overItems], c.domain = d ↔ c.exposed = {d}) ∧
    (c.domain = .conflict ↔ 2 ≤ c.exposed.card ∨ .conflict ∈ c.exposed) ∧
    c.domain ≠ .performanceOnly ∧
    ∀ (spec : Specification) (c' : Clause), spec.accuracy = some c → c.Rearranged c' →
      ({ spec with accuracy := some c' } : Specification).domain = spec.domain := by
  have hnone := c.none_notMem_exposed
  refine ⟨?_, ?_, ?_, c.domain_ne_performanceOnly, ?_⟩
  · rw [c.domain_eq_sup]
    exact Domain.sup_eq_none_iff hnone
  · intro d hd
    rw [c.domain_eq_sup]
    exact Domain.sup_eq_iff hnone (by rintro rfl; simp at hd) (by rintro rfl; simp at hd)
  · rw [c.domain_eq_sup]
    exact Domain.sup_eq_conflict_iff hnone
  · intro spec c' haccuracy hrearranged
    have hdomain : c'.domain = c.domain := by
      rw [c'.domain_eq_sup, c.domain_eq_sup, hrearranged.exposed_eq]
    simp only [Specification.domain, haccuracy, hdomain]

/-- The share of the runs with a positive output, compared with a number. -/
def positiveRuns : Clause :=
  .compare .dummy
    (.probability {} .runs (.compare .dummy (.identifier {} "Output") .gt (.constant {} "0")))
    .ge (.constant {} "0.9")

/-- A share of runs and a mean over items: the first commits to runs, the second to
items, and the two together are in conflict, whichever comes first. -/
theorem Clause.domain_tells_exposed_runsAndItems :
    positiveRuns.domain = .overRuns ∧
    (Clause.logic .dummy positiveRuns .and (.compare .dummy
      (.expectationOverItems {} [.mk .dummy "x" (.identifier {} "Output") .elements]
        (.identifier {} "x")) .eq (.constant {} "1"))).domain = .conflict ∧
    ({ decls := [], accuracy := some (.logic .dummy
        (.not .dummy (.logic .dummy positiveRuns .or positiveRuns)) .and
        (.compare .dummy (.constant {} "1") .lt (.constant {} "2"))) } : Specification).domain =
      ({ decls := [], accuracy := some (.logic .dummy
          (.compare .dummy (.constant {} "2") .gt (.constant {} "1")) .and
          (.not .dummy positiveRuns)) } : Specification).domain := by
  refine ⟨?_, ?_, ?_⟩
  · exact ((domain_tells_exposed positiveRuns).2.1 .overRuns (by decide)).2 rfl
  · exact (domain_tells_exposed _).2.2.1.2 (.inl (by decide))
  · refine (domain_tells_exposed _).2.2.2.2 { decls := [], accuracy := some _ } _ rfl ?_
    exact .trans .swap (.logic (.not .repeated) .turned)

end StatContract
