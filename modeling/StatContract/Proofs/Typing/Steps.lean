import StatContract.Proofs.Typing.Analysis

/-!
# The checks of an analysis

The analysis checks a tree in a fixed order, its evaluation order: accuracy before time before
space, parts before the term they belong to, from left to right, and the ranges of a quantifier
before its body. Besides the types of terms it checks the left side of an approximate
comparison, before anything in that comparison, and the collection of a range, right after the
type of the collection. `Specification.steps` lists these checks, each with the binders around
its place.

By the rules a check passes or fails in the environment that the binders lead to
(`Step.Passes`, `Step.FailsWith`), which says nothing about the analysis. `Reports Γ steps o`
says how a list of checks is worked off: some pass and leave their types behind, then there is a
first one that fails with the defect `o`, and from there on all slots are empty.
-/

namespace StatContract

/-- What gives a name its type on the way to a place: a `let` or a range. -/
inductive Binder where
  | value (name : String) (value : Term)
  | range (var : String) (collection : Term) (mode : RangeMode)

/-- The binders, the innermost first, lead from one environment to another. -/
inductive Binder.Extend (Γ : LexicalEnv) : List Binder → LexicalEnv → Prop where
  | nil : Extend Γ [] Γ
  | value {binders Δ name value τ} (hΔ : Extend Γ binders Δ) (hvalue : Term.HasType Δ value τ) :
      Extend Γ (.value name value :: binders) ((name, τ) :: Δ)
  | range {binders Δ var collection mode τ} (hΔ : Extend Γ binders Δ)
      (hcollection : Term.HasType Δ collection (.sequence τ)) :
      Extend Γ (.range var collection mode :: binders) ((var, mode.varType τ) :: Δ)

/-- What the analysis checks. -/
inductive Check where
  /-- The term has a type, which is then recorded. -/
  | type (t : Term)
  /-- The left side of an approximate comparison is the output. -/
  | output (lhs : Term)
  /-- The collection of a range is a list. -/
  | list (collection : Term)

/-- A check at a place in a tree. -/
structure Step where
  binders : List Binder
  check : Check

/-- The binders at the body of ranges. -/
def Range.addBinders (binders : List Binder) : List Range → List Binder
  | [] => binders
  | .mk _ var collection mode :: rest =>
    Range.addBinders (.range var collection mode :: binders) rest

mutual

/-- The checks in a clause, in evaluation order. -/
def Clause.steps (binders : List Binder) : Clause → List Step
  | .forAll _ ranges body =>
    Range.stepsOfAll binders ranges ++ body.steps (Range.addBinders binders ranges)
  | .letIn _ name value body => value.steps binders ++ body.steps (.value name value :: binders)
  | .membership _ item collection => item.steps binders ++ collection.steps binders
  | .approx _ lhs rhs => ⟨binders, .output lhs⟩ :: (lhs.steps binders ++ rhs.steps binders)
  | .compare _ lhs _ rhs => lhs.steps binders ++ rhs.steps binders
  | .logic _ lhs _ rhs => lhs.steps binders ++ rhs.steps binders
  | .not _ inner => inner.steps binders

/-- The checks in a term, in evaluation order. -/
def Term.steps (binders : List Binder) : Term → List Step
  | t@(.constant ..) | t@(.identifier ..) => [⟨binders, .type t⟩]
  | t@(.probability _ _ body) => body.steps binders ++ [⟨binders, .type t⟩]
  | t@(.probabilityOverItems _ ranges body) =>
    Range.stepsOfAll binders ranges ++ body.steps (Range.addBinders binders ranges)
      ++ [⟨binders, .type t⟩]
  | t@(.expectation _ _ body) => body.steps binders ++ [⟨binders, .type t⟩]
  | t@(.expectationOverItems _ ranges body) =>
    Range.stepsOfAll binders ranges ++ body.steps (Range.addBinders binders ranges)
      ++ [⟨binders, .type t⟩]
  | t@(.lookup _ collection key) =>
    collection.steps binders ++ key.steps binders ++ [⟨binders, .type t⟩]
  | t@(.tuple _ elements) => Term.stepsOfAll binders elements ++ [⟨binders, .type t⟩]
  | t@(.binary _ lhs _ rhs) => lhs.steps binders ++ rhs.steps binders ++ [⟨binders, .type t⟩]
  | t@(.sizeOf _ collection) => collection.steps binders ++ [⟨binders, .type t⟩]
  | t@(.call _ _ args) => Term.stepsOfAll binders args ++ [⟨binders, .type t⟩]

/-- The checks in ranges, in evaluation order. -/
def Range.stepsOfAll (binders : List Binder) : List Range → List Step
  | [] => []
  | .mk _ var collection mode :: rest =>
    collection.steps binders ++ ⟨binders, .list collection⟩ ::
      Range.stepsOfAll (.range var collection mode :: binders) rest

/-- The checks in terms, in evaluation order. -/
def Term.stepsOfAll (binders : List Binder) : List Term → List Step
  | [] => []
  | t :: rest => t.steps binders ++ Term.stepsOfAll binders rest

end

/-- The checks in a specification, in evaluation order. -/
def Specification.steps (spec : Specification) : List Step :=
  (spec.accuracy.map (Clause.steps [])).getD [] ++ (spec.time.map (Term.steps [])).getD []
    ++ (spec.space.map (Term.steps [])).getD []

/-! ### Every term is checked once -/

/-- The term whose type is checked. -/
def Step.term? (s : Step) : Option Term :=
  match s.check with
  | .type t => some t
  | .output _ | .list _ => none

def Node.term? : Node → Option Term
  | .term t => some t
  | .clause _ | .range _ => none

/-- The types checked are those of the terms among the nodes, each of them once. -/
def Covers (steps : List Step) (nodes : List Node) : Prop :=
  (steps.filterMap Step.term?).Perm (nodes.filterMap Node.term?)

namespace Covers

variable {xs ys : List Step} {ms ns : List Node}

theorem append (h : Covers xs ms) (h' : Covers ys ns) : Covers (xs ++ ys) (ms ++ ns) := by
  rw [Covers, List.filterMap_append, List.filterMap_append]
  exact List.Perm.append h h'

/-- A term is a node before its parts and is checked after them. -/
theorem own (h : Covers xs ns) (binders : List Binder) (t : Term) :
    Covers (xs ++ [⟨binders, .type t⟩]) (.term t :: ns) := by
  rw [Covers, List.filterMap_append]
  exact (List.perm_append_singleton t _).trans (h.cons t)

theorem clause (h : Covers xs ns) (c : Clause) : Covers xs (.clause c :: ns) := h

end Covers

mutual

theorem Clause.covers : ∀ (c : Clause) (binders : List Binder), Covers (c.steps binders) c.nodes
  | .forAll _ ranges body, binders => by
      rw [Clause.steps, Clause.nodes]
      exact ((Range.covers ranges binders).append (body.covers _)).clause _
  | .letIn _ _ value body, binders => by
      rw [Clause.steps, Clause.nodes]
      exact ((value.covers binders).append (body.covers _)).clause _
  | .membership _ item collection, binders => by
      rw [Clause.steps, Clause.nodes]
      exact ((item.covers binders).append (collection.covers binders)).clause _
  | .approx _ lhs rhs, binders => by
      rw [Clause.steps, Clause.nodes]
      exact ((lhs.covers binders).append (rhs.covers binders)).clause _
  | .compare _ lhs _ rhs, binders => by
      rw [Clause.steps, Clause.nodes]
      exact ((lhs.covers binders).append (rhs.covers binders)).clause _
  | .logic _ lhs _ rhs, binders => by
      rw [Clause.steps, Clause.nodes]
      exact ((lhs.covers binders).append (rhs.covers binders)).clause _
  | .not _ inner, binders => by
      rw [Clause.steps, Clause.nodes]
      exact (inner.covers binders).clause _

theorem Term.covers : ∀ (t : Term) (binders : List Binder), Covers (t.steps binders) t.nodes
  | .constant .., binders => by
      rw [Term.steps, Term.nodes]
      exact .refl _
  | .identifier .., binders => by
      rw [Term.steps, Term.nodes]
      exact .refl _
  | .probability _ _ body, binders => by
      rw [Term.steps, Term.nodes]
      exact (body.covers binders).own binders _
  | .probabilityOverItems _ ranges body, binders => by
      rw [Term.steps, Term.nodes]
      exact ((Range.covers ranges binders).append (body.covers _)).own binders _
  | .expectation _ _ body, binders => by
      rw [Term.steps, Term.nodes]
      exact (body.covers binders).own binders _
  | .expectationOverItems _ ranges body, binders => by
      rw [Term.steps, Term.nodes]
      exact ((Range.covers ranges binders).append (body.covers _)).own binders _
  | .lookup _ collection key, binders => by
      rw [Term.steps, Term.nodes]
      exact ((collection.covers binders).append (key.covers binders)).own binders _
  | .tuple _ elements, binders => by
      rw [Term.steps, Term.nodes]
      exact (Term.coversOfAll elements binders).own binders _
  | .binary _ lhs _ rhs, binders => by
      rw [Term.steps, Term.nodes]
      exact ((lhs.covers binders).append (rhs.covers binders)).own binders _
  | .sizeOf _ collection, binders => by
      rw [Term.steps, Term.nodes]
      exact (collection.covers binders).own binders _
  | .call _ _ args, binders => by
      rw [Term.steps, Term.nodes]
      exact (Term.coversOfAll args binders).own binders _

theorem Range.covers : ∀ (ranges : List Range) (binders : List Binder),
    Covers (Range.stepsOfAll binders ranges) (Range.nodesOfAll ranges)
  | [], binders => by
      rw [Range.stepsOfAll, Range.nodesOfAll]
      exact .refl _
  | .mk _ _ collection _ :: rest, binders => by
      rw [Range.stepsOfAll, Range.nodesOfAll]
      exact (collection.covers binders).append (Range.covers rest _)

theorem Term.coversOfAll : ∀ (ts : List Term) (binders : List Binder),
    Covers (Term.stepsOfAll binders ts) (Term.nodesOfAll ts)
  | [], binders => by
      rw [Term.stepsOfAll, Term.nodesOfAll]
      exact .refl _
  | t :: rest, binders => by
      rw [Term.stepsOfAll, Term.nodesOfAll]
      exact (t.covers binders).append (Term.coversOfAll rest binders)

end

namespace Specification

/-- The terms of a specification, in the order in which their types are checked. -/
def evaluationOrder (spec : Specification) : List Term := spec.steps.filterMap Step.term?

theorem covers_part {α : Type} {steps : α → List Step} {nodes : α → List Node}
    (h : ∀ a, Covers (steps a) (nodes a)) (part : Option α) :
    Covers ((part.map steps).getD []) ((part.map nodes).getD []) := by
  cases part with
  | none => exact .refl _
  | some a => exact h a

theorem covers (spec : Specification) : Covers spec.steps spec.nodes :=
  ((covers_part (fun c => c.covers []) spec.accuracy).append
    (covers_part (fun t => t.covers []) spec.time)).append
    (covers_part (fun t => t.covers []) spec.space)

/-- The evaluation order has every term of a specification once. -/
theorem evaluationOrder_perm (spec : Specification) : spec.evaluationOrder.Perm spec.terms := by
  have hterms : spec.terms = spec.nodes.filterMap Node.term? := by
    rw [terms]
    congr
    funext n
    cases n <;> rfl
  rw [hterms]
  exact spec.covers

end Specification

/-! ### Checks that pass and checks that fail -/

/-- The check passes by the rules. -/
inductive Step.Passes (Γ : LexicalEnv) : Step → Prop where
  | type {binders Δ t τ} (hΔ : Binder.Extend Γ binders Δ) (ht : Term.HasType Δ t τ) :
      Step.Passes Γ ⟨binders, .type t⟩
  | output {binders note} : Step.Passes Γ ⟨binders, .output (.identifier note outputName)⟩
  | list {binders Δ collection τ} (hΔ : Binder.Extend Γ binders Δ)
      (hcollection : Term.HasType Δ collection (.sequence τ)) :
      Step.Passes Γ ⟨binders, .list collection⟩

/-- The check fails by the rules, with the defect. -/
inductive Step.FailsWith (Γ : LexicalEnv) : Step → SpecError → Prop where
  /-- A lookup in something that is neither a list nor a map. -/
  | notIndexable {binders Δ note collection key τ κ} (hΔ : Binder.Extend Γ binders Δ)
      (hcollection : Term.HasType Δ collection τ) (hkey : Term.HasType Δ key κ)
      (hτ : τ = .scalar ∨ τ = .matrix) :
      Step.FailsWith Γ ⟨binders, .type (.lookup note collection key)⟩
        (.notIndexable collection.text τ collection.span)
  /-- Arithmetic between two types. -/
  | operandMismatch {binders Δ note lhs op rhs τ σ} (hΔ : Binder.Extend Γ binders Δ)
      (hlhs : Term.HasType Δ lhs τ) (hrhs : Term.HasType Δ rhs σ) (hne : τ ≠ σ) :
      Step.FailsWith Γ ⟨binders, .type (.binary note lhs op rhs)⟩
        (.operandMismatch (lhs.text ++ " " ++ op.symbol ++ " " ++ rhs.text) τ σ
          (lhs.span.merge rhs.span))
  | approxTarget {binders lhs} (hlhs : lhs.isIdentifier outputName = false) :
      Step.FailsWith Γ ⟨binders, .output lhs⟩ (.approxTarget lhs.text lhs.span)
  | notIterable {binders Δ collection τ} (hΔ : Binder.Extend Γ binders Δ)
      (hcollection : Term.HasType Δ collection τ) (hτ : ∀ σ, τ ≠ .sequence σ) :
      Step.FailsWith Γ ⟨binders, .list collection⟩
        (.notIterable collection.text τ collection.span)

/-- The term whose type is checked, if any, records the type that the rules give it at its
place. -/
def Step.Records (Γ : LexicalEnv) (s : Step) : Prop :=
  ∀ t, s.check = .type t →
    ∃ Δ τ, Binder.Extend Γ s.binders Δ ∧ Term.HasType Δ t τ ∧ t.ty = some τ

/-- The term whose type is checked, if any, records no type. -/
def Step.IsBlank (s : Step) : Prop := ∀ t, s.check = .type t → t.ty = none

/-- The node, if it is a term, records no type. -/
def Node.IsBlank (n : Node) : Prop := ∀ t, n = .term t → t.ty = none

/-- The binders lead to one environment only. -/
theorem Binder.Extend.unique {Γ Δ Δ' : LexicalEnv} {binders : List Binder}
    (h : Extend Γ binders Δ) (h' : Extend Γ binders Δ') : Δ = Δ' := by
  induction h generalizing Δ' with
  | nil =>
      cases h'
      rfl
  | value hΔ hvalue ih =>
      cases h' with
      | value hΔ' hvalue' =>
          obtain rfl := ih hΔ'
          rw [hvalue.unique hvalue']
  | range hΔ hcollection ih =>
      cases h' with
      | range hΔ' hcollection' =>
          obtain rfl := ih hΔ'
          cases hcollection.unique hcollection'
          rfl

/-- A check that fails does not pass. -/
theorem Step.FailsWith.not_passes {Γ : LexicalEnv} {s : Step} {e : SpecError}
    (h : s.FailsWith Γ e) : ¬ s.Passes Γ := by
  intro hpasses
  cases h with
  | notIndexable hΔ hcollection hkey hτ =>
      cases hpasses with
      | type hΔ' ht =>
          obtain rfl := hΔ.unique hΔ'
          cases ht with
          | element hcollection' =>
              cases hcollection.unique hcollection'
              simp at hτ
          | entry hcollection' =>
              cases hcollection.unique hcollection'
              simp at hτ
  | operandMismatch hΔ hlhs hrhs hne =>
      cases hpasses with
      | type hΔ' ht =>
          obtain rfl := hΔ.unique hΔ'
          cases ht with
          | binary hlhs' hrhs' =>
              exact hne ((hlhs.unique hlhs').trans (hrhs'.unique hrhs))
  | approxTarget hlhs =>
      cases hpasses with
      | output => simp [Term.isIdentifier, Term.asIdentifier] at hlhs
  | notIterable hΔ hcollection hτ =>
      cases hpasses with
      | list hΔ' hcollection' =>
          obtain rfl := hΔ.unique hΔ'
          exact hτ _ (hcollection.unique hcollection')

theorem Covers.isBlank {steps : List Step} {nodes : List Node} (h : Covers steps nodes)
    (hnodes : ∀ n ∈ nodes, n.IsBlank) : ∀ s ∈ steps, s.IsBlank := by
  intro s hs t ht
  have hmem : t ∈ steps.filterMap Step.term? :=
    List.mem_filterMap.2 ⟨s, hs, by rw [Step.term?, ht]⟩
  obtain ⟨n, hn, heq⟩ := List.mem_filterMap.1 (List.Perm.mem_iff h |>.1 hmem)
  cases n with
  | term u =>
      cases heq
      exact hnodes _ hn t rfl
  | clause c => cases heq
  | range r => cases heq

/-! ### Working off a list of checks -/

/-- Working off the checks, the first that fails reports the defect: those before it pass and
their types are recorded, and nothing is recorded from it on. -/
inductive Reports (Γ : LexicalEnv) : List Step → Option SpecError → Prop where
  | nil : Reports Γ [] none
  | pass {s rest o} (hpasses : s.Passes Γ) (hrecords : s.Records Γ) (hrest : Reports Γ rest o) :
      Reports Γ (s :: rest) o
  | fail {s rest e} (hfails : s.FailsWith Γ e) (hblank : ∀ p ∈ s :: rest, p.IsBlank) :
      Reports Γ (s :: rest) (some e)

namespace Reports

variable {Γ : LexicalEnv} {xs ys : List Step} {o : Option SpecError} {e : SpecError}

theorem append (h : Reports Γ xs none) (h' : Reports Γ ys o) : Reports Γ (xs ++ ys) o := by
  generalize hnone : (none : Option SpecError) = o' at h
  induction h with
  | nil => exact h'
  | pass hpasses hrecords _ ih => exact .pass hpasses hrecords (ih hnone)
  | fail => cases hnone

/-- Checks after one that fails are not reached. -/
theorem stop (h : Reports Γ xs (some e)) (hblank : ∀ p ∈ ys, p.IsBlank) :
    Reports Γ (xs ++ ys) (some e) := by
  generalize hsome : some e = o' at h ⊢
  induction h with
  | nil => cases hsome
  | pass hpasses hrecords _ ih => exact .pass hpasses hrecords (ih hsome)
  | fail hfails hrest => exact .fail hfails (List.forall_mem_append.2 ⟨hrest, hblank⟩)

theorem exists_first (h : Reports Γ xs (some e)) :
    ∃ before s after, xs = before ++ s :: after ∧
      (∀ p ∈ before, p.Passes Γ ∧ p.Records Γ) ∧ s.FailsWith Γ e ∧
      ∀ p ∈ s :: after, p.IsBlank := by
  generalize hsome : some e = o' at h
  induction h with
  | nil => cases hsome
  | @pass s rest _ hpasses hrecords _ ih =>
      obtain ⟨before, s', after, rfl, hbefore, hs', hafter⟩ := ih hsome
      refine ⟨s :: before, s', after, rfl, ?_, hs', hafter⟩
      rw [List.forall_mem_cons]
      exact ⟨⟨hpasses, hrecords⟩, hbefore⟩
  | @fail s rest _ hfails hblank =>
      cases hsome
      exact ⟨[], s, rest, rfl, List.forall_mem_nil _, hfails, hblank⟩

/-- A term that is analysed after its parts is the last to get its type. -/
theorem own {Δ : LexicalEnv} {binders : List Binder} {t : Term} {τ : ValueType}
    (h : Reports Γ xs none) (hΔ : Binder.Extend Γ binders Δ) (ht : t.Annotated Δ τ) :
    Reports Γ (xs ++ [⟨binders, .type t⟩]) none := by
  refine h.append (.pass (.type hΔ ht.hasType) ?_ .nil)
  rintro _ ⟨⟩
  exact ⟨Δ, τ, hΔ, ht.hasType, ht.ty_eq⟩

end Reports

/-- The type of a term is not recorded when a part of it fails. -/
theorem Step.isBlank_type {binders : List Binder} {t : Term} (h : t.ty = none) :
    ∀ p ∈ [Step.mk binders (.type t)], p.IsBlank := by
  rw [List.forall_mem_singleton]
  rintro _ ⟨⟩
  exact h

end StatContract
