import StatContract.Proofs.Typing.Progress

/-!
# Sites in a specification

A site is a node of a tree together with what the rules of the language need to know about where
it stands: the binders around it, and whether it is the left side of a comparison. The sites of a
tree are its nodes, in the order in which they are written.

The types of the names at a site follow from its binders, and not from the types that are recorded
in the tree. So two trees that differ in their slots only have the same sites up to slots
(`Specification.sites_eraseTypes`), and each check of the analysis is about one of them.
-/

namespace StatContract

/-- A node and where it stands. -/
structure Site where
  /-- The binders around it, the innermost first. -/
  binders : List Binder
  /-- Whether it is the left side of a comparison. -/
  isCompared : Bool
  node : Node

mutual

/-- The sites in a clause. -/
def Clause.sites (binders : List Binder) : Clause → List Site
  | c@(.forAll _ ranges body) =>
    ⟨binders, false, .clause c⟩ ::
      (Range.sitesOfAll binders ranges ++ body.sites (Range.addBinders binders ranges))
  | c@(.letIn _ name value body) =>
    ⟨binders, false, .clause c⟩ ::
      (value.sites binders false ++ body.sites (.value name value :: binders))
  | c@(.membership _ item collection) =>
    ⟨binders, false, .clause c⟩ :: (item.sites binders false ++ collection.sites binders false)
  | c@(.approx _ lhs rhs) =>
    ⟨binders, false, .clause c⟩ :: (lhs.sites binders false ++ rhs.sites binders false)
  | c@(.compare _ lhs _ rhs) =>
    ⟨binders, false, .clause c⟩ :: (lhs.sites binders true ++ rhs.sites binders false)
  | c@(.logic _ lhs _ rhs) =>
    ⟨binders, false, .clause c⟩ :: (lhs.sites binders ++ rhs.sites binders)
  | c@(.not _ inner) => ⟨binders, false, .clause c⟩ :: inner.sites binders

/-- The sites in a term, which may be the left side of a comparison. -/
def Term.sites (binders : List Binder) (isCompared : Bool) : Term → List Site
  | t@(.constant ..) | t@(.identifier ..) => [⟨binders, isCompared, .term t⟩]
  | t@(.probability _ _ body) => ⟨binders, isCompared, .term t⟩ :: body.sites binders
  | t@(.probabilityOverItems _ ranges body) =>
    ⟨binders, isCompared, .term t⟩ ::
      (Range.sitesOfAll binders ranges ++ body.sites (Range.addBinders binders ranges))
  | t@(.expectation _ _ body) => ⟨binders, isCompared, .term t⟩ :: body.sites binders false
  | t@(.expectationOverItems _ ranges body) =>
    ⟨binders, isCompared, .term t⟩ ::
      (Range.sitesOfAll binders ranges ++ body.sites (Range.addBinders binders ranges) false)
  | t@(.lookup _ collection key) =>
    ⟨binders, isCompared, .term t⟩ :: (collection.sites binders false ++ key.sites binders false)
  | t@(.tuple _ elements) =>
    ⟨binders, isCompared, .term t⟩ :: Term.sitesOfAll binders elements
  | t@(.binary _ lhs _ rhs) =>
    ⟨binders, isCompared, .term t⟩ :: (lhs.sites binders false ++ rhs.sites binders false)
  | t@(.sizeOf _ collection) => ⟨binders, isCompared, .term t⟩ :: collection.sites binders false
  | t@(.call _ _ args) => ⟨binders, isCompared, .term t⟩ :: Term.sitesOfAll binders args

/-- The sites in ranges. -/
def Range.sitesOfAll (binders : List Binder) : List Range → List Site
  | [] => []
  | r@(.mk _ var collection mode) :: rest =>
    ⟨binders, false, .range r⟩ ::
      (collection.sites binders false ++
        Range.sitesOfAll (.range var collection mode :: binders) rest)

/-- The sites in terms, none of which is compared. -/
def Term.sitesOfAll (binders : List Binder) : List Term → List Site
  | [] => []
  | t :: rest => t.sites binders false ++ Term.sitesOfAll binders rest

end

namespace Specification

/-- The sites in the costs of a specification. -/
def costSites (spec : Specification) : List Site :=
  (spec.time.map (Term.sites [] false)).getD [] ++ (spec.space.map (Term.sites [] false)).getD []

/-- The sites in a specification. -/
def sites (spec : Specification) : List Site :=
  (spec.accuracy.map (Clause.sites [])).getD [] ++ spec.costSites

end Specification

/-! ### Every node has its site -/

mutual

theorem Clause.map_node_sites : ∀ (c : Clause) (binders : List Binder),
    (c.sites binders).map Site.node = c.nodes
  | .forAll _ ranges body, binders => by
      rw [Clause.sites, Clause.nodes, List.map_cons, List.map_append,
        Range.map_node_sites ranges binders, body.map_node_sites]
  | .letIn _ _ value body, binders => by
      rw [Clause.sites, Clause.nodes, List.map_cons, List.map_append, value.map_node_sites,
        body.map_node_sites]
  | .membership _ item collection, binders => by
      rw [Clause.sites, Clause.nodes, List.map_cons, List.map_append, item.map_node_sites,
        collection.map_node_sites]
  | .approx _ lhs rhs, binders => by
      rw [Clause.sites, Clause.nodes, List.map_cons, List.map_append, lhs.map_node_sites,
        rhs.map_node_sites]
  | .compare _ lhs _ rhs, binders => by
      rw [Clause.sites, Clause.nodes, List.map_cons, List.map_append, lhs.map_node_sites,
        rhs.map_node_sites]
  | .logic _ lhs _ rhs, binders => by
      rw [Clause.sites, Clause.nodes, List.map_cons, List.map_append, lhs.map_node_sites,
        rhs.map_node_sites]
  | .not _ inner, binders => by
      rw [Clause.sites, Clause.nodes, List.map_cons, inner.map_node_sites]

theorem Term.map_node_sites : ∀ (t : Term) (binders : List Binder) (isCompared : Bool),
    (t.sites binders isCompared).map Site.node = t.nodes
  | .constant .., binders, isCompared => by rw [Term.sites, Term.nodes]; rfl
  | .identifier .., binders, isCompared => by rw [Term.sites, Term.nodes]; rfl
  | .probability _ _ body, binders, isCompared => by
      rw [Term.sites, Term.nodes, List.map_cons, body.map_node_sites]
  | .probabilityOverItems _ ranges body, binders, isCompared => by
      rw [Term.sites, Term.nodes, List.map_cons, List.map_append,
        Range.map_node_sites ranges binders, body.map_node_sites]
  | .expectation _ _ body, binders, isCompared => by
      rw [Term.sites, Term.nodes, List.map_cons, body.map_node_sites]
  | .expectationOverItems _ ranges body, binders, isCompared => by
      rw [Term.sites, Term.nodes, List.map_cons, List.map_append,
        Range.map_node_sites ranges binders, body.map_node_sites]
  | .lookup _ collection key, binders, isCompared => by
      rw [Term.sites, Term.nodes, List.map_cons, List.map_append, collection.map_node_sites,
        key.map_node_sites]
  | .tuple _ elements, binders, isCompared => by
      rw [Term.sites, Term.nodes, List.map_cons, Term.map_node_sitesOfAll elements binders]
  | .binary _ lhs _ rhs, binders, isCompared => by
      rw [Term.sites, Term.nodes, List.map_cons, List.map_append, lhs.map_node_sites,
        rhs.map_node_sites]
  | .sizeOf _ collection, binders, isCompared => by
      rw [Term.sites, Term.nodes, List.map_cons, collection.map_node_sites]
  | .call _ _ args, binders, isCompared => by
      rw [Term.sites, Term.nodes, List.map_cons, Term.map_node_sitesOfAll args binders]

theorem Range.map_node_sites : ∀ (ranges : List Range) (binders : List Binder),
    (Range.sitesOfAll binders ranges).map Site.node = Range.nodesOfAll ranges
  | [], binders => by rw [Range.sitesOfAll, Range.nodesOfAll, List.map_nil]
  | .mk _ _ collection _ :: rest, binders => by
      rw [Range.sitesOfAll, Range.nodesOfAll, List.map_cons, List.map_append,
        collection.map_node_sites, Range.map_node_sites rest]

theorem Term.map_node_sitesOfAll : ∀ (ts : List Term) (binders : List Binder),
    (Term.sitesOfAll binders ts).map Site.node = Term.nodesOfAll ts
  | [], binders => by rw [Term.sitesOfAll, Term.nodesOfAll, List.map_nil]
  | t :: rest, binders => by
      rw [Term.sitesOfAll, Term.nodesOfAll, List.map_append, t.map_node_sites,
        Term.map_node_sitesOfAll rest]

end

/-- The sites of a specification are its nodes. -/
theorem Specification.map_node_sites (spec : Specification) :
    spec.sites.map Site.node = spec.nodes := by
  have hpart {α : Type} {sites : α → List Site} {nodes : α → List Node}
      (h : ∀ a, (sites a).map Site.node = nodes a) (part : Option α) :
      ((part.map sites).getD []).map Site.node = (part.map nodes).getD [] := by
    cases part with
    | none => rfl
    | some a => exact h a
  rw [sites, costSites, nodes, List.map_append, List.map_append, List.append_assoc,
    hpart fun c => c.map_node_sites [], hpart fun t => t.map_node_sites [] false,
    hpart fun t => t.map_node_sites [] false]

/-! ### Sites without types -/

/-- The binder with all type slots emptied. -/
def Binder.eraseTypes : Binder → Binder
  | .value name t => .value name t.eraseTypes
  | .range var collection mode => .range var collection.eraseTypes mode

/-- The range with all type slots emptied. -/
def Range.eraseTypes : Range → Range
  | .mk span var collection mode => .mk span var collection.eraseTypes mode

/-- The node with all type slots emptied. -/
def Node.eraseTypes : Node → Node
  | .clause c => .clause c.eraseTypes
  | .term t => .term t.eraseTypes
  | .range r => .range r.eraseTypes

/-- The site with all type slots emptied. -/
def Site.eraseTypes (p : Site) : Site :=
  ⟨p.binders.map Binder.eraseTypes, p.isCompared, p.node.eraseTypes⟩

theorem Range.addBinders_eraseTypes (ranges : List Range) (binders : List Binder) :
    Range.addBinders (binders.map Binder.eraseTypes) (Range.eraseTypesOfAll ranges) =
      (Range.addBinders binders ranges).map Binder.eraseTypes := by
  induction ranges generalizing binders with
  | nil => rw [Range.eraseTypesOfAll, Range.addBinders, Range.addBinders]
  | cons range rest ih =>
      obtain ⟨_, var, collection, mode⟩ := range
      rw [Range.eraseTypesOfAll, Range.addBinders, Range.addBinders]
      exact ih (.range var collection mode :: binders)

mutual

theorem Clause.sites_eraseTypes : ∀ (c : Clause) (binders : List Binder),
    c.eraseTypes.sites (binders.map Binder.eraseTypes) =
      (c.sites binders).map Site.eraseTypes
  | .forAll _ ranges body, binders => by
      simp only [Clause.eraseTypes, Clause.sites, List.map_cons, List.map_append,
        Range.sites_eraseTypesOfAll ranges, Range.addBinders_eraseTypes, body.sites_eraseTypes]
      rfl
  | .letIn _ name value body, binders => by
      have hbody := body.sites_eraseTypes (.value name value :: binders)
      rw [List.map_cons, Binder.eraseTypes] at hbody
      simp only [Clause.eraseTypes, Clause.sites, List.map_cons, List.map_append,
        value.sites_eraseTypes, hbody]
      rfl
  | .membership _ item collection, binders => by
      simp only [Clause.eraseTypes, Clause.sites, List.map_cons, List.map_append,
        item.sites_eraseTypes, collection.sites_eraseTypes]
      rfl
  | .approx _ lhs rhs, binders => by
      simp only [Clause.eraseTypes, Clause.sites, List.map_cons, List.map_append,
        lhs.sites_eraseTypes, rhs.sites_eraseTypes]
      rfl
  | .compare _ lhs _ rhs, binders => by
      simp only [Clause.eraseTypes, Clause.sites, List.map_cons, List.map_append,
        lhs.sites_eraseTypes, rhs.sites_eraseTypes]
      rfl
  | .logic _ lhs _ rhs, binders => by
      simp only [Clause.eraseTypes, Clause.sites, List.map_cons, List.map_append,
        lhs.sites_eraseTypes, rhs.sites_eraseTypes]
      rfl
  | .not _ inner, binders => by
      simp only [Clause.eraseTypes, Clause.sites, List.map_cons, inner.sites_eraseTypes]
      rfl

theorem Term.sites_eraseTypes : ∀ (t : Term) (binders : List Binder) (isCompared : Bool),
    t.eraseTypes.sites (binders.map Binder.eraseTypes) isCompared =
      (t.sites binders isCompared).map Site.eraseTypes
  | .constant .., binders, isCompared => by
      simp only [Term.eraseTypes, Term.sites, List.map_cons, List.map_nil]
      rfl
  | .identifier .., binders, isCompared => by
      simp only [Term.eraseTypes, Term.sites, List.map_cons, List.map_nil]
      rfl
  | .probability _ _ body, binders, isCompared => by
      simp only [Term.eraseTypes, Term.sites, List.map_cons, body.sites_eraseTypes]
      rfl
  | .probabilityOverItems _ ranges body, binders, isCompared => by
      simp only [Term.eraseTypes, Term.sites, List.map_cons, List.map_append,
        Range.sites_eraseTypesOfAll ranges, Range.addBinders_eraseTypes, body.sites_eraseTypes]
      rfl
  | .expectation _ _ body, binders, isCompared => by
      simp only [Term.eraseTypes, Term.sites, List.map_cons, body.sites_eraseTypes]
      rfl
  | .expectationOverItems _ ranges body, binders, isCompared => by
      simp only [Term.eraseTypes, Term.sites, List.map_cons, List.map_append,
        Range.sites_eraseTypesOfAll ranges, Range.addBinders_eraseTypes, body.sites_eraseTypes]
      rfl
  | .lookup _ collection key, binders, isCompared => by
      simp only [Term.eraseTypes, Term.sites, List.map_cons, List.map_append,
        collection.sites_eraseTypes, key.sites_eraseTypes]
      rfl
  | .tuple _ elements, binders, isCompared => by
      simp only [Term.eraseTypes, Term.sites, List.map_cons, Term.sites_eraseTypesOfAll elements]
      rfl
  | .binary _ lhs _ rhs, binders, isCompared => by
      simp only [Term.eraseTypes, Term.sites, List.map_cons, List.map_append,
        lhs.sites_eraseTypes, rhs.sites_eraseTypes]
      rfl
  | .sizeOf _ collection, binders, isCompared => by
      simp only [Term.eraseTypes, Term.sites, List.map_cons, collection.sites_eraseTypes]
      rfl
  | .call _ _ args, binders, isCompared => by
      simp only [Term.eraseTypes, Term.sites, List.map_cons, Term.sites_eraseTypesOfAll args]
      rfl

theorem Range.sites_eraseTypesOfAll : ∀ (ranges : List Range) (binders : List Binder),
    Range.sitesOfAll (binders.map Binder.eraseTypes) (Range.eraseTypesOfAll ranges) =
      (Range.sitesOfAll binders ranges).map Site.eraseTypes
  | [], binders => by simp only [Range.eraseTypesOfAll, Range.sitesOfAll, List.map_nil]
  | .mk _ var collection mode :: rest, binders => by
      have hrest := Range.sites_eraseTypesOfAll rest (.range var collection mode :: binders)
      rw [List.map_cons, Binder.eraseTypes] at hrest
      simp only [Range.eraseTypesOfAll, Range.sitesOfAll, List.map_cons, List.map_append,
        collection.sites_eraseTypes, hrest]
      rfl

theorem Term.sites_eraseTypesOfAll : ∀ (ts : List Term) (binders : List Binder),
    Term.sitesOfAll (binders.map Binder.eraseTypes) (Term.eraseTypesOfAll ts) =
      (Term.sitesOfAll binders ts).map Site.eraseTypes
  | [], binders => by simp only [Term.eraseTypesOfAll, Term.sitesOfAll, List.map_nil]
  | t :: rest, binders => by
      simp only [Term.eraseTypesOfAll, Term.sitesOfAll, List.map_append, t.sites_eraseTypes,
        Term.sites_eraseTypesOfAll rest]

end

namespace Specification

theorem sites_eraseTypes_part {α : Type} {erase : α → α} {sites : α → List Site}
    (h : ∀ a, sites (erase a) = (sites a).map Site.eraseTypes) (part : Option α) :
    ((part.map erase).map sites).getD [] = ((part.map sites).getD []).map Site.eraseTypes := by
  cases part with
  | none => rfl
  | some a => exact h a

theorem costSites_eraseTypes (spec : Specification) :
    spec.eraseTypes.costSites = spec.costSites.map Site.eraseTypes := by
  have hcost : ∀ cost : Option Term,
      ((cost.map Term.eraseTypes).map (Term.sites [] false)).getD [] =
        ((cost.map (Term.sites [] false)).getD []).map Site.eraseTypes :=
    sites_eraseTypes_part fun t => t.sites_eraseTypes [] false
  rw [costSites, costSites, List.map_append, ← hcost, ← hcost]
  rfl

/-- The sites of a specification do not depend on the types recorded in it. -/
theorem sites_eraseTypes (spec : Specification) :
    spec.eraseTypes.sites = spec.sites.map Site.eraseTypes := by
  have haccuracy := sites_eraseTypes_part (fun c => Clause.sites_eraseTypes c []) spec.accuracy
  rw [sites, sites, List.map_append, costSites_eraseTypes]
  exact congrArg (· ++ spec.costSites.map Site.eraseTypes) haccuracy

/-- Trees that differ in their slots only have the same sites up to slots. -/
theorem exists_site_of_eraseTypes_eq {spec spec' : Specification}
    (h : spec.eraseTypes = spec'.eraseTypes) {p : Site} (hp : p ∈ spec.sites) :
    ∃ p' ∈ spec'.sites, p'.eraseTypes = p.eraseTypes := by
  have hmem : p.eraseTypes ∈ spec'.sites.map Site.eraseTypes := by
    rw [← sites_eraseTypes, ← h, sites_eraseTypes]
    exact List.mem_map_of_mem hp
  exact List.mem_map.1 hmem

theorem exists_costSite_of_eraseTypes_eq {spec spec' : Specification}
    (h : spec.eraseTypes = spec'.eraseTypes) {p : Site} (hp : p ∈ spec.costSites) :
    ∃ p' ∈ spec'.costSites, p'.eraseTypes = p.eraseTypes := by
  have hmem : p.eraseTypes ∈ spec'.costSites.map Site.eraseTypes := by
    rw [← costSites_eraseTypes, ← h, costSites_eraseTypes]
    exact List.mem_map_of_mem hp
  exact List.mem_map.1 hmem

/-- Without types, no term records one. -/
theorem isBlank_of_mem_nodes_eraseTypes (spec : Specification) :
    ∀ n ∈ spec.eraseTypes.nodes, n.IsBlank := by
  rw [← map_node_sites, sites_eraseTypes, List.map_map]
  intro n hn t ht
  obtain ⟨p, -, rfl⟩ := List.mem_map.1 hn
  obtain ⟨binders, isCompared, node⟩ := p
  cases node with
  | term u =>
      obtain rfl : u.eraseTypes = t := Node.term.inj ht
      cases u <;> simp only [Term.eraseTypes] <;> rfl
  | clause c => cases ht
  | range r => cases ht

end Specification

/-- Typing reads no slots. -/
theorem Term.hasType_eraseTypes_iff (t : Term) (Γ : LexicalEnv) (τ : ValueType) :
    t.eraseTypes.HasType Γ τ ↔ t.HasType Γ τ := by
  have hΓ := TypeEnv.agrees_declared Γ
  rw [← Term.analyze_ok_iff hΓ, ← Term.analyze_ok_iff hΓ, (t.endsAlike_analyze _).snd_eq]

/-- Two terms that differ in their slots only have the same types. -/
theorem Term.HasType.congr {t t' : Term} {Γ : LexicalEnv} {τ : ValueType} (ht : t.HasType Γ τ)
    (h : t'.eraseTypes = t.eraseTypes) : t'.HasType Γ τ := by
  rwa [← Term.hasType_eraseTypes_iff, h, Term.hasType_eraseTypes_iff]

/-- Binders that differ in their slots only lead to the same environment. -/
theorem Binder.Extend.congr {Γ Δ : LexicalEnv} {binders binders' : List Binder}
    (hΔ : Extend Γ binders Δ)
    (h : binders'.map Binder.eraseTypes = binders.map Binder.eraseTypes) :
    Extend Γ binders' Δ := by
  induction hΔ generalizing binders' with
  | nil =>
      rw [List.map_nil, List.map_eq_nil_iff] at h
      rw [h]
      exact .nil
  | value hΔ hvalue ih =>
      obtain ⟨b, rest, rfl, hb, hrest⟩ := List.map_eq_cons_iff.1 h
      cases b with
      | value name t =>
          simp only [eraseTypes, Binder.value.injEq] at hb
          rw [hb.1]
          exact .value (ih hrest) (hvalue.congr hb.2)
      | range var collection mode => cases hb
  | range hΔ hcollection ih =>
      obtain ⟨b, rest, rfl, hb, hrest⟩ := List.map_eq_cons_iff.1 h
      cases b with
      | value name t => cases hb
      | range var collection mode =>
          simp only [eraseTypes, Binder.range.injEq] at hb
          rw [hb.1, hb.2.2]
          exact .range (ih hrest) (hcollection.congr hb.2.1)

/-! ### The sites of the checks -/

/-- The check is about the node at the site. -/
inductive Step.IsAt : Step → Site → Prop where
  | type {binders isCompared t} :
      Step.IsAt ⟨binders, .type t⟩ ⟨binders, isCompared, .term t⟩
  | output {binders isCompared span lhs rhs} :
      Step.IsAt ⟨binders, .output lhs⟩ ⟨binders, isCompared, .clause (.approx span lhs rhs)⟩
  | list {binders isCompared span var collection mode} :
      Step.IsAt ⟨binders, .list collection⟩
        ⟨binders, isCompared, .range (.mk span var collection mode)⟩

/-- Each of the checks is about one of the sites. -/
def Located (steps : List Step) (sites : List Site) : Prop :=
  ∀ s ∈ steps, ∃ p ∈ sites, s.IsAt p

namespace Located

variable {xs ys : List Step} {ps qs : List Site}

theorem append (h : Located xs ps) (h' : Located ys qs) : Located (xs ++ ys) (ps ++ qs) := by
  rw [Located, List.forall_mem_append]
  refine ⟨fun s hs => ?_, fun s hs => ?_⟩
  · obtain ⟨p, hp, hat⟩ := h s hs
    exact ⟨p, List.mem_append_left qs hp, hat⟩
  · obtain ⟨p, hp, hat⟩ := h' s hs
    exact ⟨p, List.mem_append_right ps hp, hat⟩

theorem cons (h : Located xs ps) (p : Site) : Located xs (p :: ps) := by
  intro s hs
  obtain ⟨q, hq, hat⟩ := h s hs
  exact ⟨q, List.mem_cons_of_mem p hq, hat⟩

/-- A check of a node itself, wherever it comes among those of its parts. -/
theorem insert (xs : List Step) {p : Site} {s : Step} (h : Located (xs ++ ys) ps)
    (hat : s.IsAt p) : Located (xs ++ s :: ys) (p :: ps) := by
  rw [Located, List.forall_mem_append, List.forall_mem_cons]
  rw [Located, List.forall_mem_append] at h
  exact ⟨cons h.1 p, ⟨p, List.mem_cons_self, hat⟩, cons h.2 p⟩

/-- A term is checked after its parts. -/
theorem own (h : Located xs ps) (binders : List Binder) (isCompared : Bool) (t : Term) :
    Located (xs ++ [⟨binders, .type t⟩]) (⟨binders, isCompared, .term t⟩ :: ps) := by
  rw [← List.append_nil xs] at h
  exact insert xs h .type

end Located

mutual

theorem Clause.located : ∀ (c : Clause) (binders : List Binder),
    Located (c.steps binders) (c.sites binders)
  | .forAll _ ranges body, binders => by
      rw [Clause.steps, Clause.sites]
      exact ((Range.located ranges binders).append (body.located _)).cons _
  | .letIn _ _ value body, binders => by
      rw [Clause.steps, Clause.sites]
      exact ((value.located binders false).append (body.located _)).cons _
  | .membership _ item collection, binders => by
      rw [Clause.steps, Clause.sites]
      exact ((item.located binders false).append (collection.located binders false)).cons _
  | .approx _ lhs rhs, binders => by
      rw [Clause.steps, Clause.sites]
      exact .insert [] ((lhs.located binders false).append (rhs.located binders false)) .output
  | .compare _ lhs _ rhs, binders => by
      rw [Clause.steps, Clause.sites]
      exact ((lhs.located binders true).append (rhs.located binders false)).cons _
  | .logic _ lhs _ rhs, binders => by
      rw [Clause.steps, Clause.sites]
      exact ((lhs.located binders).append (rhs.located binders)).cons _
  | .not _ inner, binders => by
      rw [Clause.steps, Clause.sites]
      exact (inner.located binders).cons _

theorem Term.located : ∀ (t : Term) (binders : List Binder) (isCompared : Bool),
    Located (t.steps binders) (t.sites binders isCompared)
  | .constant .., binders, isCompared => by
      rw [Term.steps, Term.sites]
      exact Located.own (List.forall_mem_nil _) binders isCompared _
  | .identifier .., binders, isCompared => by
      rw [Term.steps, Term.sites]
      exact Located.own (List.forall_mem_nil _) binders isCompared _
  | .probability _ _ body, binders, isCompared => by
      rw [Term.steps, Term.sites]
      exact (body.located binders).own binders isCompared _
  | .probabilityOverItems _ ranges body, binders, isCompared => by
      rw [Term.steps, Term.sites]
      exact ((Range.located ranges binders).append (body.located _)).own binders isCompared _
  | .expectation _ _ body, binders, isCompared => by
      rw [Term.steps, Term.sites]
      exact (body.located binders false).own binders isCompared _
  | .expectationOverItems _ ranges body, binders, isCompared => by
      rw [Term.steps, Term.sites]
      exact ((Range.located ranges binders).append (body.located _ false)).own binders isCompared _
  | .lookup _ collection key, binders, isCompared => by
      rw [Term.steps, Term.sites]
      exact ((collection.located binders false).append (key.located binders false)).own binders
        isCompared _
  | .tuple _ elements, binders, isCompared => by
      rw [Term.steps, Term.sites]
      exact (Term.locatedOfAll elements binders).own binders isCompared _
  | .binary _ lhs _ rhs, binders, isCompared => by
      rw [Term.steps, Term.sites]
      exact ((lhs.located binders false).append (rhs.located binders false)).own binders
        isCompared _
  | .sizeOf _ collection, binders, isCompared => by
      rw [Term.steps, Term.sites]
      exact (collection.located binders false).own binders isCompared _
  | .call _ _ args, binders, isCompared => by
      rw [Term.steps, Term.sites]
      exact (Term.locatedOfAll args binders).own binders isCompared _

theorem Range.located : ∀ (ranges : List Range) (binders : List Binder),
    Located (Range.stepsOfAll binders ranges) (Range.sitesOfAll binders ranges)
  | [], binders => by
      rw [Range.stepsOfAll, Range.sitesOfAll]
      exact List.forall_mem_nil _
  | .mk _ _ collection _ :: rest, binders => by
      rw [Range.stepsOfAll, Range.sitesOfAll]
      exact .insert _ ((collection.located binders false).append (Range.located rest _)) .list

theorem Term.locatedOfAll : ∀ (ts : List Term) (binders : List Binder),
    Located (Term.stepsOfAll binders ts) (Term.sitesOfAll binders ts)
  | [], binders => by
      rw [Term.stepsOfAll, Term.sitesOfAll]
      exact List.forall_mem_nil _
  | t :: rest, binders => by
      rw [Term.stepsOfAll, Term.sitesOfAll]
      exact (t.located binders false).append (Term.locatedOfAll rest binders)

end

/-- The checks of a specification are about its sites. -/
theorem Specification.located (spec : Specification) : Located spec.steps spec.sites := by
  have hpart {α : Type} {steps : α → List Step} {sites : α → List Site}
      (h : ∀ a, Located (steps a) (sites a)) (part : Option α) :
      Located ((part.map steps).getD []) ((part.map sites).getD []) := by
    cases part with
    | none => exact List.forall_mem_nil _
    | some a => exact h a
  rw [steps, sites, costSites, List.append_assoc]
  exact (hpart (fun c => c.located []) _).append
    ((hpart (fun t => t.located [] false) _).append (hpart (fun t => t.located [] false) _))

end StatContract
