import StatContract.Spec.Nodes

/-!
# Typing rules

What it means for a clause to be well typed, said without reference to the
analysis. Environments are purely lexical: a list of bindings, the latest
first, that only ever grows on the way down to a node. The rules are
syntax-directed, one for each node kind, and a name without a binding is a
scalar.

A derivation meets every term of a tree exactly once, in the environment of
its place, so it can also say what is recorded there. The rules are therefore
stated for an arbitrary condition `slot` on the annotation of a term and its
type: `HasType` asks nothing of the annotations, and `Annotated` asks that each
of them holds the type that the rules give.
-/

namespace StatContract

/-- The types of the visible names, the latest binding first. -/
abbrev LexicalEnv := List (String × ValueType)

/-- The type of a name: that of its latest binding, and the scalar type for a
name that has none. -/
def LexicalEnv.typeOf (Γ : LexicalEnv) (name : String) : ValueType :=
  (Γ.lookup name).getD .scalar

/-- A condition on the annotation of a term, given its type. -/
abbrev SlotRule := Note → ValueType → Prop

namespace SlotRule

/-- Nothing is asked of the annotation. -/
def free : SlotRule := fun _ _ => True

/-- The annotation records the type. -/
def filled : SlotRule := fun note τ => note.ty = some τ

end SlotRule

mutual

/-- The clause is well typed in an environment. -/
inductive Clause.Typed (slot : SlotRule) : LexicalEnv → Clause → Prop where
  | forAll {Γ Δ span ranges body} (hranges : Range.TypedList slot Γ ranges Δ)
      (hbody : Clause.Typed slot Δ body) :
      Clause.Typed slot Γ (.forAll span ranges body)
  | letIn {Γ span name value body τ} (hvalue : Term.Typed slot Γ value τ)
      (hbody : Clause.Typed slot ((name, τ) :: Γ) body) :
      Clause.Typed slot Γ (.letIn span name value body)
  | membership {Γ span item collection τ σ} (hitem : Term.Typed slot Γ item τ)
      (hcollection : Term.Typed slot Γ collection σ) :
      Clause.Typed slot Γ (.membership span item collection)
  | approx {Γ span note rhs τ σ}
      (hlhs : Term.Typed slot Γ (.identifier note outputName) τ)
      (hrhs : Term.Typed slot Γ rhs σ) :
      Clause.Typed slot Γ (.approx span (.identifier note outputName) rhs)
  | compare {Γ span lhs op rhs τ σ} (hlhs : Term.Typed slot Γ lhs τ)
      (hrhs : Term.Typed slot Γ rhs σ) :
      Clause.Typed slot Γ (.compare span lhs op rhs)
  | logic {Γ span lhs op rhs} (hlhs : Clause.Typed slot Γ lhs)
      (hrhs : Clause.Typed slot Γ rhs) :
      Clause.Typed slot Γ (.logic span lhs op rhs)
  | not {Γ span inner} (hinner : Clause.Typed slot Γ inner) :
      Clause.Typed slot Γ (.not span inner)

/-- The term has a type in an environment. -/
inductive Term.Typed (slot : SlotRule) : LexicalEnv → Term → ValueType → Prop where
  | constant {Γ note value} (hslot : slot note .scalar) :
      Term.Typed slot Γ (.constant note value) .scalar
  | probability {Γ note trials body} (hbody : Clause.Typed slot Γ body)
      (hslot : slot note .scalar) :
      Term.Typed slot Γ (.probability note trials body) .scalar
  | probabilityOverItems {Γ Δ note ranges body}
      (hranges : Range.TypedList slot Γ ranges Δ) (hbody : Clause.Typed slot Δ body)
      (hslot : slot note .scalar) :
      Term.Typed slot Γ (.probabilityOverItems note ranges body) .scalar
  | expectation {Γ note trials body τ} (hbody : Term.Typed slot Γ body τ)
      (hslot : slot note .scalar) :
      Term.Typed slot Γ (.expectation note trials body) .scalar
  | expectationOverItems {Γ Δ note ranges body τ}
      (hranges : Range.TypedList slot Γ ranges Δ) (hbody : Term.Typed slot Δ body τ)
      (hslot : slot note .scalar) :
      Term.Typed slot Γ (.expectationOverItems note ranges body) .scalar
  | element {Γ note collection key τ κ}
      (hcollection : Term.Typed slot Γ collection (.sequence τ))
      (hkey : Term.Typed slot Γ key κ) (hslot : slot note τ) :
      Term.Typed slot Γ (.lookup note collection key) τ
  | entry {Γ note collection key κ' τ κ}
      (hcollection : Term.Typed slot Γ collection (.map κ' τ))
      (hkey : Term.Typed slot Γ key κ) (hslot : slot note τ) :
      Term.Typed slot Γ (.lookup note collection key) τ
  | identifier {Γ note name} (hslot : slot note (LexicalEnv.typeOf Γ name)) :
      Term.Typed slot Γ (.identifier note name) (LexicalEnv.typeOf Γ name)
  | emptyTuple {Γ note} (hslot : slot note (.sequence .scalar)) :
      Term.Typed slot Γ (.tuple note []) (.sequence .scalar)
  /-- The first element decides; the others only need some type. -/
  | tuple {Γ note first rest τ τs} (hfirst : Term.Typed slot Γ first τ)
      (hrest : Term.TypedList slot Γ rest τs) (hslot : slot note (.sequence τ)) :
      Term.Typed slot Γ (.tuple note (first :: rest)) (.sequence τ)
  | binary {Γ note lhs op rhs τ} (hlhs : Term.Typed slot Γ lhs τ)
      (hrhs : Term.Typed slot Γ rhs τ) (hslot : slot note τ) :
      Term.Typed slot Γ (.binary note lhs op rhs) τ
  | sizeOf {Γ note collection τ} (hcollection : Term.Typed slot Γ collection τ)
      (hslot : slot note .scalar) :
      Term.Typed slot Γ (.sizeOf note collection) .scalar
  | call {Γ note name args τs} (hargs : Term.TypedList slot Γ args τs)
      (hslot : slot note (LexicalEnv.typeOf Γ name)) :
      Term.Typed slot Γ (.call note name args) (LexicalEnv.typeOf Γ name)

/-- The ranges are well typed and lead from one environment to another. Every
range adds its variable, which is visible in the ranges after it. -/
inductive Range.TypedList (slot : SlotRule) :
    LexicalEnv → List Range → LexicalEnv → Prop where
  | nil {Γ} : Range.TypedList slot Γ [] Γ
  | indices {Γ Δ span var collection rest τ}
      (hcollection : Term.Typed slot Γ collection (.sequence τ))
      (hrest : Range.TypedList slot ((var, .scalar) :: Γ) rest Δ) :
      Range.TypedList slot Γ (.mk span var collection .indices :: rest) Δ
  | elements {Γ Δ span var collection mode rest τ}
      (hcollection : Term.Typed slot Γ collection (.sequence τ))
      (hmode : mode ≠ .indices)
      (hrest : Range.TypedList slot ((var, τ) :: Γ) rest Δ) :
      Range.TypedList slot Γ (.mk span var collection mode :: rest) Δ

/-- The terms have the types of a list, one by one. -/
inductive Term.TypedList (slot : SlotRule) :
    LexicalEnv → List Term → List ValueType → Prop where
  | nil {Γ} : Term.TypedList slot Γ [] []
  | cons {Γ t rest τ τs} (hhead : Term.Typed slot Γ t τ)
      (htail : Term.TypedList slot Γ rest τs) :
      Term.TypedList slot Γ (t :: rest) (τ :: τs)

end

/-- The clause is derivable, whatever its annotations hold. -/
abbrev Clause.WellTyped (Γ : LexicalEnv) (c : Clause) : Prop := c.Typed .free Γ

/-- The term has the type, whatever its annotations hold. -/
abbrev Term.HasType (Γ : LexicalEnv) (t : Term) (τ : ValueType) : Prop :=
  t.Typed .free Γ τ

/-- The clause is derivable, and every term in it records the type that it has
at its place. -/
abbrev Clause.Annotated (Γ : LexicalEnv) (c : Clause) : Prop := c.Typed .filled Γ

/-- The term has the type and records it, and so does every term in it. -/
abbrev Term.Annotated (Γ : LexicalEnv) (t : Term) (τ : ValueType) : Prop :=
  t.Typed .filled Γ τ

/-- The condition holds of the annotation of a typed term itself. -/
theorem Term.Typed.slot_note {slot : SlotRule} {Γ : LexicalEnv} {t : Term} {τ : ValueType}
    (h : t.Typed slot Γ τ) : slot t.note τ := by
  cases h <;> assumption

/-- An annotated term records its type. -/
theorem Term.Typed.ty_eq {Γ : LexicalEnv} {t : Term} {τ : ValueType}
    (h : t.Annotated Γ τ) : t.ty = some τ :=
  h.slot_note

/-- The elements of a typed tuple are typed, and the first decides its type. -/
theorem Term.Typed.of_tuple {slot : SlotRule} {Γ : LexicalEnv} {note : Note}
    {elements : List Term} {τ : ValueType} (h : (Term.tuple note elements).Typed slot Γ τ) :
    ∃ τs, Term.TypedList slot Γ elements τs ∧ τ = .sequence (τs.headD .scalar) := by
  cases h with
  | emptyTuple => exact ⟨[], .nil, rfl⟩
  | tuple hfirst hrest => exact ⟨_, .cons hfirst hrest, rfl⟩

/-- The node occurs in a derivation. For a range this means that its collection is a list. -/
def Node.Typed (slot : SlotRule) : Node → Prop
  | .clause c => ∃ Γ, c.Typed slot Γ
  | .term t => ∃ Γ τ, t.Typed slot Γ τ
  | .range r => ∃ Γ τ, r.collection.Typed slot Γ (.sequence τ)

mutual

/-- A derivation for a clause meets every node of the clause. -/
theorem Clause.Typed.of_mem_nodes {slot : SlotRule} : ∀ (c : Clause) {Γ : LexicalEnv},
    c.Typed slot Γ → ∀ n ∈ c.nodes, n.Typed slot
  | .forAll span ranges body, Γ, h => by
      rw [Clause.nodes, List.forall_mem_cons, List.forall_mem_append]
      refine ⟨⟨Γ, h⟩, ?_⟩
      cases h with
      | forAll hranges hbody => exact ⟨hranges.of_mem_nodes ranges, hbody.of_mem_nodes body⟩
  | .letIn span name value body, Γ, h => by
      rw [Clause.nodes, List.forall_mem_cons, List.forall_mem_append]
      refine ⟨⟨Γ, h⟩, ?_⟩
      cases h with
      | letIn hvalue hbody => exact ⟨hvalue.of_mem_nodes value, hbody.of_mem_nodes body⟩
  | .membership span item collection, Γ, h => by
      rw [Clause.nodes, List.forall_mem_cons, List.forall_mem_append]
      refine ⟨⟨Γ, h⟩, ?_⟩
      cases h with
      | membership hitem hcollection =>
          exact ⟨hitem.of_mem_nodes item, hcollection.of_mem_nodes collection⟩
  | .approx span (.identifier note name) rhs, Γ, h => by
      rw [Clause.nodes, List.forall_mem_cons, List.forall_mem_append]
      refine ⟨⟨Γ, h⟩, ?_⟩
      cases h with
      | approx hlhs hrhs =>
          refine ⟨?_, hrhs.of_mem_nodes rhs⟩
          rw [Term.nodes, List.forall_mem_singleton]
          exact ⟨Γ, _, hlhs⟩
  | .compare span lhs op rhs, Γ, h => by
      rw [Clause.nodes, List.forall_mem_cons, List.forall_mem_append]
      refine ⟨⟨Γ, h⟩, ?_⟩
      cases h with
      | compare hlhs hrhs => exact ⟨hlhs.of_mem_nodes lhs, hrhs.of_mem_nodes rhs⟩
  | .logic span lhs op rhs, Γ, h => by
      rw [Clause.nodes, List.forall_mem_cons, List.forall_mem_append]
      refine ⟨⟨Γ, h⟩, ?_⟩
      cases h with
      | logic hlhs hrhs => exact ⟨hlhs.of_mem_nodes lhs, hrhs.of_mem_nodes rhs⟩
  | .not span inner, Γ, h => by
      rw [Clause.nodes, List.forall_mem_cons]
      refine ⟨⟨Γ, h⟩, ?_⟩
      cases h with
      | not hinner => exact hinner.of_mem_nodes inner

/-- A derivation for a term meets every node of the term. -/
theorem Term.Typed.of_mem_nodes {slot : SlotRule} : ∀ (t : Term) {Γ : LexicalEnv}
    {τ : ValueType}, t.Typed slot Γ τ → ∀ n ∈ t.nodes, n.Typed slot
  | .constant note value, Γ, τ, h => by
      rw [Term.nodes, List.forall_mem_singleton]
      exact ⟨Γ, τ, h⟩
  | .probability note trials body, Γ, τ, h => by
      rw [Term.nodes, List.forall_mem_cons]
      refine ⟨⟨Γ, τ, h⟩, ?_⟩
      cases h with
      | probability hbody => exact hbody.of_mem_nodes body
  | .probabilityOverItems note ranges body, Γ, τ, h => by
      rw [Term.nodes, List.forall_mem_cons, List.forall_mem_append]
      refine ⟨⟨Γ, τ, h⟩, ?_⟩
      cases h with
      | probabilityOverItems hranges hbody =>
          exact ⟨hranges.of_mem_nodes ranges, hbody.of_mem_nodes body⟩
  | .expectation note trials body, Γ, τ, h => by
      rw [Term.nodes, List.forall_mem_cons]
      refine ⟨⟨Γ, τ, h⟩, ?_⟩
      cases h with
      | expectation hbody => exact hbody.of_mem_nodes body
  | .expectationOverItems note ranges body, Γ, τ, h => by
      rw [Term.nodes, List.forall_mem_cons, List.forall_mem_append]
      refine ⟨⟨Γ, τ, h⟩, ?_⟩
      cases h with
      | expectationOverItems hranges hbody =>
          exact ⟨hranges.of_mem_nodes ranges, hbody.of_mem_nodes body⟩
  | .lookup note collection key, Γ, τ, h => by
      rw [Term.nodes, List.forall_mem_cons, List.forall_mem_append]
      refine ⟨⟨Γ, τ, h⟩, ?_⟩
      cases h with
      | element hcollection hkey =>
          exact ⟨hcollection.of_mem_nodes collection, hkey.of_mem_nodes key⟩
      | entry hcollection hkey =>
          exact ⟨hcollection.of_mem_nodes collection, hkey.of_mem_nodes key⟩
  | .identifier note name, Γ, τ, h => by
      rw [Term.nodes, List.forall_mem_singleton]
      exact ⟨Γ, τ, h⟩
  | .tuple note elements, Γ, τ, h => by
      obtain ⟨τs, hτs, -⟩ := h.of_tuple
      rw [Term.nodes, List.forall_mem_cons]
      exact ⟨⟨Γ, τ, h⟩, hτs.of_mem_nodes elements⟩
  | .binary note lhs op rhs, Γ, τ, h => by
      rw [Term.nodes, List.forall_mem_cons, List.forall_mem_append]
      refine ⟨⟨Γ, τ, h⟩, ?_⟩
      cases h with
      | binary hlhs hrhs => exact ⟨hlhs.of_mem_nodes lhs, hrhs.of_mem_nodes rhs⟩
  | .sizeOf note collection, Γ, τ, h => by
      rw [Term.nodes, List.forall_mem_cons]
      refine ⟨⟨Γ, τ, h⟩, ?_⟩
      cases h with
      | sizeOf hcollection => exact hcollection.of_mem_nodes collection
  | .call note name args, Γ, τ, h => by
      rw [Term.nodes, List.forall_mem_cons]
      refine ⟨⟨Γ, τ, h⟩, ?_⟩
      cases h with
      | call hargs => exact hargs.of_mem_nodes args

/-- A derivation for ranges meets every node of the ranges. -/
theorem Range.TypedList.of_mem_nodes {slot : SlotRule} : ∀ (ranges : List Range)
    {Γ Δ : LexicalEnv}, Range.TypedList slot Γ ranges Δ →
      ∀ n ∈ Range.nodesOfAll ranges, n.Typed slot
  | [], Γ, Δ, h => by
      rw [Range.nodesOfAll]
      exact List.forall_mem_nil _
  | .mk span var collection mode :: rest, Γ, Δ, h => by
      rw [Range.nodesOfAll, List.forall_mem_cons, List.forall_mem_append]
      cases h with
      | indices hcollection hrest =>
          exact ⟨⟨Γ, _, hcollection⟩, hcollection.of_mem_nodes collection, hrest.of_mem_nodes rest⟩
      | elements hcollection _ hrest =>
          exact ⟨⟨Γ, _, hcollection⟩, hcollection.of_mem_nodes collection, hrest.of_mem_nodes rest⟩

/-- A derivation for terms meets every node of the terms. -/
theorem Term.TypedList.of_mem_nodes {slot : SlotRule} : ∀ (ts : List Term) {Γ : LexicalEnv}
    {τs : List ValueType}, Term.TypedList slot Γ ts τs →
      ∀ n ∈ Term.nodesOfAll ts, n.Typed slot
  | [], Γ, τs, h => by
      rw [Term.nodesOfAll]
      exact List.forall_mem_nil _
  | t :: rest, Γ, τs, h => by
      rw [Term.nodesOfAll, List.forall_mem_append]
      cases h with
      | cons hhead htail => exact ⟨hhead.of_mem_nodes t, htail.of_mem_nodes rest⟩

end

namespace Specification

/-- The environment of the declarations. The last declaration of a name comes
first, so it is the one that counts. -/
def lexicalEnv (spec : Specification) : LexicalEnv :=
  (spec.decls.map fun d => (d.name, d.ty)).reverse

/-- The contracts of a specification are derivable from its declarations, with
a condition on the annotations. -/
structure Typed (slot : SlotRule) (spec : Specification) : Prop where
  accuracy : ∀ c ∈ spec.accuracy, Clause.Typed slot spec.lexicalEnv c
  time : ∀ t ∈ spec.time, ∃ τ, Term.Typed slot spec.lexicalEnv t τ
  space : ∀ t ∈ spec.space, ∃ τ, Term.Typed slot spec.lexicalEnv t τ

/-- The derivations of a specification meet every node of it. -/
theorem Typed.of_mem_nodes {slot : SlotRule} {spec : Specification} (h : spec.Typed slot) :
    ∀ n ∈ spec.nodes, n.Typed slot := by
  rw [nodes, List.forall_mem_append, List.forall_mem_append]
  refine ⟨⟨?_, ?_⟩, ?_⟩
  · cases hc : spec.accuracy with
    | none => exact List.forall_mem_nil _
    | some c => exact (h.accuracy c hc).of_mem_nodes c
  · cases ht : spec.time with
    | none => exact List.forall_mem_nil _
    | some t =>
        obtain ⟨τ, hτ⟩ := h.time t ht
        exact hτ.of_mem_nodes t
  · cases ht : spec.space with
    | none => exact List.forall_mem_nil _
    | some t =>
        obtain ⟨τ, hτ⟩ := h.space t ht
        exact hτ.of_mem_nodes t

/-- Every term of a derivable specification is typed by the derivation. -/
theorem Typed.of_mem_terms {slot : SlotRule} {spec : Specification} (h : spec.Typed slot)
    {t : Term} (ht : t ∈ spec.terms) : ∃ Δ τ, t.Typed slot Δ τ := by
  obtain ⟨node, hnode, heq⟩ := List.mem_filterMap.1 ht
  cases node with
  | term u =>
      cases heq
      exact h.of_mem_nodes _ hnode
  | clause c => cases heq
  | range r => cases heq

/-- The name is declared. -/
def Declares (spec : Specification) (name : String) : Prop :=
  ∃ d ∈ spec.decls, d.name = name

end Specification

end StatContract
