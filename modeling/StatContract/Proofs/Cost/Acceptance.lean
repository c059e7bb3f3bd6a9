import StatContract.Cost.Model
import StatContract.Proofs.Lowering.Acceptance
import StatContract.Spec.Nodes

/-!
# What a cost model can be built for

Building a model stops at the first part of a cost that has no form, from left to right. That part
is read off the cost by `unsupported?`, without the coefficients and inputs that a model uses up.
A power is judged by its exponent first: a literal one that is too large refuses the power as a
whole, and the base does not matter where the exponent is zero.
-/

namespace StatContract.CostModel

mutual

/-- The first part of a cost that no model has a form for. -/
def unsupported? : Term → Option Term
  | .constant .. | .identifier .. | .sizeOf _ (.identifier ..) => none
  | t@(.binary _ lhs op rhs) =>
    match if op = .pow then literalExponent? rhs else none with
    | some 0 => none
    | some n => if n > maxDegree then some t else unsupported? lhs
    | none => (unsupported? lhs).or (unsupported? rhs)
  | .call _ _ args => unsupportedOfAll? args
  | t => some t

/-- The first of several costs' parts that no model has a form for. -/
def unsupportedOfAll? : List Term → Option Term
  | [] => none
  | t :: rest => (unsupported? t).or (unsupportedOfAll? rest)

end

/-- The defect of a cost with a part that is not supported. -/
def refusal? (part : Option Term) : Option SpecError :=
  part.map fun t => .unsupportedCost t.text t.span

theorem refusal?_or (a b : Option Term) : refusal? (a.or b) = (refusal? a).or (refusal? b) := by
  cases a <;> rfl

namespace Build

/-- The step ends in the defect whatever the model has used up, or in none where there is none. -/
def Finds {α : Type} (o : Option SpecError) (x : Build α) : Prop :=
  ∀ u, StatContract.Finds o (x.run u)

namespace Finds

variable {o o' : Option SpecError} {α β : Type}

theorem pure (a : α) : Finds none (Pure.pure a : Build α) := fun _ => .ok _

theorem bind {x : Build α} {f : α → Build β} (hx : Finds o x) (hf : ∀ a, Finds o' (f a)) :
    Finds (o.or o') (x >>= f) := by
  intro u
  rw [StateT.run_bind]
  exact .bind (hx u) fun p => hf p.1 p.2

theorem last {x : Build α} {f : α → Build β} (hx : Finds o x) (hf : ∀ a, Finds none (f a)) :
    Finds o (x >>= f) := by
  rw [← o.or_none]
  exact hx.bind hf

theorem take (n : Nat) : Finds none (CostModel.take n) := fun _ => .ok _

theorem inputIndex (name : String) : Finds none (CostModel.inputIndex name) := by
  refine .last (fun _ => .ok _) fun u => ?_
  cases u.inputs.idxOf? name with
  | some i => exact .pure i
  | none => exact .last (fun _ => .ok _) fun _ => .pure _

theorem affine (quantity : Code) : Finds none (CostModel.affine quantity) :=
  .last (.take 2) fun _ => .pure _

theorem unsupported (t : Term) : Finds (refusal? (some t)) (CostModel.unsupported t : Build α) :=
  fun _ => .error _

end Finds

end Build

mutual

/-- Building the model of a part of a cost ends in the first part that is not supported. -/
theorem ofPart_finds : ∀ t : Term, Build.Finds (refusal? (unsupported? t)) (ofPart t)
  | .constant .. => .pure _
  | .identifier _ name => .last (.inputIndex name) fun i => .affine _
  | .sizeOf note collection => by
      cases collection with
      | identifier _ name => exact .last (.inputIndex name) fun i => .affine _
      | _ => exact .unsupported _
  | .binary note lhs op rhs => by
      rw [ofPart, unsupported?]
      generalize (if op = .pow then literalExponent? rhs else none) = exponent
      rcases exponent with _ | _ | _ | n
      · dsimp only
        rw [refusal?_or]
        refine .bind (ofPart_finds lhs) fun a => .last (ofPart_finds rhs) fun b => ?_
        cases op with
        | add | sub => exact .pure _
        | mul | div => exact .last (.take 1) fun _ => .pure _
        | pow => exact .last (.take 2) fun _ => .pure _
      · exact .pure _
      · exact ofPart_finds lhs
      · by_cases hmax : n + 1 + 1 > maxDegree
        · simp only [hmax, if_true]
          exact .unsupported _
        · simp only [hmax, if_false]
          exact .last (ofPart_finds lhs) fun base => .last (.take _) fun p => .pure _
  | .call _ name args =>
      .last (ofParts_finds args) fun args => .last (.take 2) fun _ => .pure _
  | .probability .. | .probabilityOverItems .. | .expectation .. | .expectationOverItems ..
  | .lookup .. | .tuple .. => .unsupported _

/-- Building the models of several parts ends in the first part that is not supported. -/
theorem ofParts_finds : ∀ ts : List Term,
    Build.Finds (refusal? (unsupportedOfAll? ts)) (ofParts ts)
  | [] => .pure _
  | t :: ts => by
      rw [ofParts, unsupportedOfAll?, refusal?_or]
      exact .bind (ofPart_finds t) fun _ => .last (ofParts_finds ts) fun _ => .pure _

end

/-- Building the model of a cost ends in the first part that is not supported. -/
theorem synthesize_finds (cost : Term) :
    StatContract.Finds (refusal? (unsupported? cost)) (synthesize cost) := by
  have hcost : Build.Finds (refusal? (unsupported? cost)) (ofCost cost) := by
    unfold ofCost
    split
    · exact .last (.take 1) fun _ => .pure _
    · exact ofPart_finds _
  exact .last (hcost {}) fun _ => .ok _

mutual

/-- The part that is not supported is a part of the cost. -/
theorem term_mem_nodes_of_unsupported? : ∀ {t u : Term}, unsupported? t = some u →
    .term u ∈ t.nodes
  | .constant .., _, h | .identifier .., _, h => by cases h
  | .sizeOf note collection, u, h => by
      rw [Term.nodes]
      cases collection <;> cases h <;> exact List.mem_cons_self
  | .binary note lhs op rhs, u, h => by
      rw [unsupported?] at h
      rw [Term.nodes]
      generalize (if op = .pow then literalExponent? rhs else none) = exponent at h
      rcases exponent with _ | _ | n
      · rcases Option.or_eq_some_iff.1 h with hlhs | ⟨-, hrhs⟩
        · exact .tail _ (List.mem_append_left _ (term_mem_nodes_of_unsupported? hlhs))
        · exact .tail _ (List.mem_append_right _ (term_mem_nodes_of_unsupported? hrhs))
      · cases h
      · by_cases hmax : n + 1 > maxDegree
        · simp only [hmax, if_true, Option.some.injEq] at h
          rw [h]
          exact List.mem_cons_self
        · simp only [hmax, if_false] at h
          exact .tail _ (List.mem_append_left _ (term_mem_nodes_of_unsupported? h))
  | .call _ _ args, u, h => by
      rw [Term.nodes]
      exact .tail _ (term_mem_nodes_of_unsupportedOfAll? h)
  | .probability .., _, h | .probabilityOverItems .., _, h | .expectation .., _, h
  | .expectationOverItems .., _, h | .lookup .., _, h | .tuple .., _, h => by
      cases h
      rw [Term.nodes]
      exact List.mem_cons_self

theorem term_mem_nodes_of_unsupportedOfAll? : ∀ {ts : List Term} {u : Term},
    unsupportedOfAll? ts = some u → .term u ∈ Term.nodesOfAll ts
  | [], _, h => by cases h
  | t :: rest, u, h => by
      rw [unsupportedOfAll?] at h
      rw [Term.nodesOfAll]
      rcases Option.or_eq_some_iff.1 h with ht | ⟨-, hrest⟩
      · exact List.mem_append_left _ (term_mem_nodes_of_unsupported? ht)
      · exact List.mem_append_right _ (term_mem_nodes_of_unsupportedOfAll? hrest)

end

end StatContract.CostModel
