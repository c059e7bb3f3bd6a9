import StatContract.Cost.Model
import StatContract.Proofs.Lowering.Run

/-!
# How cost models are built

`Builds u t c u'` are the rules by which the part `t` of a cost becomes the expression `c`,
where the model has used up `u` before and `u'` after. Each rule is one form of cost, with
the coefficients and inputs that it takes. Building by steps follows the rules
(`builds_of_run`), so that properties of models are proved by induction on them.
-/

namespace StatContract.CostModel

namespace Usage

/-- A name joins the inputs when it is new. -/
def enter (u : Usage) (name : String) : Usage :=
  if name ∈ u.inputs then u else { u with inputs := u.inputs ++ [name] }

/-- The next coefficients are taken. -/
def reserve (u : Usage) (n : Nat) : Usage := { u with coefficients := u.coefficients + n }

@[simp] theorem coefficients_enter (u : Usage) (name : String) :
    (u.enter name).coefficients = u.coefficients := by
  unfold enter
  split <;> rfl

@[simp] theorem coefficients_reserve (u : Usage) (n : Nat) :
    (u.reserve n).coefficients = u.coefficients + n := rfl

theorem prefix_enter (u : Usage) (name : String) : u.inputs <+: (u.enter name).inputs := by
  unfold enter
  split
  · exact List.prefix_rfl
  · exact List.prefix_append _ _

end Usage

/-- A quantity with the factor and the offset from a coefficient on. -/
def scaled (p : Nat) (quantity : Code) : Code :=
  .paren (plus (times (coefficient p) quantity) (coefficient (p + 1)))

mutual

/-- A part of a cost has an expression, which uses up coefficients and inputs. -/
inductive Builds : Usage → Term → Code → Usage → Prop where
  | constant {u note value} : Builds u (.constant note value) (.verbatim value) u
  | identifier {u note name} :
      Builds u (.identifier note name) (scaled u.coefficients (input (u.inputs.idxOf name)))
        ((u.enter name).reserve 2)
  | size {u note inner name} :
      Builds u (.sizeOf note (.identifier inner name))
        (scaled u.coefficients (.len (input (u.inputs.idxOf name)))) ((u.enter name).reserve 2)
  | one {u note lhs rhs} (hexponent : literalExponent? rhs = some 0) :
      Builds u (.binary note lhs .pow rhs) (.nat 1) u
  | base {u u' note lhs rhs c} (hexponent : literalExponent? rhs = some 1)
      (hlhs : Builds u lhs c u') : Builds u (.binary note lhs .pow rhs) c u'
  | power {u u' note lhs rhs c n} (hexponent : literalExponent? rhs = some n) (hle : 2 ≤ n)
      (hmax : n ≤ maxDegree) (hlhs : Builds u lhs c u') :
      Builds u (.binary note lhs .pow rhs) (polynomial c n u'.coefficients) (u'.reserve (n + 1))
  | sum {u u' u'' note lhs op rhs a b} (hop : op = .add ∨ op = .sub) (hlhs : Builds u lhs a u')
      (hrhs : Builds u' rhs b u'') :
      Builds u (.binary note lhs op rhs) (.group a (.arith op) b) u''
  | product {u u' u'' note lhs op rhs a b} (hop : op = .mul ∨ op = .div)
      (hlhs : Builds u lhs a u') (hrhs : Builds u' rhs b u'') :
      Builds u (.binary note lhs op rhs)
        (.paren (plus (.binary a (.arith op) b) (coefficient u''.coefficients))) (u''.reserve 1)
  | exponential {u u' u'' note lhs rhs a b} (hexponent : literalExponent? rhs = none)
      (hlhs : Builds u lhs a u') (hrhs : Builds u' rhs b u'') :
      Builds u (.binary note lhs .pow rhs)
        (.paren (plus (times (.group a (.arith .pow) b) (coefficient u''.coefficients))
          (coefficient (u''.coefficients + 1)))) (u''.reserve 2)
  | call {u u' note name args cs} (hargs : BuildsAll u args cs u') :
      Builds u (.call note name args)
        (.paren (plus (times (.apply name cs) (coefficient u'.coefficients))
          (coefficient (u'.coefficients + 1)))) (u'.reserve 2)

/-- Several parts have expressions, from left to right. -/
inductive BuildsAll : Usage → List Term → List Code → Usage → Prop where
  | nil {u} : BuildsAll u [] [] u
  | cons {u u' u'' t ts c cs} (hhead : Builds u t c u') (htail : BuildsAll u' ts cs u'') :
      BuildsAll u (t :: ts) (c :: cs) u''

end

section Run

theorem run_bind_eq_ok_iff {α β : Type} {x : Build α} {f : α → Build β} {u u'' : Usage} {b : β} :
    (x >>= f).run u = .ok (b, u'') ↔
      ∃ a u', x.run u = .ok (a, u') ∧ (f a).run u' = .ok (b, u'') := by
  rw [StateT.run_bind, except_bind_eq_ok_iff]
  exact Prod.exists

theorem run_pure_eq_ok_iff {α : Type} {a b : α} {u u' : Usage} :
    (pure a : Build α).run u = .ok (b, u') ↔ a = b ∧ u = u' := by
  change Except.ok (a, u) = .ok (b, u') ↔ _
  rw [Except.ok.injEq, Prod.mk.injEq]

theorem run_inputIndex (name : String) (u : Usage) :
    (inputIndex name).run u = .ok (u.inputs.idxOf name, u.enter name) := by
  have hidx : u.inputs.idxOf name = (u.inputs.idxOf? name).getD u.inputs.length := by
    rw [List.idxOf, List.idxOf?, List.findIdx_eq_getD_findIdx?]
  rw [inputIndex, StateT.run_bind, StateT.run_get, pure_bind, hidx, Usage.enter]
  cases h : u.inputs.idxOf? name with
  | some i =>
      have hmem : name ∈ u.inputs := List.isSome_idxOf?.1 (by rw [h]; rfl)
      rw [if_pos hmem]
      rfl
  | none =>
      rw [if_neg (List.idxOf?_eq_none_iff.1 h)]
      rfl

theorem run_affine_input (name : String) (quantity : Nat → Code) (u : Usage) :
    (inputIndex name >>= fun i => affine (quantity i)).run u =
      .ok (scaled u.coefficients (quantity (u.inputs.idxOf name)), (u.enter name).reserve 2) := by
  rw [StateT.run_bind, run_inputIndex, ← Usage.coefficients_enter u name]
  rfl

theorem run_unsupported {α : Type} (t : Term) (u : Usage) :
    (unsupported t : Build α).run u = .error (.unsupportedCost t.text t.span) := rfl

mutual

/-- Building a part follows the rules. -/
theorem builds_of_run {t : Term} {c : Code} {u u' : Usage} (h : (ofPart t).run u = .ok (c, u')) :
    Builds u t c u' := by
  match t with
  | .constant note value =>
      rw [ofPart, run_pure_eq_ok_iff] at h
      obtain ⟨rfl, rfl⟩ := h
      exact .constant
  | .identifier note name =>
      rw [ofPart, run_affine_input name input] at h
      cases h
      exact .identifier
  | .sizeOf note collection =>
      cases collection with
      | identifier inner name =>
          rw [ofPart, run_affine_input name fun i => .len (input i)] at h
          cases h
          exact .size
      | _ =>
          rw [ofPart] at h
          · cases h
          · nofun
  | .binary note lhs op rhs =>
      rw [ofPart] at h
      have hpow {n : Nat} (h : (if op = .pow then literalExponent? rhs else none) = some n) :
          op = .pow ∧ literalExponent? rhs = some n := by
        by_cases hop : op = .pow
        · exact ⟨hop, by rwa [if_pos hop] at h⟩
        · rw [if_neg hop] at h
          cases h
      -- A literal exponent is looked for first, and only for a power; otherwise the operation
      -- decides.
      match hexponent : if op = .pow then literalExponent? rhs else none with
      | some 0 =>
          simp only [hexponent] at h
          obtain ⟨rfl, hrhs⟩ := hpow hexponent
          obtain ⟨rfl, rfl⟩ := run_pure_eq_ok_iff.1 h
          exact .one hrhs
      | some 1 =>
          simp only [hexponent] at h
          obtain ⟨rfl, hrhs⟩ := hpow hexponent
          exact .base hrhs (builds_of_run h)
      | some (n + 2) =>
          simp only [hexponent] at h
          obtain ⟨rfl, hrhs⟩ := hpow hexponent
          by_cases hmax : n + 2 > maxDegree
          · rw [if_pos hmax, run_unsupported] at h
            cases h
          · rw [if_neg hmax, run_bind_eq_ok_iff] at h
            obtain ⟨base, u₁, hbase, h⟩ := h
            cases h
            exact .power hrhs (Nat.le_add_left 2 n) (Nat.not_lt.1 hmax) (builds_of_run hbase)
      | none =>
          simp only [hexponent, run_bind_eq_ok_iff] at h
          obtain ⟨a, u₁, hlhs, b, u₂, hrhs, h⟩ := h
          have ha := builds_of_run hlhs
          have hb := builds_of_run hrhs
          cases op with
          | add | sub =>
              obtain ⟨rfl, rfl⟩ := run_pure_eq_ok_iff.1 h
              exact .sum (by decide) ha hb
          | mul | div =>
              cases h
              exact .product (by decide) ha hb
          | pow =>
              cases h
              exact .exponential hexponent ha hb
  | .call note name args =>
      rw [ofPart, run_bind_eq_ok_iff] at h
      obtain ⟨cs, u', hargs, h⟩ := h
      rw [run_bind_eq_ok_iff] at h
      obtain ⟨p, _, hp, h⟩ := h
      cases hp
      obtain ⟨rfl, rfl⟩ := run_pure_eq_ok_iff.1 h
      exact .call (buildsAll_of_run hargs)
  | .probability _ _ _ | .probabilityOverItems _ _ _ | .expectation _ _ _
  | .expectationOverItems _ _ _ | .lookup _ _ _ | .tuple _ _ =>
      rw [ofPart] at h
      · cases h
      all_goals nofun

theorem buildsAll_of_run {ts : List Term} {cs : List Code} {u u' : Usage}
    (h : (ofParts ts).run u = .ok (cs, u')) : BuildsAll u ts cs u' := by
  match ts with
  | [] =>
      obtain ⟨rfl, rfl⟩ := run_pure_eq_ok_iff.1 (ofParts.eq_1 ▸ h)
      exact .nil
  | t :: ts =>
      rw [ofParts, run_bind_eq_ok_iff] at h
      obtain ⟨c, u', hhead, h⟩ := h
      rw [run_bind_eq_ok_iff] at h
      obtain ⟨cs, _, htail, h⟩ := h
      obtain ⟨rfl, rfl⟩ := run_pure_eq_ok_iff.1 h
      exact .cons (builds_of_run hhead) (buildsAll_of_run htail)

end

/-- A model is one coefficient for a literal, and otherwise follows the rules. -/
theorem builds_of_synthesize {cost : Term} {m : CostModel} (h : synthesize cost = .ok m) :
    (∃ note value, cost = .constant note value ∧ m = ⟨coefficient 0, 1, []⟩) ∨
      ∃ u, Builds {} cost m.body u ∧ m.coefficients = u.coefficients ∧ m.inputs = u.inputs := by
  rw [synthesize, except_bind_eq_ok_iff] at h
  obtain ⟨⟨code, u⟩, hrun, h⟩ := h
  cases h
  match cost with
  | .constant note value =>
      cases hrun
      exact .inl ⟨note, value, rfl, rfl⟩
  | .identifier _ _ | .sizeOf _ _ | .binary _ _ _ _ | .call _ _ _ | .probability _ _ _
  | .probabilityOverItems _ _ _ | .expectation _ _ _ | .expectationOverItems _ _ _
  | .lookup _ _ _ | .tuple _ _ => exact .inr ⟨u, builds_of_run hrun, rfl, rfl⟩

end Run

end StatContract.CostModel
