import StatContract.Proofs.Lowering.ForAll

/-!
# What the statements of a clause write to

The statements of a lowered clause give values to the names that the clause binds and
to the temporaries that it is handed, `Clause.Emits.assigned_cases`. Everything else
keeps its value. The temporaries of different parts of a clause are different, since
they are handed out by counting.
-/

namespace StatContract

variable {V : Type} {I : Interpretation V}

/-- The name is one of the temporaries from one number up to another. -/
def IsTempIn (first last : Nat) (name : String) : Prop :=
  ∃ i, first ≤ i ∧ i < last ∧ name = tempName i

theorem IsTempIn.mono {first first' last last' : Nat} {name : String}
    (h : IsTempIn first last name) (hfirst : first' ≤ first) (hlast : last ≤ last') :
    IsTempIn first' last' name := by
  obtain ⟨i, h₁, h₂, rfl⟩ := h
  exact ⟨i, Nat.le_trans hfirst h₁, Nat.lt_of_lt_of_le h₂ hlast, rfl⟩

theorem not_isTempIn_of_head {name : String} (h : name.toList.head? ≠ some 't')
    (first last : Nat) : ¬ IsTempIn first last name := by
  rintro ⟨i, -, -, hi⟩
  exact not_isTemp_of_head h ⟨i, hi⟩

/-- Temporaries of two separate stretches are different. -/
theorem IsTempIn.not_later {first last first' last' : Nat} {name : String}
    (h : IsTempIn first last name) (hle : last ≤ first') : ¬ IsTempIn first' last' name := by
  obtain ⟨i, -, hi, rfl⟩ := h
  rintro ⟨j, hj, -, hij⟩
  have := tempName_injective hij
  omega

theorem Loop.forall_assigned_nest {condition : Option String} {loops : List Loop}
    {body : List Stmt} {P : String → Prop} :
    (∀ x ∈ Stmt.assignedOfAll (nest condition loops body), P x) ↔
      (∀ x ∈ loops.map var, P x) ∧ ∀ x ∈ Stmt.assignedOfAll body, P x := by
  simp only [mem_assigned_nest, or_imp, forall_and]

/-- The variables of loops are those of the ranges they are opened for. -/
theorem Range.Opens.var_mem {ctx inner : Context} {ranges : List Range} {loops : List Loop}
    (h : Range.Opens ctx ranges loops inner) :
    ∀ x ∈ loops.map Loop.var, x ∈ Range.bindersOfAll ranges := by
  induction h with
  | nil => exact List.forall_mem_nil _
  | cons _ _ ih =>
      rw [Range.bindersOfAll_cons, List.map_cons, List.forall_mem_cons]
      refine ⟨List.mem_cons_self, fun x hx => ?_⟩
      exact List.mem_cons_of_mem _ (List.mem_append_right _ (ih x hx))

/-- The statements of a clause give values to the names that the clause binds and to
the temporaries that it is handed, and to nothing else. -/
theorem Clause.Emits.assigned_cases {target : Target} {ctx : Context} {c : Clause} {mode : Mode}
    {stmts : List Stmt} {v : Verdict} {k : Nat} (h : c.Emits target ctx mode stmts v k) :
    ∀ x ∈ Stmt.assignedOfAll stmts, x ∈ c.binders ∨ IsTempIn ctx.temps k x := by
  have hset (n : String) (c : Code) : (Stmt.set n c).assigned = [n] := rfl
  induction h with
  | forAll _ hranges hbody ih =>
      have hle := hbody.temps_le
      rw [hranges.temps_eq, Context.temps_withTemps] at ih hle
      -- The first temporary is the clause's own one, and those after it are left to the body.
      have hresult : IsTempIn _ _ (tempName _) := ⟨_, Nat.le_refl _, hle, rfl⟩
      simp only [Stmt.assignedOfAll, hset, Stmt.assignedOfAll_append, List.forall_mem_append,
        List.forall_mem_singleton, Loop.forall_assigned_nest, List.append_nil,
        Clause.binders_forAll]
      refine ⟨.inr hresult, fun x hx => ?_, fun x hx => ?_, .inr hresult⟩
      · exact .inl (List.mem_append_left _ (hranges.var_mem x hx))
      · exact (ih x hx).imp (List.mem_append_right _)
          fun h => h.mono (Nat.le_succ _) (Nat.le_refl _)
  | forAllTests _ hranges hbody ih =>
      have hle := hbody.temps_le
      rw [hranges.temps_eq, Context.temps_withTemps] at ih hle
      have hresult : IsTempIn _ _ (tempName _) := ⟨_, Nat.le_refl _, Nat.lt_of_succ_lt hle, rfl⟩
      have hlist : IsTempIn _ _ (tempName _) := ⟨_, Nat.le_succ _, hle, rfl⟩
      simp only [Stmt.assignedOfAll, hset, Stmt.assigned, Stmt.assignedOfAll_append,
        List.forall_mem_append, List.forall_mem_singleton, Loop.forall_assigned_nest,
        List.append_nil, Clause.binders_forAll]
      refine ⟨⟨.inr hlist, fun x hx => ?_, fun x hx => ?_, .inr hlist⟩, .inr hresult⟩
      · exact .inl (List.mem_append_left _ (hranges.var_mem x hx))
      · exact (ih x hx).imp (List.mem_append_right _)
          fun h => h.mono (Nat.le_add_right _ 2) (Nat.le_refl _)
  | letIn _ _ ih =>
      rw [Context.temps_declare, Context.temps_push] at ih
      simp only [Stmt.assignedOfAll, hset, List.forall_mem_append, List.forall_mem_singleton,
        Clause.binders_letIn]
      refine ⟨.inl List.mem_cons_self, fun x hx => (ih x hx).imp_left fun h => ?_⟩
      exact List.mem_cons_of_mem _ (List.mem_append_right _ h)
  | membershipList | membershipMap | compare => exact List.forall_mem_nil _
  | approx =>
      refine List.forall_mem_singleton.2 (.inr ⟨_, Nat.le_refl _, ?_, rfl⟩)
      exact Nat.lt_add_of_pos_right Nat.zero_lt_two
  | probability _ hbody _ ih =>
      have hle := hbody.temps_le
      have hcount : IsTempIn _ _ (tempName _) := ⟨_, Nat.le_refl _, Nat.lt_of_succ_lt hle, rfl⟩
      have hindex : IsTempIn _ _ (tempName _) := ⟨_, Nat.le_succ _, hle, rfl⟩
      simp only [Stmt.assignedOfAll, hset, Stmt.assigned, Stmt.assignedOfAll_append,
        List.forall_mem_append, List.forall_mem_singleton, List.forall_mem_cons,
        List.append_nil, Clause.binders_compare, Term.binders_probability]
      refine ⟨.inr hcount, .inr hindex, fun x hx => ?_, .inr hcount⟩
      exact (ih x hx).imp (List.mem_append_left _)
        fun h => h.mono (Nat.le_add_right _ 2) (Nat.le_refl _)
  | probabilityOverItems _ hranges hbody _ ih =>
      have hle := hbody.temps_le
      rw [hranges.temps_eq, Context.temps_withTemps] at ih hle
      have hcount : IsTempIn _ _ (tempName _) := ⟨_, Nat.le_refl _, hle, rfl⟩
      simp only [Stmt.assignedOfAll, hset, Stmt.assigned, Stmt.assignedOfAll_append,
        List.forall_mem_append, List.forall_mem_singleton, Loop.forall_assigned_nest,
        List.append_nil, Clause.binders_compare, Term.binders_probabilityOverItems,
        List.append_assoc]
      refine ⟨.inr hcount, fun x hx => ?_, fun x hx => ?_, .inr hcount⟩
      · exact .inl (List.mem_append_left _ (hranges.var_mem x hx))
      · exact (ih x hx).imp (fun h => List.mem_append_right _ (List.mem_append_left _ h))
          fun h => h.mono (Nat.le_succ _) (Nat.le_refl _)
  | expectation =>
      exact List.forall_mem_singleton.2 (.inr ⟨_, Nat.le_refl _, Nat.lt_succ_self _, rfl⟩)
  | @expectationOverItems ctx _ _ _ _ _ _ _ _ _ _ _ _ hranges =>
      have hsamples : IsTempIn ctx.temps (ctx.temps + 2) (tempName ctx.temps) :=
        ⟨_, Nat.le_refl _, Nat.lt_add_of_pos_right Nat.zero_lt_two, rfl⟩
      have hresult : IsTempIn ctx.temps (ctx.temps + 2) (tempName (ctx.temps + 1)) :=
        ⟨_, Nat.le_succ _, Nat.lt_succ_self _, rfl⟩
      simp only [Stmt.assignedOfAll, hset, Stmt.assigned, Stmt.assignedOfAll_append,
        List.forall_mem_append, List.forall_mem_singleton, Loop.forall_assigned_nest,
        List.append_nil, Clause.binders_compare, Term.binders_expectationOverItems,
        List.append_assoc]
      refine ⟨.inr hsamples, ⟨fun x hx => ?_, .inr hsamples⟩, .inr hresult⟩
      exact .inl (List.mem_append_left _ (hranges.var_mem x hx))
  | logic hlhs hrhs ih₁ ih₂ =>
      rw [Stmt.assignedOfAll_append, List.forall_mem_append, Clause.binders_logic]
      constructor
      · exact fun x hx => (ih₁ x hx).imp (List.mem_append_left _)
          fun h => h.mono (Nat.le_refl _) hrhs.temps_le
      · exact fun x hx => (ih₂ x hx).imp (List.mem_append_right _)
          fun h => h.mono hlhs.temps_le (Nat.le_refl _)
  | not _ ih => exact ih

section Runs

variable {a b : List Stmt} {n : String} {code : Code} {σ σ' : Store V} {f : Flow}

/-- A run of two blocks is a run of the first and then of the second, if nothing leaves
the first. -/
theorem Stmt.exists_of_runAll_append (ha : ∀ s ∈ a, s.isBreak = false)
    (h : runAll I (a ++ b) σ = some (f, σ')) :
    ∃ σ₁, runAll I a σ = some (.next, σ₁) ∧ runAll I b σ₁ = some (f, σ') := by
  rw [← result_recordAll (a ++ b) [], recordAll_append, Recorded.result_bind,
    result_recordAll] at h
  obtain ⟨⟨g, σ₁⟩, hrun, h⟩ := Option.bind_eq_some_iff.1 h
  obtain rfl := flow_of_runAll ha hrun
  exact ⟨σ₁, hrun, by rw [← h, result_recordAll]⟩

theorem Stmt.exists_of_runAll_set (h : runAll I (set n code :: b) σ = some (f, σ')) :
    ∃ v, I.eval σ code = some v ∧ runAll I b (σ.set n v) = some (f, σ') := by
  cases hv : I.eval σ code with
  | none => simp [runAll, set, run, hv] at h
  | some v => exact ⟨v, rfl, by rw [← runAll_cons_of_next (run_set hv), h]⟩

/-- A run that ends by setting a variable has the value of its expression there. -/
theorem Stmt.exists_of_runAll_append_set (ha : ∀ s ∈ a, s.isBreak = false)
    (h : runAll I (a ++ [set n code]) σ = some (f, σ')) :
    ∃ σ₁ v, runAll I a σ = some (.next, σ₁) ∧ I.eval σ₁ code = some v ∧ σ' n = some v := by
  obtain ⟨σ₁, hrun, h⟩ := exists_of_runAll_append ha h
  obtain ⟨v, hv, h⟩ := exists_of_runAll_set h
  cases h
  exact ⟨σ₁, v, hrun, hv, Store.set_self σ₁ n v⟩

end Runs

end StatContract
