import StatContract.Proofs.Lowering.Emission

/-!
# The two modes of lowering

A clause is lowered for a truth value or for a p-value. The mode reaches the parts
that the verdict is put together from, and ends there: quantifiers and statistics
choose the mode of their body themselves. So the two modes write the same
statements, take the same temporaries and leave the same state, and only the
verdict is another. The one thing that probability mode can do less is a t-test
without equality, which has no p-value of its own.

The first half, `Clause.Emits.toBoolean`, takes a run in any mode to boolean mode.
The other half follows the same rules, and where it cannot follow them it ends in
the defect `Clause.IsOneSidedTest` describes.
-/

namespace StatContract

/-- The mode that a verdict answers. -/
def Verdict.mode : Verdict → Mode
  | boolean _ => .boolean
  | probability _ => .probability

@[simp] theorem Verdict.mode_ofCondition (mode : Mode) (condition : Code) :
    (Verdict.ofCondition mode condition).mode = mode := by
  cases mode <;> rfl

@[simp] theorem Target.mode_ofPValue (target : Target) (mode : Mode) (pvalue : Code) :
    (target.ofPValue mode pvalue).mode = mode := by
  cases mode <;> rfl

@[simp] theorem Verdict.mode_ofLogic (mode : Mode) (op : LogicOp) (a b : Verdict) :
    (Verdict.ofLogic mode op a b).mode = mode := by
  cases mode <;> cases op <;> rfl

@[simp] theorem Verdict.mode_ofNot (mode : Mode) (v : Verdict) :
    (Verdict.ofNot mode v).mode = mode := by
  cases mode <;> rfl

theorem Target.mode_tTestVerdict {target : Target} {result : String} {op : CmpOp} {mode : Mode}
    {v : Verdict} (h : target.tTestVerdict? result op mode = some v) : v.mode = mode := by
  cases mode <;> cases op <;> cases h <;> rfl

theorem Verdict.exists_eq_boolean {v : Verdict} (h : v.mode = .boolean) : ∃ b, v = .boolean b := by
  cases v with
  | boolean b => exact ⟨b, rfl⟩
  | probability _ => cases h

theorem Verdict.exists_eq_probability {v : Verdict} (h : v.mode = .probability) :
    ∃ p, v = .probability p := by
  cases v with
  | boolean _ => cases h
  | probability p => exact ⟨p, rfl⟩

/-- A t-test that has a verdict in some mode has one in boolean mode. -/
theorem Target.tTestVerdict_boolean {target : Target} {result : String} {op : CmpOp} {mode : Mode}
    {v : Verdict} (h : target.tTestVerdict? result op mode = some v) :
    ∃ w, target.tTestVerdict? result op .boolean = some w := by
  cases mode with
  | boolean => exact ⟨v, h⟩
  | probability =>
      cases op with
      | eq => exact ⟨_, rfl⟩
      | _ => cases h

/-- The verdict answers the mode of the clause. -/
theorem Clause.Emits.mode_verdict {target : Target} {ctx : Context} {c : Clause} {mode : Mode}
    {stmts : List Stmt} {v : Verdict} {k : Nat} (h : c.Emits target ctx mode stmts v k) :
    v.mode = mode := by
  induction h with
  | letIn _ _ ih => exact ih
  | expectation _ _ hverdict | expectationOverItems _ _ _ hverdict =>
      exact Target.mode_tTestVerdict hverdict
  | _ => simp

/-- What is written in some mode is written in boolean mode. -/
theorem Clause.Emits.toBoolean {target : Target} {ctx : Context} {c : Clause} {mode : Mode}
    {stmts : List Stmt} {v : Verdict} {k : Nat} (h : c.Emits target ctx mode stmts v k) :
    ∃ w, c.Emits target ctx .boolean stmts w k := by
  induction h with
  | forAll hdomain hranges hbody _ => exact ⟨_, .forAll hdomain hranges hbody⟩
  | forAllTests hdomain hranges hbody _ => exact ⟨_, .forAllTests hdomain hranges hbody⟩
  | letIn hvalue _ ih =>
      obtain ⟨w, hw⟩ := ih
      exact ⟨w, .letIn hvalue hw⟩
  | membershipList hitem hitemTy hcollection hty =>
      exact ⟨_, .membershipList hitem hitemTy hcollection hty⟩
  | membershipMap hitem hitemTy hcollection hty =>
      exact ⟨_, .membershipMap hitem hitemTy hcollection hty⟩
  | approx hlhs hrhs => exact ⟨_, .approx hlhs hrhs⟩
  | probability halternative hbody hrhs _ => exact ⟨_, .probability halternative hbody hrhs⟩
  | probabilityOverItems halternative hranges hbody hrhs _ =>
      exact ⟨_, .probabilityOverItems halternative hranges hbody hrhs⟩
  | expectation hbody hrhs hverdict =>
      obtain ⟨w, hw⟩ := Target.tTestVerdict_boolean hverdict
      exact ⟨w, .expectation hbody hrhs hw⟩
  | expectationOverItems hranges hbody hrhs hverdict =>
      obtain ⟨w, hw⟩ := Target.tTestVerdict_boolean hverdict
      exact ⟨w, .expectationOverItems hranges hbody hrhs hw⟩
  | compare hplain hlhs hrhs => exact ⟨_, .compare hplain hlhs hrhs⟩
  | logic _ _ ih₁ ih₂ =>
      obtain ⟨a, ha⟩ := ih₁
      obtain ⟨b, hb⟩ := ih₂
      exact ⟨_, .logic ha hb⟩
  | not _ ih =>
      obtain ⟨w, hw⟩ := ih
      exact ⟨_, .not hw⟩

/-- The parts that a verdict is put together from. They are lowered in the mode of
the clause. -/
def Clause.verdictParts : Clause → List Clause
  | .letIn _ _ _ body => body.verdictParts
  | .logic _ lhs _ rhs => lhs.verdictParts ++ rhs.verdictParts
  | .not _ inner => inner.verdictParts
  | c => [c]

/-- Whether the term is an expectation. -/
def Term.isExpectation : Term → Bool
  | expectation .. | expectationOverItems .. => true
  | _ => false

/-- The defect is that of a t-test without equality among the parts of the
verdict. -/
def Clause.IsOneSidedTest (c : Clause) (e : SpecError) : Prop :=
  ∃ span lhs op rhs, .compare span lhs op rhs ∈ c.verdictParts ∧ lhs.isExpectation = true ∧
    op ≠ .eq ∧
    e = .unsupportedTest op .twoSidedTTest (Clause.compare span lhs op rhs).text span

/-- In the surroundings, probability mode ends in the defect. -/
def Clause.Refuses (target : Target) (ctx : Context) (c : Clause) (e : SpecError) : Prop :=
  ∀ state : Context, state.bare = ctx →
    ∃ state', (c.lower target .probability).exec state = (.error e, state')

open Lower

theorem Lower.exec_bind_of_error {α β : Type} {x : Lower α} {e : SpecError} {ctx ctx' : Context}
    (h : x.exec ctx = (.error e, ctx')) (f : α → Lower β) :
    (x >>= f).exec ctx = (.error e, ctx') := by
  rw [exec_bind, h]

/-- A t-test without equality ends in its defect. -/
theorem Lower.exec_tTest_of_ne_eq (target : Target) (clause : Clause) (samples expected : Code)
    {op : CmpOp} (hop : op ≠ .eq) (ctx : Context) :
    ∃ ctx', (tTest target clause samples expected op .probability).exec ctx =
      (.error (.unsupportedTest op .twoSidedTTest clause.text clause.span), ctx') := by
  cases op with
  | eq => exact absurd rfl hop
  | _ => exact ⟨_, rfl⟩

namespace Clause.Refuses

variable {target : Target} {ctx : Context} {span : Span} {e : SpecError}

theorem letIn {name : String} {value : Term} {body : Clause} {v : Code}
    (hvalue : value.lower ctx = .ok v) (h : body.Refuses target (ctx.push.declare name) e) :
    (Clause.letIn span name value body).Refuses target ctx e := by
  rintro state rfl
  obtain ⟨state', hbody⟩ := h ((state.emit (.set name v)).push.declare name) (by simp; rfl)
  refine ⟨state'.pop, ?_⟩
  rw [Clause.lower, exec_bind_of_ok (exec_term_of_ok (by simpa using hvalue)),
    exec_bind_of_ok (exec_emit _ _), exec_withName, hbody]

theorem logicLeft {lhs rhs : Clause} {op : LogicOp} (h : lhs.Refuses target ctx e) :
    (Clause.logic span lhs op rhs).Refuses target ctx e := by
  intro state hstate
  obtain ⟨state', hlhs⟩ := h state hstate
  exact ⟨state', by rw [Clause.lower_logic, exec_bind_of_error hlhs]⟩

theorem logicRight {lhs rhs : Clause} {op : LogicOp} {stmts : List Stmt} {a : Verdict} {k : Nat}
    (hlhs : lhs.Emits target ctx .probability stmts a k)
    (h : rhs.Refuses target (ctx.withTemps k) e) :
    (Clause.logic span lhs op rhs).Refuses target ctx e := by
  rintro state rfl
  have hlower := (Clause.exec_lower_eq_ok_iff target lhs _ a state _).2 ⟨stmts, k, hlhs, rfl⟩
  obtain ⟨state', hrhs⟩ := h (state.extend k stmts) rfl
  exact ⟨state', by rw [Clause.lower_logic, exec_bind_of_ok hlower, exec_bind_of_error hrhs]⟩

theorem not {inner : Clause} (h : inner.Refuses target ctx e) :
    (Clause.not span inner).Refuses target ctx e := by
  intro state hstate
  obtain ⟨state', hinner⟩ := h state hstate
  exact ⟨state', by rw [Clause.lower_not, exec_bind_of_error hinner]⟩

theorem expectation {note : Note} {trials : Trials} {body rhs : Term} {op : CmpOp}
    {expected : Code} (hbody : body.isIdentifier outputName = true)
    (hrhs : rhs.lower ctx = .ok expected) (hop : op ≠ .eq) :
    (Clause.compare span (.expectation note trials body) op rhs).Refuses target ctx
      (.unsupportedTest op .twoSidedTTest
        (Clause.compare span (.expectation note trials body) op rhs).text span) := by
  rintro state rfl
  rw [Clause.lower, if_pos hbody, exec_bind_of_ok (exec_term_of_ok (by simpa using hrhs))]
  exact exec_tTest_of_ne_eq _ _ _ _ hop _

theorem expectationOverItems {inner : Context} {note : Note} {ranges : List Range}
    {body rhs : Term} {op : CmpOp} {loops : List Loop} {value expected : Code}
    (hranges : Range.Opens (ctx.withTemps (ctx.temps + 1)).push ranges loops inner)
    (hbody : body.lower inner = .ok value) (hrhs : rhs.lower ctx = .ok expected)
    (hop : op ≠ .eq) :
    (Clause.compare span (.expectationOverItems note ranges body) op rhs).Refuses target ctx
      (.unsupportedTest op .twoSidedTTest
        (Clause.compare span (.expectationOverItems note ranges body) op rhs).text span) := by
  rintro state rfl
  have hopens : Range.Opens ((state.withTemps (state.temps + 1)).emit
      (.set (tempName state.temps) (.list []))).bare.push ranges loops inner := hranges
  rw [Clause.lower, exec_bind_of_ok (exec_fresh _), exec_bind_of_ok (exec_emit _ _),
    exec_loops_of_opens (writes_term body) hopens ⟨hbody, rfl, rfl⟩,
    exec_bind_of_ok (exec_term_of_ok (by simpa using hrhs))]
  exact exec_tTest_of_ne_eq _ _ _ _ hop _

end Clause.Refuses

/-- What is written in boolean mode is written in probability mode, unless a t-test
without equality is in the way. -/
theorem Clause.Emits.toProbability {target : Target} {ctx : Context} {c : Clause} {mode : Mode}
    {stmts : List Stmt} {v : Verdict} {k : Nat} (h : c.Emits target ctx mode stmts v k) :
    (∃ w, c.Emits target ctx .probability stmts w k) ∨
      ∃ e, c.IsOneSidedTest e ∧ c.Refuses target ctx e := by
  induction h with
  | forAll hdomain hranges hbody _ => exact .inl ⟨_, .forAll hdomain hranges hbody⟩
  | forAllTests hdomain hranges hbody _ => exact .inl ⟨_, .forAllTests hdomain hranges hbody⟩
  | letIn hvalue _ ih =>
      rcases ih with ⟨w, hw⟩ | ⟨e, he, hrefuses⟩
      · exact .inl ⟨w, .letIn hvalue hw⟩
      · exact .inr ⟨e, he, .letIn hvalue hrefuses⟩
  | membershipList hitem hitemTy hcollection hty =>
      exact .inl ⟨_, .membershipList hitem hitemTy hcollection hty⟩
  | membershipMap hitem hitemTy hcollection hty =>
      exact .inl ⟨_, .membershipMap hitem hitemTy hcollection hty⟩
  | approx hlhs hrhs => exact .inl ⟨_, .approx hlhs hrhs⟩
  | probability halternative hbody hrhs _ => exact .inl ⟨_, .probability halternative hbody hrhs⟩
  | probabilityOverItems halternative hranges hbody hrhs _ =>
      exact .inl ⟨_, .probabilityOverItems halternative hranges hbody hrhs⟩
  | @expectation _ span _ _ _ op rhs _ _ _ hbody hrhs _ =>
      by_cases hop : op = .eq
      · subst hop
        exact .inl ⟨_, .expectation hbody hrhs rfl⟩
      · refine .inr ⟨_, ⟨span, _, op, rhs, List.mem_singleton_self _, rfl, hop, rfl⟩, ?_⟩
        exact .expectation hbody hrhs hop
  | @expectationOverItems _ _ span _ _ _ op rhs _ _ _ _ _ hranges hbody hrhs _ =>
      by_cases hop : op = .eq
      · subst hop
        exact .inl ⟨_, .expectationOverItems hranges hbody hrhs rfl⟩
      · refine .inr ⟨_, ⟨span, _, op, rhs, List.mem_singleton_self _, rfl, hop, rfl⟩, ?_⟩
        exact .expectationOverItems hranges hbody hrhs hop
  | compare hplain hlhs hrhs => exact .inl ⟨_, .compare hplain hlhs hrhs⟩
  | logic _ _ ih₁ ih₂ =>
      -- The right operand starts from the state that the left one leaves in either mode.
      rcases ih₁ with ⟨a, ha⟩ | ⟨e, ⟨span, lhs, op, rhs, hmem, he⟩, hrefuses⟩
      · rcases ih₂ with ⟨b, hb⟩ | ⟨e, ⟨span, lhs, op, rhs, hmem, he⟩, hrefuses⟩
        · exact .inl ⟨_, .logic ha hb⟩
        · exact .inr ⟨e, ⟨span, lhs, op, rhs, List.mem_append_right _ hmem, he⟩,
            .logicRight ha hrefuses⟩
      · exact .inr ⟨e, ⟨span, lhs, op, rhs, List.mem_append_left _ hmem, he⟩,
          .logicLeft hrefuses⟩
  | not _ ih =>
      rcases ih with ⟨w, hw⟩ | ⟨e, he, hrefuses⟩
      · exact .inl ⟨_, .not hw⟩
      · exact .inr ⟨e, he, .not hrefuses⟩

/-- The two modes differ in the verdict only. A clause that is lowered to a p-value
is lowered to a truth value as well, and the state afterwards is the same. A clause
that is lowered to a truth value is lowered to a p-value with the same state, or it
has a t-test without equality among the parts of its verdict, and that is the defect
reported. -/
theorem Clause.lower_modes_agree (target : Target) (c : Clause) (ctx : Context) :
    (∀ v ctx', (c.lower target .probability).exec ctx = (.ok v, ctx') →
      (∃ p, v = .probability p) ∧
      ∃ b, (c.lower target .boolean).exec ctx = (.ok (.boolean b), ctx')) ∧
    ∀ v ctx', (c.lower target .boolean).exec ctx = (.ok v, ctx') →
      (∃ b, v = .boolean b) ∧
      ((∃ p, (c.lower target .probability).exec ctx = (.ok (.probability p), ctx')) ∨
        ∃ e ctx'', (c.lower target .probability).exec ctx = (.error e, ctx'') ∧
          ∃ span lhs op rhs, .compare span lhs op rhs ∈ c.verdictParts ∧
            lhs.isExpectation = true ∧ op ≠ .eq ∧
            e = .unsupportedTest op .twoSidedTTest (Clause.compare span lhs op rhs).text span) := by
  constructor
  · intro v ctx' hlower
    obtain ⟨stmts, k, hemits, rfl⟩ := (exec_lower_eq_ok_iff target c _ v ctx ctx').1 hlower
    obtain ⟨w, hw⟩ := hemits.toBoolean
    obtain ⟨b, rfl⟩ := Verdict.exists_eq_boolean hw.mode_verdict
    exact ⟨Verdict.exists_eq_probability hemits.mode_verdict, b,
      (exec_lower_eq_ok_iff target c _ _ ctx _).2 ⟨stmts, k, hw, rfl⟩⟩
  · intro v ctx' hlower
    obtain ⟨stmts, k, hemits, rfl⟩ := (exec_lower_eq_ok_iff target c _ v ctx ctx').1 hlower
    refine ⟨Verdict.exists_eq_boolean hemits.mode_verdict, ?_⟩
    rcases hemits.toProbability with ⟨w, hw⟩ | ⟨e, he, hrefuses⟩
    · obtain ⟨p, rfl⟩ := Verdict.exists_eq_probability hw.mode_verdict
      exact .inl ⟨p, (exec_lower_eq_ok_iff target c _ _ ctx _).2 ⟨stmts, k, hw, rfl⟩⟩
    · obtain ⟨ctx'', herror⟩ := hrefuses ctx rfl
      exact .inr ⟨e, ctx'', herror, he⟩

/-- The mean of the output compared with a number, inside a let and a negation. -/
def meanBound (op : CmpOp) : Clause :=
  .letIn .dummy "bound" (.constant {} "10")
    (.not .dummy (.compare .dummy (.expectation {} .runs (.identifier {} "Output")) op
      (.identifier {} "bound")))

/-- With equality both modes go through, and without it only one. -/
theorem Clause.lower_modes_agree_meanBound :
    (∃ p b ctx', ((meanBound .eq).lower {} .probability).exec (Context.start ["Output"]) =
        (.ok (.probability p), ctx') ∧
      ((meanBound .eq).lower {} .boolean).exec (Context.start ["Output"]) =
        (.ok (.boolean b), ctx')) ∧
    ∃ e ctx'', ((meanBound .le).lower {} .probability).exec (Context.start ["Output"]) =
        (.error e, ctx'') ∧
      ∃ span lhs op rhs, .compare span lhs op rhs ∈ (meanBound .le).verdictParts ∧
        lhs.isExpectation = true ∧ op ≠ .eq ∧
        e = .unsupportedTest op .twoSidedTTest (Clause.compare span lhs op rhs).text span := by
  constructor
  · have hprobability : ((meanBound .eq).lower {} .probability).exec (Context.start ["Output"]) =
        (.ok _, _) := rfl
    obtain ⟨⟨p, hp⟩, b, hboolean⟩ := (lower_modes_agree {} _ _).1 _ _ hprobability
    rw [hp] at hprobability
    exact ⟨p, b, _, hprobability, hboolean⟩
  · have hboolean : ((meanBound .le).lower {} .boolean).exec (Context.start ["Output"]) =
        (.ok _, _) := rfl
    obtain ⟨-, ⟨p, hp⟩ | herror⟩ := (lower_modes_agree {} _ _).2 _ _ hboolean
    · cases hp
    · exact herror

end StatContract
