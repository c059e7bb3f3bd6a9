import StatContract.Proofs.Code.Evaluation
import StatContract.Proofs.Lowering.Frame
import StatContract.Proofs.Lowering.Modes
import StatContract.Proofs.Spec.Trials

/-!
# P-values of lowered clauses

In probability mode the verdict of a clause is a p-value, and a quantifier over
tests collects the p-values of its instances in a list. All of these are numbers
between zero and one, and for a clause without tests the verdict is one or zero as
the clause holds or not.

The code relies on names outside of it, `min`, `max` and the module of the library,
and on temporaries that nothing else writes to. A let or a range can take both away
from it, since its name goes into the code as it is. `Clause.Spares` says that this
does not happen.
-/

namespace StatContract

variable {V : Type} {I : Interpretation V}

section Names

/-- The names outside the code that p-values are computed with. -/
def Library.outerNames (lib : Library) : List String := ["min", "max", lib.module]

/-- No variable hides one of the outer names. -/
def Library.Visible (lib : Library) (σ : Store V) : Prop := ∀ g ∈ lib.outerNames, σ g = none

/-- The names that a clause binds are neither among the temporaries that it is handed
nor among the outer names, and the module is no such temporary either. -/
structure Clause.Spares (c : Clause) (lib : Library) (first last : Nat) : Prop where
  temps : ∀ x ∈ c.binders, ¬ IsTempIn first last x
  outer : ∀ x ∈ c.binders, x ∉ lib.outerNames
  module : ¬ IsTempIn first last lib.module

theorem Clause.Spares.mono {c d : Clause} {lib : Library} {first first' last last' : Nat}
    (h : c.Spares lib first last) (hbinders : ∀ x ∈ d.binders, x ∈ c.binders)
    (hfirst : first ≤ first') (hlast : last' ≤ last) : d.Spares lib first' last' where
  temps := fun x hx htemp => h.temps x (hbinders x hx) (htemp.mono hfirst hlast)
  outer := fun x hx => h.outer x (hbinders x hx)
  module := fun htemp => h.module (htemp.mono hfirst hlast)

/-- An outer name is no temporary, the module aside. -/
theorem Clause.Spares.not_isTempIn {c : Clause} {lib : Library} {first last : Nat}
    (h : c.Spares lib first last) : ∀ g ∈ lib.outerNames, ¬ IsTempIn first last g := by
  simp only [Library.outerNames, List.forall_mem_cons]
  exact ⟨not_isTempIn_of_head (by decide) _ _, not_isTempIn_of_head (by decide) _ _, h.module,
    List.forall_mem_nil _⟩

variable {target : Target} {ctx : Context} {c : Clause} {mode : Mode} {stmts : List Stmt}
  {verdict : Verdict} {k : Nat} {σ σ' : Store V} {f : Flow}

/-- The statements give no value to an outer name. -/
def Library.Untouched (lib : Library) (stmts : List Stmt) : Prop :=
  ∀ g ∈ lib.outerNames, g ∉ Stmt.assignedOfAll stmts

theorem Library.untouched_append_iff {lib : Library} {a b : List Stmt} :
    lib.Untouched (a ++ b) ↔ lib.Untouched a ∧ lib.Untouched b := by
  simp only [Untouched, Stmt.assignedOfAll_append, List.mem_append, not_or, imp_and, forall_and]

theorem Library.untouched_forIn_iff {lib : Library} {var : String} {source : Code}
    {body : List Stmt} :
    lib.Untouched [.forIn var source body] ↔ var ∉ lib.outerNames ∧ lib.Untouched body := by
  simp only [Untouched, Stmt.assignedOfAll, Stmt.assigned, List.append_nil, List.mem_cons, not_or,
    imp_and, forall_and]
  exact and_congr_left' ⟨fun h hvar => h var hvar rfl, fun h g hg heq => h (heq ▸ hg)⟩

/-- A clause that spares the outer names does not write to them. -/
theorem Clause.Emits.untouched (h : c.Emits target ctx mode stmts verdict k)
    (hspares : c.Spares target.library ctx.temps k) : target.library.Untouched stmts := by
  intro g hg hassigned
  rcases h.assigned_cases g hassigned with hbinder | htemp
  · exact hspares.outer g hbinder hg
  · exact hspares.not_isTempIn g hg htemp

theorem Library.Visible.of_runAll {lib : Library} (hσ : lib.Visible σ)
    (hstmts : lib.Untouched stmts) (hrun : Stmt.runAll I stmts σ = some (f, σ')) : lib.Visible σ' := by
  intro g hg
  rw [Stmt.eq_of_runAll (hstmts g hg) hrun, hσ g hg]

theorem Library.Visible.set {lib : Library} (hσ : lib.Visible σ) {x : String}
    (hx : x ∉ lib.outerNames) (v : V) : lib.Visible (σ.set x v) := by
  intro g hg
  have hne : g ≠ x := by
    rintro rfl
    exact hx hg
  rw [σ.set_of_ne v hne, hσ g hg]

end Names

section Verdicts

variable {ops : Operations V} {target : Target}

/-- The verdict of two p-values with a connective. -/
theorem Verdict.code_ofLogic_probability (op : LogicOp) (a b : Verdict) :
    (Verdict.ofLogic .probability op a b).code = .apply op.extremeName [a.code, b.code] := by
  cases op <;> rfl

theorem LogicOp.extremeName_mem (op : LogicOp) (lib : Library) :
    op.extremeName ∈ lib.outerNames := by
  cases op <;> simp [extremeName, Library.outerNames]

/-- When the last statement of a clause sets a temporary, its expression was evaluated
where the outer names were visible, and its value is still in the temporary. -/
theorem Clause.Emits.exists_of_last {ctx : Context} {c : Clause} {mode : Mode} {a : List Stmt}
    {r : String} {code : Code} {v : Verdict} {k : Nat}
    (h : c.Emits target ctx mode (a ++ [.set r code]) v k)
    (hspares : c.Spares target.library ctx.temps k) {σ σ' τ : Store V} {f : Flow}
    (hσ : target.library.Visible σ)
    (hrun : Stmt.runAll ops.interpretation (a ++ [.set r code]) σ = some (f, σ'))
    (hkept : ∀ x, IsTempIn ctx.temps k x → τ x = σ' x) (hr : IsTempIn ctx.temps k r) :
    ∃ σ₁ w, target.library.Visible σ₁ ∧ ops.eval code σ₁ = some w ∧ τ r = some w := by
  have hbreak : ∀ s ∈ a, s.isBreak = false := (List.forall_mem_append.1 h.isBreak_eq_false).1
  obtain ⟨σ₁, w, hrun₁, hw, hr'⟩ := Stmt.exists_of_runAll_append_set hbreak hrun
  have huntouched := (Library.untouched_append_iff.1 (h.untouched hspares)).1
  exact ⟨σ₁, w, hσ.of_runAll huntouched hrun₁, hw, (hkept r hr).trans hr'⟩

/-- The result of a t-test that is left in a variable holds a p-value. -/
theorem Operations.Weighs.tTest (htests : ops.TestsIn target.library) {σ τ : Store V} {r : String}
    {samples expected : Code} {w : V} {op : CmpOp} {v : Verdict}
    (hverdict : target.tTestVerdict? r op .probability = some v)
    (hσ : target.library.Visible σ)
    (hw : ops.eval (target.library.tTest samples expected) σ = some w) (hr : τ r = some w) :
    ops.Weighs τ v.code := by
  obtain ⟨args, hargs⟩ := exists_library_of_eval (hσ _ (by simp [Library.outerNames])) hw
  cases op with
  | eq =>
      cases hverdict
      exact .item hr (htests.tTest hargs)
  | _ => cases hverdict

/-- After the statements of a clause, its verdict in probability mode is a p-value, and it
stays one as long as the temporaries of the clause keep their values. -/
theorem Clause.Emits.weighs (hcounts : ops.Counts) (htests : ops.TestsIn target.library)
    {ctx : Context} {c : Clause} {mode : Mode} {stmts : List Stmt} {v : Verdict} {k : Nat}
    (h : c.Emits target ctx mode stmts v k) (hmode : mode = .probability)
    (hspares : c.Spares target.library ctx.temps k) {σ σ' τ : Store V} {f : Flow}
    (hσ : target.library.Visible σ)
    (hrun : Stmt.runAll ops.interpretation stmts σ = some (f, σ'))
    (hτ : target.library.Visible τ)
    (hkept : ∀ x, IsTempIn ctx.temps k x → τ x = σ' x) : ops.Weighs τ v.code := by
  have hmodule : τ target.library.module = none := hτ _ (by simp [Library.outerNames])
  induction h generalizing σ σ' f with
  | forAll | membershipList | membershipMap | compare =>
      subst hmode
      exact .indicator hcounts _
  | @forAllTests ctx _ span ranges body _ _ _ _ k hdomain hranges hbody _ =>
      subst hmode
      have hle := hbody.temps_le
      rw [hranges.temps_eq, Context.temps_withTemps] at hle
      -- The combined p-value is what the last statement assigns.
      have hemits : (Clause.forAll span ranges body).Emits target ctx .probability _ _ k :=
        .forAllTests hdomain hranges hbody
      obtain ⟨σ₁, w, hσ₁, hw, hr⟩ := hemits.exists_of_last hspares hσ hrun hkept
        ⟨_, le_rfl, Nat.lt_of_succ_lt hle, rfl⟩
      exact .name hr (Operations.isEvidence_of_combinePValues htests
        (hσ₁ _ (by simp [Library.outerNames])) hw)
  | letIn hvalue hbody ih =>
      rw [Context.temps_declare, Context.temps_push] at ih
      obtain ⟨w, hw, hrun⟩ := Stmt.exists_of_runAll_set hrun
      exact ih hmode (hspares.mono (fun x hx => by simp [hx]) le_rfl le_rfl)
        (hσ.set (hspares.outer _ (by simp)) w) hrun hkept
  | approx =>
      subst hmode
      exact .wilcoxon htests hmodule _
  | probability | probabilityOverItems =>
      subst hmode
      exact .binomialTest htests hmodule _ _ _ _
  | @expectation ctx span note trials body op rhs _ _ _ hbody hrhs hverdict =>
      subst hmode
      have hemits : (Clause.compare span (.expectation note trials body) op rhs).Emits target ctx
        .probability ([] ++ [_]) _ _ := .expectation hbody hrhs hverdict
      obtain ⟨σ₁, w, hσ₁, hw, hr⟩ := hemits.exists_of_last hspares hσ hrun hkept
        ⟨_, le_rfl, Nat.lt_succ_self _, rfl⟩
      exact .tTest htests hverdict hσ₁ hw hr
  | @expectationOverItems ctx _ span note ranges body op rhs _ _ _ _ _ hranges hbody hrhs hverdict =>
      subst hmode
      have hemits : (Clause.compare span (.expectationOverItems note ranges body) op rhs).Emits
        target ctx .probability _ _ _ := .expectationOverItems hranges hbody hrhs hverdict
      obtain ⟨σ₁, w, hσ₁, hw, hr⟩ := hemits.exists_of_last hspares hσ hrun hkept
        ⟨_, Nat.le_succ _, Nat.lt_succ_self _, rfl⟩
      exact .tTest htests hverdict hσ₁ hw hr
  | @logic ctx span lhs op rhs _ stmts₁ a k₁ stmts₂ b k₂ hlhs hrhs ih₁ ih₂ =>
      subst hmode
      have hspares₁ : lhs.Spares target.library ctx.temps k₁ :=
        hspares.mono (fun x hx => by simp [hx]) le_rfl hrhs.temps_le
      have hspares₂ : rhs.Spares target.library k₁ k₂ :=
        hspares.mono (fun x hx => by simp [hx]) hlhs.temps_le le_rfl
      obtain ⟨σ₁, hrun₁, hrun₂⟩ := Stmt.exists_of_runAll_append hlhs.isBreak_eq_false hrun
      have hσ₁ := hσ.of_runAll (hlhs.untouched hspares₁) hrun₁
      -- The statements of the right operand leave the temporaries of the left one alone.
      have hkept₁ : ∀ x, IsTempIn ctx.temps k₁ x → τ x = σ₁ x := by
        intro x hx
        rw [hkept x (hx.mono le_rfl hrhs.temps_le)]
        refine Stmt.eq_of_runAll (fun hassigned => ?_) hrun₂
        rcases hrhs.assigned_cases x hassigned with hbinder | htemp
        · exact hspares.temps x (by simp [hbinder]) (hx.mono le_rfl hrhs.temps_le)
        · exact hx.not_later le_rfl htemp
      rw [Verdict.code_ofLogic_probability]
      refine .extreme hcounts (hτ _ (op.extremeName_mem _)) ?_ ?_
      · exact ih₁ rfl hspares₁ hσ hrun₁ hkept₁
      · exact ih₂ rfl hspares₂ hσ₁ hrun₂ fun x hx => hkept x (hx.mono hlhs.temps_le le_rfl)
  | not _ ih =>
      subst hmode
      exact .complement hcounts
        (ih rfl (hspares.mono (fun x hx => hx) le_rfl le_rfl) hσ hrun hkept)

end Verdicts

section Lists

/-- The variable whose list is combined into one p-value, if the expression does
that. -/
def Code.combined? : Code → Option String
  | .item (.call (.attr _ f) [.name n]) _ => if f = "combine_pvalues" then some n else none
  | _ => none

/-- In a term, a method of a value is called with two arguments, and never with one. -/
theorem Term.lower_ne_method {ctx : Context} : ∀ {t : Term} {c : Code}, t.lower ctx = .ok c →
    (∀ object f arg, c ≠ .call (.attr object f) [arg]) ∧
      ∀ object f arg key, c ≠ .item (.call (.attr object f) [arg]) key
  | .constant .., _, h => by
      cases h
      simp
  | .probability .., _, h | .probabilityOverItems .., _, h | .expectation .., _, h
  | .expectationOverItems .., _, h => by cases h
  | .identifier _ name, _, h => by
      cases h
      cases ctx.resolve name <;> simp [Reference.code, Code.entry]
  | .lookup _ collection key, _, h => by
      rw [Term.lower] at h
      obtain ⟨c, hc, h⟩ := except_bind_eq_ok_iff.1 h
      obtain ⟨k, -, h⟩ := except_bind_eq_ok_iff.1 h
      obtain ⟨ty, -, h⟩ := except_bind_eq_ok_iff.1 h
      have hcollection := (Term.lower_ne_method hc).1
      cases ty <;> cases h
      · simpa using hcollection
      · simp [Code.getOrZero]
  | .tuple .., _, h | .sizeOf .., _, h | .call .., _, h => by
      rw [Term.lower] at h
      obtain ⟨c, -, h⟩ := except_bind_eq_ok_iff.1 h
      cases h
      simp [Code.len, Code.apply]
  | .binary .., _, h => by
      obtain ⟨a, b, -, -, rfl | ⟨f, rfl⟩⟩ := Term.exists_of_lower_binary h
      · simp [Code.group]
      · simp [Code.apply]

/-- Terms combine nothing. -/
theorem Term.combined?_lower {ctx : Context} {t : Term} {c : Code} (h : t.lower ctx = .ok c) :
    c.combined? = none := by
  unfold Code.combined?
  split
  · next object f n key => exact absurd rfl ((Term.lower_ne_method h).2 object f (.name n) key)
  · rfl

namespace Stmt

mutual

/-- The variables whose lists are combined into one p-value. -/
def pvalueLists : Stmt → List String
  | assign _ value => value.combined?.toList
  | forIn _ _ body => pvalueListsOfAll body
  | _ => []

def pvalueListsOfAll : List Stmt → List String
  | [] => []
  | s :: rest => s.pvalueLists ++ pvalueListsOfAll rest

end

@[simp] theorem pvalueListsOfAll_append (a b : List Stmt) :
    pvalueListsOfAll (a ++ b) = pvalueListsOfAll a ++ pvalueListsOfAll b := by
  induction a with
  | nil => rfl
  | cons s a ih =>
      rw [List.cons_append, pvalueListsOfAll, pvalueListsOfAll, ih, List.append_assoc]

end Stmt

@[simp] theorem Loop.pvalueLists_nest (condition : Option String) (loops : List Loop)
    (body : List Stmt) :
    Stmt.pvalueListsOfAll (nest condition loops body) = Stmt.pvalueListsOfAll body := by
  induction loops with
  | nil => rfl
  | cons loop loops ih =>
      cases condition <;> simp [nest, Stmt.pvalueListsOfAll, Stmt.pvalueLists, ih]

/-- Loops combine what their body combines, if the statements around the body of a
quantifier or of a statistic combine nothing. -/
theorem Loop.pvalueLists_set_nest {n : String} {c : Code} (hc : c.combined? = none)
    {last : Stmt} (hlast : last.pvalueLists = []) (condition : Option String)
    (loops : List Loop) (body : List Stmt) :
    Stmt.pvalueListsOfAll (.set n c :: nest condition loops (body ++ [last])) =
      Stmt.pvalueListsOfAll body := by
  simp [Stmt.pvalueListsOfAll, Stmt.set, Stmt.pvalueLists, hc, hlast]

end Lists

section Additions

open Recorded

/-- Whatever the block adds to a list is as `Q` says, if no variable hides an outer
name. -/
def Stmt.Adds (I : Interpretation V) (lib : Library) (b : List Stmt) (Q : String → V → Prop) :
    Prop :=
  ∀ ⦃σ⦄, lib.Visible σ → ∀ ⦃place p n v⦄, .append p n v ∈ (recordAll I b place σ).moves → Q n v

namespace Stmt.Adds

variable {lib : Library} {Q Q' : String → V → Prop} {a b : List Stmt} {n : String} {code : Code}

theorem mono (h : Adds I lib b Q) (hQ : ∀ n v, Q n v → Q' n v) : Adds I lib b Q' :=
  fun _ hσ _ _ n v hm => hQ n v (h hσ hm)

theorem nil : Adds I lib [] Q := by
  intro σ _ place p n v hm
  cases hm

theorem set : Adds I lib [.set n code] Q := by
  intro σ _ place p x v hm
  rw [recordAll_singleton, Stmt.set, record] at hm
  simp only [mem_moves_bind_iff, moves_lift, moves_note, moves_pure, List.not_mem_nil, or_false,
    and_false, exists_const, exists_false, List.mem_singleton, reduceCtorEq] at hm

theorem update {op : ArithOp} : Adds I lib [.update (.name n) op code] Q := by
  intro σ _ place p x v hm
  rw [recordAll_singleton, record] at hm
  simp only [mem_moves_bind_iff, moves_lift, moves_note, moves_pure, List.not_mem_nil, or_false,
    and_false, exists_const, exists_false, List.mem_singleton, reduceCtorEq] at hm

theorem breakUnless : Adds I lib [.breakUnless code] Q := by
  intro σ _ place p x v hm
  rw [recordAll_singleton, record, mem_moves_bind_iff] at hm
  rcases hm with hm | ⟨w, -, hm⟩
  · cases hm
  · split at hm
    · cases hm
    · cases List.mem_singleton.1 hm

theorem append (ha : Adds I lib a Q) (huntouched : lib.Untouched a) (hb : Adds I lib b Q) :
    Adds I lib (a ++ b) Q := by
  intro σ hσ place p x v hm
  rw [recordAll_append] at hm
  rcases mem_moves_bind_iff.1 hm with hm | ⟨⟨f, σ'⟩, hrun, hm⟩
  · exact ha hσ hm
  · rw [result_recordAll] at hrun
    cases f with
    | next => exact hb (hσ.of_runAll huntouched hrun) hm
    | leave => cases hm

/-- A block that ends by adding an element adds the value it has then. -/
theorem element (ha : Adds I lib a Q)
    (h : ∀ {σ σ' v}, lib.Visible σ → runAll I a σ = some (.next, σ') →
      I.eval σ' code = some v → Q n v) : Adds I lib (a ++ [.append (.name n) code]) Q := by
  intro σ hσ place p x v hm
  rw [recordAll_append] at hm
  rcases mem_moves_bind_iff.1 hm with hm | ⟨⟨f, σ'⟩, hrun, hm⟩
  · exact ha hσ hm
  · rw [result_recordAll] at hrun
    cases f with
    | next =>
        simp only [recordAll_singleton, record, mem_moves_bind_iff, moves_lift, moves_note,
          moves_pure, result_lift, List.not_mem_nil, false_or, or_false, and_false, exists_const,
          List.mem_singleton] at hm
        obtain ⟨old, -, w, hw, list, -, hmove⟩ := hm
        cases hmove
        exact h hσ hrun hw
    | leave => cases hm

/-- A loop adds what its body adds. -/
theorem forIn {var : String} {source : Code} (hb : Adds I lib b Q)
    (huntouched : lib.Untouched [.forIn var source b]) :
    Adds I lib [.forIn var source b] Q := by
  obtain ⟨hvar, hbody⟩ := Library.untouched_forIn_iff.1 huntouched
  intro σ hσ place p x v hm
  rw [recordAll_singleton, record] at hm
  simp only [mem_moves_bind_iff, moves_lift, moves_pure, List.not_mem_nil, false_or, and_false,
    exists_const, or_false] at hm
  obtain ⟨w, -, items, -, hm⟩ := hm
  -- The outer names are visible before each turn.
  induction items generalizing σ with
  | nil => cases hm
  | cons u items ih =>
      simp only [recordLoop, mem_moves_bind_iff, moves_note, List.mem_singleton, reduceCtorEq,
        false_or] at hm
      obtain ⟨-, -, hm | ⟨⟨_ | _, σ'⟩, hrun, hm⟩⟩ := hm
      · exact hb (hσ.set hvar u) hm
      · rw [result_recordAll] at hrun
        exact ih ((hσ.set hvar u).of_runAll hbody hrun) hm
      · cases hm

theorem nest {condition : Option String} {loops : List Loop} (hb : Adds I lib b Q)
    (huntouched : lib.Untouched (Loop.nest condition loops b)) :
    Adds I lib (Loop.nest condition loops b) Q := by
  induction loops with
  | nil => exact hb
  | cons loop loops ih =>
      have hbody := (Library.untouched_forIn_iff.1 huntouched).2
      have hinner := (Library.untouched_append_iff.1 hbody).1
      refine forIn ((ih hinner).append hinner ?_) huntouched
      cases condition with
      | none => exact nil
      | some name => exact breakUnless

/-- Loops add what their body adds, also with a variable set before them. -/
theorem set_nest {condition : Option String} {loops : List Loop} (hb : Adds I lib b Q)
    (huntouched : lib.Untouched (.set n code :: Loop.nest condition loops b)) :
    Adds I lib (.set n code :: Loop.nest condition loops b) Q := by
  obtain ⟨hset, hnest⟩ := Library.untouched_append_iff (a := [_]).1 huntouched
  exact append (a := [_]) set hset (nest hb hnest)

end Stmt.Adds

end Additions

section Collected

variable {ops : Operations V} {target : Target}

/-- The value is added to a temporary from a stretch, and if it is one of the given
lists then the value is a number between zero and one. -/
def Operations.Fair (ops : Operations V) (first last : Nat) (lists : List String) (n : String)
    (v : V) : Prop :=
  IsTempIn first last n ∧ (n ∈ lists → ops.IsEvidence v)

theorem Operations.Fair.mono {first first' last last' : Nat} {lists lists' : List String}
    {n : String} {v : V} (h : ops.Fair first last lists n v) (hfirst : first' ≤ first)
    (hlast : last ≤ last') (hlists : IsTempIn first last n → n ∈ lists' → n ∈ lists) :
    ops.Fair first' last' lists' n v :=
  ⟨h.1.mono hfirst hlast, fun hn => h.2 (hlists h.1 hn)⟩

theorem Stmt.Adds.fair_mono {lib : Library} {b : List Stmt} {first first' last : Nat}
    {lists : List String} (h : Stmt.Adds I lib b (ops.Fair first last lists))
    (hfirst : first' ≤ first) : Stmt.Adds I lib b (ops.Fair first' last lists) :=
  h.mono fun _ _ hfair => hfair.mono hfirst le_rfl fun _ hn => hn

/-- The lists of p-values of a clause are temporaries that it is handed, and everything
that its statements add to them is a number between zero and one. -/
theorem Clause.Emits.fair (hcounts : ops.Counts) (htests : ops.TestsIn target.library)
    {ctx : Context} {c : Clause} {mode : Mode} {stmts : List Stmt} {v : Verdict} {k : Nat}
    (h : c.Emits target ctx mode stmts v k) :
    (∀ x ∈ Stmt.pvalueListsOfAll stmts, IsTempIn ctx.temps k x) ∧
    (c.Spares target.library ctx.temps k →
      Stmt.Adds ops.interpretation target.library stmts
        (ops.Fair ctx.temps k (Stmt.pvalueListsOfAll stmts))) := by
  have huntouched := h.untouched
  induction h with
  | @forAll ctx inner span ranges body mode loops stmts holds k hdomain hranges hbody ih =>
      specialize ih hbody.untouched
      have huntouched' := hbody.untouched
      rw [hranges.temps_eq, Context.temps_withTemps] at ih huntouched'
      rw [Loop.pvalueLists_set_nest rfl rfl]
      refine ⟨fun x hx => (ih.1 x hx).mono (Nat.le_succ _) le_rfl, fun hspares => ?_⟩
      have hspares' : body.Spares target.library (ctx.temps + 1) k :=
        hspares.mono (fun x hx => by simp [hx]) (Nat.le_succ _) le_rfl
      have hadds := (ih.2 hspares').fair_mono (Nat.le_succ _)
      exact .set_nest (.append hadds (huntouched' hspares') .set) (huntouched hspares)
  | @forAllTests ctx inner span ranges body mode loops stmts p k hdomain hranges hbody ih =>
      specialize ih hbody.untouched
      have huntouched' := hbody.untouched
      have hweighs := @hbody.weighs _ ops _ hcounts htests _ _ _ _ _ _ rfl
      have hle := hbody.temps_le
      rw [hranges.temps_eq, Context.temps_withTemps] at ih huntouched' hweighs hle
      have hlist : IsTempIn ctx.temps k (tempName (ctx.temps + 1)) := ⟨_, Nat.le_succ _, hle, rfl⟩
      have hlast (r : String) : Stmt.pvalueListsOfAll [.set r (target.library.combinePValues
          (.name (tempName (ctx.temps + 1))))] = [tempName (ctx.temps + 1)] := rfl
      rw [Stmt.pvalueListsOfAll_append, Loop.pvalueLists_set_nest rfl rfl, hlast,
        List.forall_mem_append, List.forall_mem_singleton]
      refine ⟨⟨fun x hx => (ih.1 x hx).mono (Nat.le_add_right _ 2) le_rfl, hlist⟩,
        fun hspares => ?_⟩
      have hspares' : body.Spares target.library (ctx.temps + 2) k :=
        hspares.mono (fun x hx => by simp [hx]) (Nat.le_add_right _ 2) le_rfl
      obtain ⟨hloops, -⟩ := Library.untouched_append_iff.1 (huntouched hspares)
      refine .append (.set_nest (.element ((ih.2 hspares').mono fun n v hfair => ?_)
        fun {σ σ' w} hσ hrun hw => ?_) hloops) hloops .set
      -- The list of the clause itself is handed out before all those of the body.
      · refine hfair.mono (Nat.le_add_right _ 2) le_rfl fun htemp hn => ?_
        refine (List.mem_append.1 hn).resolve_right fun hn => ?_
        have hnew : IsTempIn ctx.temps (ctx.temps + 2) n :=
          ⟨_, Nat.le_succ _, Nat.lt_succ_self _, List.mem_singleton.1 hn⟩
        exact hnew.not_later le_rfl htemp
      -- A value is added right after the body has run, so its temporaries have not changed yet.
      · have hσ' := hσ.of_runAll (huntouched' hspares') hrun
        exact ⟨hlist, fun _ => (hweighs hspares' hσ hrun hσ' fun _ _ => rfl).isEvidence hw⟩
  | letIn hvalue hbody ih =>
      specialize ih hbody.untouched
      rw [Context.temps_declare, Context.temps_push] at ih
      rw [Stmt.pvalueListsOfAll, Stmt.set, Stmt.pvalueLists, Term.combined?_lower hvalue,
        Option.toList_none, List.nil_append]
      refine ⟨ih.1, fun hspares => ?_⟩
      have hset := (Library.untouched_append_iff (a := [_]).1 (huntouched hspares)).1
      exact .append (a := [_]) .set hset
        (ih.2 (hspares.mono (fun x hx => by simp [hx]) le_rfl le_rfl))
  | membershipList | membershipMap | compare => exact ⟨List.forall_mem_nil _, fun _ => .nil⟩
  | approx | expectation => exact ⟨List.forall_mem_nil _, fun _ => .set⟩
  | @probability ctx span note trials body op rhs mode alternative stmts hit p k _ hbody _ ih =>
      specialize ih hbody.untouched
      have hlists : Stmt.pvalueListsOfAll [.set (tempName ctx.temps) (.nat 0),
          .forIn (tempName (ctx.temps + 1)) (.range (.name (Lower.trialCount trials)))
            (stmts ++ [.update (.name (tempName ctx.temps)) .add (.indicator hit.code)])] =
          Stmt.pvalueListsOfAll stmts := by
        simp [Stmt.pvalueListsOfAll, Stmt.set, Stmt.pvalueLists, Code.combined?, Code.nat]
      rw [hlists]
      refine ⟨fun x hx => (ih.1 x hx).mono (Nat.le_add_right _ 2) le_rfl, fun hspares => ?_⟩
      have hspares' : body.Spares target.library (ctx.temps + 2) k :=
        hspares.mono (fun x hx => by simp [hx]) (Nat.le_add_right _ 2) le_rfl
      obtain ⟨hset, hloop⟩ := Library.untouched_append_iff (a := [_]).1 (huntouched hspares)
      have hadds := (ih.2 hspares').fair_mono (Nat.le_add_right _ 2)
      exact .append (a := [_]) .set hset
        (.forIn (.append hadds (hbody.untouched hspares') .update) hloop)
  | @probabilityOverItems ctx inner span note ranges body op rhs mode alternative loops stmts hit p
      k _ hranges hbody _ ih =>
      specialize ih hbody.untouched
      have huntouched' := hbody.untouched
      rw [hranges.temps_eq, Context.temps_withTemps] at ih huntouched'
      rw [Loop.pvalueLists_set_nest rfl rfl]
      refine ⟨fun x hx => (ih.1 x hx).mono (Nat.le_succ _) le_rfl, fun hspares => ?_⟩
      have hspares' : body.Spares target.library (ctx.temps + 1) k :=
        hspares.mono (fun x hx => by simp [hx]) (Nat.le_succ _) le_rfl
      have hadds := (ih.2 hspares').fair_mono (Nat.le_succ _)
      exact .set_nest (.append hadds (huntouched' hspares') .update) (huntouched hspares)
  | @expectationOverItems ctx inner span note ranges body op rhs mode loops value expected verdict
      hranges hbody hrhs hverdict =>
      have hlists (r : String) : Stmt.pvalueListsOfAll (.set r (.list []) ::
          Loop.nest none loops [.append (.name r) value]) = [] :=
        Loop.pvalueLists_set_nest rfl rfl none loops []
      have hlast (r : String) (samples : Code) : Stmt.pvalueListsOfAll
          [.set r (target.library.tTest samples expected)] = [] := rfl
      rw [Stmt.pvalueListsOfAll_append, hlists, hlast, List.append_nil]
      refine ⟨List.forall_mem_nil _, fun hspares => ?_⟩
      obtain ⟨hloops, -⟩ := Library.untouched_append_iff.1 (huntouched hspares)
      refine .append (.set_nest (.element (a := []) .nil ?_) hloops) hloops .set
      intro σ σ' w _ _ _
      exact ⟨⟨_, le_rfl, Nat.lt_add_of_pos_right Nat.zero_lt_two, rfl⟩, fun hn => by cases hn⟩
  | @logic ctx span lhs op rhs mode stmts₁ a k₁ stmts₂ b k₂ hlhs hrhs ih₁ ih₂ =>
      specialize ih₁ hlhs.untouched
      specialize ih₂ hrhs.untouched
      rw [Stmt.pvalueListsOfAll_append, List.forall_mem_append]
      refine ⟨⟨fun x hx => (ih₁.1 x hx).mono le_rfl hrhs.temps_le,
        fun x hx => (ih₂.1 x hx).mono hlhs.temps_le le_rfl⟩, fun hspares => ?_⟩
      have hspares₁ : lhs.Spares target.library ctx.temps k₁ :=
        hspares.mono (fun x hx => by simp [hx]) le_rfl hrhs.temps_le
      have hspares₂ : rhs.Spares target.library k₁ k₂ :=
        hspares.mono (fun x hx => by simp [hx]) hlhs.temps_le le_rfl
      -- The lists of the two operands are different temporaries.
      refine .append ((ih₁.2 hspares₁).mono fun n v hfair => ?_) (hlhs.untouched hspares₁)
        ((ih₂.2 hspares₂).mono fun n v hfair => ?_)
      · refine hfair.mono le_rfl hrhs.temps_le fun htemp hn => ?_
        exact (List.mem_append.1 hn).resolve_right fun hn => htemp.not_later le_rfl (ih₂.1 n hn)
      · refine hfair.mono hlhs.temps_le le_rfl fun htemp hn => ?_
        exact (List.mem_append.1 hn).resolve_left fun hn =>
          (ih₁.1 n hn).not_later le_rfl htemp
  | not hinner ih =>
      specialize ih hinner.untouched
      exact ⟨ih.1, fun hspares => ih.2 (hspares.mono (fun x hx => hx) le_rfl le_rfl)⟩

end Collected

section Certain

theorem Term.domain_of_certain : ∀ {t : Term}, (∀ node ∈ t.nodes, node.isStatistical = false) →
    t.domain = .none
  | .probability .., h | .probabilityOverItems .., h | .expectation .., h
  | .expectationOverItems .., h => nomatch h _ List.mem_cons_self
  | .binary _ lhs _ rhs, h => by
      rw [Term.nodes, List.forall_mem_cons, List.forall_mem_append] at h
      rw [Term.domain, Term.domain_of_certain h.2.1, Term.domain_of_certain h.2.2]
      rfl
  | .constant .., _ | .lookup .., _ | .identifier .., _ | .tuple .., _ | .sizeOf .., _
  | .call .., _ => rfl

/-- Without a test a clause commits to no domain. -/
theorem Clause.domain_of_certain : ∀ {c : Clause}, (∀ node ∈ c.nodes, node.isStatistical = false) →
    c.domain = .none
  | .forAll _ _ body, h | .letIn _ _ _ body, h => by
      rw [Clause.nodes, List.forall_mem_cons, List.forall_mem_append] at h
      rw [Clause.domain]
      exact Clause.domain_of_certain h.2.2
  | .membership .., _ => rfl
  | .approx .., h => nomatch h _ List.mem_cons_self
  | .compare _ lhs _ rhs, h => by
      rw [Clause.nodes, List.forall_mem_cons, List.forall_mem_append] at h
      rw [Clause.domain, Term.domain_of_certain h.2.1, Term.domain_of_certain h.2.2]
      rfl
  | .logic _ lhs _ rhs, h => by
      rw [Clause.nodes, List.forall_mem_cons, List.forall_mem_append] at h
      rw [Clause.domain, Clause.domain_of_certain h.2.1, Clause.domain_of_certain h.2.2]
      rfl
  | .not _ inner, h => by
      rw [Clause.nodes, List.forall_mem_cons] at h
      rw [Clause.domain]
      exact Clause.domain_of_certain h.2

theorem Domain.eq_none_of_merge {a b : Domain} (h : a.merge b = .none) :
    a = .none ∧ b = .none := by
  cases a <;> cases b <;> first | exact ⟨rfl, rfl⟩ | cases h

/-- Without a test, the two verdicts of a clause agree wherever the one in probability
mode evaluates. -/
theorem Clause.Emits.indicates {ops : Operations V} (hcounts : ops.Counts) {target : Target}
    {ctx : Context} {c : Clause} {mode : Mode} {stmts : List Stmt} {v : Verdict} {k : Nat}
    (h : c.Emits target ctx mode stmts v k) (hmode : mode = .probability)
    (hdomain : c.domain = .none) :
    v.code.param? = none ∧ ∃ b, c.Emits target ctx .boolean stmts (.boolean b) k ∧
      ∀ σ : Store V, target.library.Visible σ → ops.Indicates σ v.code b := by
  induction h with
  | forAll hbody hranges hemits =>
      subst hmode
      exact ⟨rfl, _, .forAll hbody hranges hemits,
        fun σ _ => (Operations.eval_indicator hcounts _).2⟩
  | forAllTests htests =>
      rw [Clause.domain, htests] at hdomain
      cases hdomain
  | letIn hvalue _ ih =>
      obtain ⟨hparam, b, hemits, hindicates⟩ := ih hmode hdomain
      exact ⟨hparam, b, .letIn hvalue hemits, hindicates⟩
  | membershipList hitem hitemTy hcollection hty =>
      subst hmode
      exact ⟨rfl, _, .membershipList hitem hitemTy hcollection hty,
        fun σ _ => (Operations.eval_indicator hcounts _).2⟩
  | membershipMap hitem hitemTy hcollection hty =>
      subst hmode
      exact ⟨rfl, _, .membershipMap hitem hitemTy hcollection hty,
        fun σ _ => (Operations.eval_indicator hcounts _).2⟩
  | approx =>
      rw [Clause.domain] at hdomain
      split at hdomain <;> cases hdomain
  | probability | expectation =>
      rw [Clause.domain] at hdomain
      exact absurd (Domain.eq_none_of_merge hdomain).1 (Trials.domain_ne_none _)
  | probabilityOverItems | expectationOverItems =>
      rw [Clause.domain] at hdomain
      cases (Domain.eq_none_of_merge hdomain).1
  | compare hplain hlhs hrhs =>
      subst hmode
      exact ⟨rfl, _, .compare hplain hlhs hrhs, fun σ _ => (Operations.eval_indicator hcounts _).2⟩
  | @logic _ _ _ op _ _ _ _ _ _ _ _ _ _ ih₁ ih₂ =>
      subst hmode
      rw [Clause.domain] at hdomain
      obtain ⟨hdomain₁, hdomain₂⟩ := Domain.eq_none_of_merge hdomain
      obtain ⟨hparam₁, a, ha, hindicates₁⟩ := ih₁ rfl hdomain₁
      obtain ⟨hparam₂, b, hb, hindicates₂⟩ := ih₂ rfl hdomain₂
      rw [Verdict.code_ofLogic_probability]
      refine ⟨rfl, _, .logic ha hb, fun σ hσ => ?_⟩
      exact .extreme hcounts (hσ _ (op.extremeName_mem _)) hparam₁ hparam₂ (hindicates₁ σ hσ)
        (hindicates₂ σ hσ)
  | not _ ih =>
      subst hmode
      obtain ⟨-, b, hb, hindicates⟩ := ih rfl hdomain
      exact ⟨rfl, _, .not hb, fun σ hσ => .complement hcounts (hindicates σ hσ)⟩

end Certain

/-- The p-values of a lowered clause are numbers between zero and one, if its names leave
the temporaries and the outer names to the code, and the tests of the library give such
numbers. This holds for everything that a run of the statements adds to a list of
p-values, also where the run fails later, and in probability mode for the verdict, which
evaluates after the statements exactly if the conditions and tests in it do. Without
statistics and approximate comparisons the verdict is then one where the verdict in
boolean mode is true, and zero where it is not. The verdict in boolean mode may also
evaluate where this one does not, since `and` and `or` stop early, and `min` and `max`
do not. -/
theorem Clause.lower_gives_evidence {ops : Operations V} (hcounts : ops.Counts) {target : Target}
    (htests : ops.TestsIn target.library) {c : Clause} {mode : Mode} {ctx ctx' : Context}
    {v : Verdict} (h : (c.lower target mode).exec ctx = (.ok v, ctx'))
    (hspares : c.Spares target.library ctx.temps ctx'.temps) {σ : Store V}
    (hσ : target.library.Visible σ) :
    ∃ stmts, ctx'.block = ctx.block ++ stmts ∧
      (∀ p n u, .append p n u ∈ (Stmt.recordAll ops.interpretation stmts [] σ).moves →
        n ∈ Stmt.pvalueListsOfAll stmts → ops.IsEvidence u) ∧
      (mode = .probability →
        (∀ f σ', Stmt.runAll ops.interpretation stmts σ = some (f, σ') →
          ops.Weighs σ' v.code) ∧
        ((∀ node ∈ c.nodes, node.isStatistical = false) →
          ∃ b, (c.lower target .boolean).exec ctx = (.ok (.boolean b), ctx') ∧
            ∀ f σ', Stmt.runAll ops.interpretation stmts σ = some (f, σ') →
              ops.Indicates σ' v.code b)) := by
  obtain ⟨stmts, k, hemits, rfl⟩ := (Clause.exec_lower_eq_ok_iff _ _ _ _ _ _).1 h
  have hvisible {f : Flow} {σ' : Store V}
      (hrun : Stmt.runAll ops.interpretation stmts σ = some (f, σ')) :
      target.library.Visible σ' := hσ.of_runAll (hemits.untouched hspares) hrun
  refine ⟨stmts, rfl, fun p n u hm hn => ((hemits.fair hcounts htests).2 hspares hσ hm).2 hn,
    fun hmode => ⟨fun f σ' hrun => ?_, fun hcertain => ?_⟩⟩
  · exact hemits.weighs hcounts htests hmode hspares hσ hrun (hvisible hrun) fun _ _ => rfl
  · obtain ⟨-, b, hb, hindicates⟩ :=
      hemits.indicates hcounts hmode (Clause.domain_of_certain hcertain)
    exact ⟨b, (Clause.exec_lower_eq_ok_iff _ _ _ _ _ _).2 ⟨stmts, k, hb, rfl⟩,
      fun f σ' hrun => hindicates σ' (hvisible hrun)⟩

/-- Values to evaluate with: numbers, texts, lists, and functions by their name. -/
inductive Datum where
  | number (x : ℚ)
  | text (s : String)
  | list (items : List Datum)
  | function (name : String)

/-- Operations in which each test has the p-value one half. -/
def evenTests : Operations Datum where
  global n := if n ∈ ["min", "max", "AxProf"] then some (.function n) else none
  literal t := do
    let n ← numeral? t
    some (.number n)
  text := .text
  list := .list
  dict _ := .list []
  ofBool b := .number (if b then 1 else 0)
  truth
    | .number x => x ≠ 0
    | .list items => !items.isEmpty
    | _ => true
  number
    | .number x => some x
    | _ => none
  arith
    | .sub, .number x, .number y => some (.number (x - y))
    | _, _, _ => none
  compare
    | .eq, .number x, .number y => some (.number (if x = y then 1 else 0))
    | _, _, _ => none
  within _ _ := none
  item
    | .list items, .number x => items[x.num.toNat]?
    | _, _ => none
  attr
    | .function _, f => some (.function f)
    | .list items, _ => items.head?
    | _, _ => none
  call
    | .function "min", [(_, .number x), (_, .number y)] => some (.number (min x y))
    | .function "max", [(_, .number x), (_, .number y)] => some (.number (max x y))
    | .function "binomialTest", _ => some (.number (1 / 2))
    | .function "wilcoxon", _ => some (.list [.number (1 / 2)])
    | .function _, _ => some (.list [.number 0, .number (1 / 2)])
    | _, _ => none
  items
    | .list items => some items
    | _ => none
  update _ _ _ := none
  append
    | .list items, v => some (.list (items ++ [v]))
    | _, _ => none
  truth_ofBool b := by cases b <;> simp

theorem literal_evenTests (n : Nat) : evenTests.literal (toString n) = some (.number n) := by
  change (numeral? (toString n)).bind _ = _
  rw [numeral?_toString]
  rfl

theorem counts_evenTests : evenTests.Counts where
  zero := ⟨.number 0, literal_evenTests 0, rfl⟩
  one := ⟨.number 1, literal_evenTests 1, rfl⟩
  sub := by
    refine ⟨id, monotone_id, rfl, rfl, ?_⟩
    rintro (x | _ | _ | _) (y | _ | _ | _) _ _ ⟨⟩ ⟨⟩ _ _
    exact ⟨_, rfl, rfl⟩
  extreme op := by
    cases op with
    | and =>
        refine ⟨.function "min", rfl, ?_⟩
        rintro (x | _ | _ | _) (y | _ | _ | _) _ _ ⟨⟩ ⟨⟩
        exact ⟨_, rfl, rfl⟩
    | or =>
        refine ⟨.function "max", rfl, ?_⟩
        rintro (x | _ | _ | _) (y | _ | _ | _) _ _ ⟨⟩ ⟨⟩
        exact ⟨_, rfl, rfl⟩

theorem half_isEvidence : evenTests.IsEvidence (.number (1 / 2)) :=
  ⟨1 / 2, rfl, by decide +kernel, by decide +kernel⟩

theorem testsIn_evenTests : evenTests.TestsIn {} where
  binomialTest h := by
    cases h
    exact half_isEvidence
  tTest h := by
    cases h
    exact ⟨.number 1, .number (1 / 2), literal_evenTests 1, rfl, half_isEvidence⟩
  wilcoxon h := by
    cases h
    exact ⟨.number (1 / 2), rfl, half_isEvidence⟩
  combinePValues h := by
    cases h
    exact ⟨.number 1, .number (1 / 2), literal_evenTests 1, rfl, half_isEvidence⟩

/-- The bound is not three. -/
def boundNotThree : Clause :=
  .not .dummy (.compare .dummy (.identifier {} "bound") .eq (.constant {} "3"))

/-- The output is around each of the inputs, and the bound is not three. -/
def aroundInputs : Clause :=
  .logic .dummy
    (.forAll .dummy [.mk .dummy "x" (.identifier {} "Input") .elements]
      (.approx .dummy (.identifier {} "Output") (.identifier {} "x")))
    .and boundNotThree

def boundNotThreePValue : Code :=
  .group (.nat 1) (.arith .sub) (.paren (.indicator
    (.group (.name "bound") (.compare .eq) (.verbatim "3"))))

def aroundInputsCode : List Stmt :=
  [.set "t1" (.list []),
    .forIn "x" (.name "Input")
      [.set "t2" (.comprehension (.binary (.name "t3") (.arith .sub) (.name "x")) "t3"
          (.name "Output")),
        .append (.name "t1") ((Target.library {}).wilcoxonPValue (.name "t2"))],
    .set "t0" ((Target.library {}).combinePValues (.name "t1"))]

def aroundInputsContext : Context := .start ["Input", "Output", "bound"]

def aroundInputsStore : Store Datum := fun name =>
  if name = "Input" then some (.list [.number 1, .number 2])
  else if name = "Output" then some (.list [.number 1])
  else if name = "bound" then some (.number 2) else none

/-- The first p-value that is collected, the verdict of the whole clause, and that of the
part without a test, next to its verdict in boolean mode. -/
theorem Clause.lower_gives_evidence_aroundInputs :
    (aroundInputs.lower {} .probability).exec aroundInputsContext =
      (.ok (.probability (.apply "min" [.name "t0", boundNotThreePValue])),
        aroundInputsContext.extend 4 aroundInputsCode) ∧
    (.append [.number 1] "t1" (.number (1 / 2)) ∈ (Stmt.recordAll evenTests.interpretation
        aroundInputsCode [] aroundInputsStore).moves ∧
      evenTests.IsEvidence (.number (1 / 2))) ∧
    (∃ σ v, Stmt.runAll evenTests.interpretation aroundInputsCode aroundInputsStore =
        some (.next, σ) ∧
      evenTests.eval (.apply "min" [.name "t0", boundNotThreePValue]) σ = some v ∧
      evenTests.IsEvidence v) ∧
    ∃ b v w, (boundNotThree.lower {} .boolean).exec aroundInputsContext =
        (.ok (.boolean b), aroundInputsContext) ∧
      evenTests.eval boundNotThreePValue aroundInputsStore = some v ∧
      evenTests.eval b aroundInputsStore = some w ∧
      evenTests.number v = some (if evenTests.truth w then 1 else 0) := by
  have hlower : (aroundInputs.lower {} .probability).exec aroundInputsContext =
      (.ok (.probability (.apply "min" [.name "t0", boundNotThreePValue])),
        aroundInputsContext.extend 4 aroundInputsCode) := rfl
  have hlower' : (boundNotThree.lower {} .probability).exec aroundInputsContext =
      (.ok (.probability boundNotThreePValue), aroundInputsContext) := rfl
  have hvisible : (Target.library {}).Visible aroundInputsStore := by
    simp [Library.Visible, Library.outerNames, aroundInputsStore]
  have hspares : aroundInputs.Spares {} 0 4 :=
    ⟨List.forall_mem_singleton.2 (not_isTempIn_of_head (by decide) _ _),
      List.forall_mem_singleton.2 (by decide), not_isTempIn_of_head (by decide) _ _⟩
  have hspares' : boundNotThree.Spares {} 0 0 :=
    ⟨List.forall_mem_nil _, List.forall_mem_nil _, not_isTempIn_of_head (by decide) _ _⟩
  obtain ⟨stmts, hblock, hadds, hprobability⟩ := Clause.lower_gives_evidence counts_evenTests
    testsIn_evenTests hlower hspares hvisible
  obtain rfl : aroundInputsCode = stmts := hblock
  obtain ⟨stmts', hblock', -, hprobability'⟩ := Clause.lower_gives_evidence counts_evenTests
    testsIn_evenTests hlower' hspares' hvisible
  obtain rfl : [] = stmts' := hblock'
  have hfirst : .append [.number 1] "t1" (.number (1 / 2)) ∈ (Stmt.recordAll
      evenTests.interpretation aroundInputsCode [] aroundInputsStore).moves :=
    .tail _ (.tail _ (.tail _ (.head _)))
  refine ⟨hlower, ⟨hfirst, hadds _ _ _ hfirst (by decide)⟩, ?_, ?_⟩
  · have hweighs := (hprobability rfl).1 .next _ rfl
    obtain ⟨v, hv⟩ := Option.isSome_iff_exists.1 (hweighs.isSome_iff.2 (by
      rintro c (_ | ⟨_, ⟨⟩⟩)
      rfl))
    exact ⟨_, v, rfl, hv, hweighs.isEvidence hv⟩
  · have hweighs := (hprobability' rfl).1 .next _ rfl
    obtain ⟨v, hv⟩ := Option.isSome_iff_exists.1 (hweighs.isSome_iff.2 (by
      rintro c (_ | ⟨_, ⟨⟩⟩)
      rfl))
    obtain ⟨b, hb, hindicates⟩ := (hprobability' rfl).2 (by decide)
    obtain ⟨w, hw, hnumber⟩ := hindicates .next _ rfl hv
    exact ⟨b, v, w, hb, hv, hw, hnumber⟩

end StatContract
