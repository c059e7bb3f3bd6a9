import Mathlib.Logic.Basic
import StatContract.Proofs.Typing.Erasure

/-!
# Analysing a tree again

The analysis fills type slots and reads none, so it ends alike on two trees that differ in
their slots only: with the same tree and the same type, or with the same defect. On a defect
the trees it hands back still differ where it did not get to.

What it hands back is a tree of this kind, and there nothing is left to change: the slots that
are filled hold what would be filled in, and those behind a defect are not reached again.
-/

namespace StatContract

/-- Two analyses end alike: with the same tree and value, or with the same defect. -/
inductive EndsAlike {α β : Type} : α × Except SpecError β → α × Except SpecError β → Prop where
  | ok (a : α) (b : β) : EndsAlike (a, .ok b) (a, .ok b)
  | error (a a' : α) (e : SpecError) : EndsAlike (a, .error e) (a', .error e)

namespace EndsAlike

variable {α β : Type} {x y z : α × Except SpecError β}

theorem symm (h : EndsAlike x y) : EndsAlike y x := by
  cases h with
  | ok a b => exact .ok a b
  | error a a' e => exact .error a' a e

theorem trans (h : EndsAlike x y) (h' : EndsAlike y z) : EndsAlike x z := by
  cases h with
  | ok a b => exact h'
  | error a a' e =>
      cases h' with
      | error _ a'' => exact .error a a'' e

theorem snd_eq (h : EndsAlike x y) : x.2 = y.2 := by
  cases h <;> rfl

/-- Analyses of trees end alike when those of the one part that is left do. -/
theorem wrap {γ : Type} (h : EndsAlike x y) (wrap : α → γ) :
    EndsAlike (wrap x.1, x.2) (wrap y.1, y.2) := by
  cases h with
  | ok a b => exact .ok _ _
  | error a a' e => exact .error _ _ e

theorem map {γ δ : Type} (h : EndsAlike x y) (wrap : α → γ) (f : β → δ) :
    EndsAlike (wrap x.1, x.2.map f) (wrap y.1, y.2.map f) := by
  cases h with
  | ok a b => exact .ok _ _
  | error a a' e => exact .error _ _ e

end EndsAlike

mutual

/-- The text of a clause is read off without its slots. -/
theorem Clause.text_eraseTypes : ∀ c : Clause, c.eraseTypes.text = c.text
  | .forAll _ ranges body => by
      simp only [Clause.eraseTypes, Clause.text, Range.texts_eraseTypesOfAll ranges,
        body.text_eraseTypes]
  | .letIn _ _ value body => by
      simp only [Clause.eraseTypes, Clause.text, value.text_eraseTypes, body.text_eraseTypes]
  | .membership _ item collection => by
      simp only [Clause.eraseTypes, Clause.text, item.text_eraseTypes, collection.text_eraseTypes]
  | .approx _ lhs rhs => by
      simp only [Clause.eraseTypes, Clause.text, lhs.text_eraseTypes, rhs.text_eraseTypes]
  | .compare _ lhs _ rhs => by
      simp only [Clause.eraseTypes, Clause.text, lhs.text_eraseTypes, rhs.text_eraseTypes]
  | .logic _ lhs _ rhs => by
      simp only [Clause.eraseTypes, Clause.text, lhs.text_eraseTypes, rhs.text_eraseTypes]
  | .not _ inner => by simp only [Clause.eraseTypes, Clause.text, inner.text_eraseTypes]

/-- The text of a term is read off without its slots. -/
theorem Term.text_eraseTypes : ∀ t : Term, t.eraseTypes.text = t.text
  | .constant .. => rfl
  | .identifier .. => rfl
  | .probability _ trials body =>
      congrArg ("Probability over " ++ trials.text ++ " [" ++ · ++ "]") body.text_eraseTypes
  | .probabilityOverItems _ ranges body =>
      congrArg₂ ("Probability over " ++ ", ".intercalate · ++ " [" ++ · ++ "]")
        (Range.texts_eraseTypesOfAll ranges) body.text_eraseTypes
  | .expectation _ trials body =>
      congrArg ("Expectation over " ++ trials.text ++ " [" ++ · ++ "]") body.text_eraseTypes
  | .expectationOverItems _ ranges body =>
      congrArg₂ ("Expectation over " ++ ", ".intercalate · ++ " [" ++ · ++ "]")
        (Range.texts_eraseTypesOfAll ranges) body.text_eraseTypes
  | .lookup _ collection key =>
      congrArg₂ (· ++ "[" ++ · ++ "]") collection.text_eraseTypes key.text_eraseTypes
  | .tuple _ elements =>
      congrArg ("(" ++ ", ".intercalate · ++ ")") (Term.texts_eraseTypesOfAll elements)
  | .binary _ lhs op rhs =>
      congrArg₂ ("(" ++ · ++ " " ++ op.symbol ++ " " ++ · ++ ")") lhs.text_eraseTypes
        rhs.text_eraseTypes
  | .sizeOf _ collection => congrArg ("size(" ++ · ++ ")") collection.text_eraseTypes
  | .call _ name args =>
      congrArg (name ++ "(" ++ ", ".intercalate · ++ ")") (Term.texts_eraseTypesOfAll args)

theorem Range.texts_eraseTypesOfAll : ∀ ranges : List Range,
    Range.texts (Range.eraseTypesOfAll ranges) = Range.texts ranges
  | [] => by simp only [Range.eraseTypesOfAll]
  | .mk _ _ collection mode :: rest => by
      cases mode <;>
        simp only [Range.eraseTypesOfAll, Range.texts, Range.text, collection.text_eraseTypes,
          Range.texts_eraseTypesOfAll rest]

theorem Term.texts_eraseTypesOfAll : ∀ ts : List Term,
    Term.texts (Term.eraseTypesOfAll ts) = Term.texts ts
  | [] => by simp only [Term.eraseTypesOfAll]
  | t :: rest => by
      simp only [Term.eraseTypesOfAll, Term.texts, t.text_eraseTypes,
        Term.texts_eraseTypesOfAll rest]

end

theorem Term.span_eraseTypes (t : Term) : t.eraseTypes.span = t.span := by
  cases t <;> simp only [Term.eraseTypes] <;> rfl

theorem Term.isIdentifier_eraseTypes (t : Term) (name : String) :
    t.eraseTypes.isIdentifier name = t.isIdentifier name := by
  cases t <;> simp only [Term.eraseTypes] <;> rfl

/-! ### The slots are not read -/

mutual

/-- The analysis of a clause ends as that of the clause without types. -/
theorem Clause.endsAlike_analyze (env : TypeEnv) :
    ∀ c : Clause, EndsAlike (c.eraseTypes.analyze env) (c.analyze env)
  | .forAll span ranges body => by
      rw [Clause.eraseTypes, Clause.analyze, Clause.analyze]
      refine (Range.endsAlike_analyzeList env.push ranges).casesOn (fun ranges' env' => ?_)
        fun _ _ _ => .error _ _ _
      exact (body.endsAlike_analyze env').wrap (Clause.forAll span ranges')
  | .letIn span name value body => by
      rw [Clause.eraseTypes, Clause.analyze, Clause.analyze]
      refine (value.endsAlike_analyze env).casesOn (fun value' τ => ?_) fun _ _ _ => .error _ _ _
      exact (body.endsAlike_analyze _).wrap (Clause.letIn span name value')
  | .membership span item collection => by
      rw [Clause.eraseTypes, Clause.analyze, Clause.analyze]
      refine (item.endsAlike_analyze env).casesOn (fun item' τ => ?_) fun _ _ _ => .error _ _ _
      exact (collection.endsAlike_analyze env).map (Clause.membership span item') _
  | .approx span lhs rhs => by
      rw [Clause.eraseTypes, Clause.analyze, Clause.analyze, lhs.isIdentifier_eraseTypes,
        lhs.text_eraseTypes, lhs.span_eraseTypes]
      split
      · refine (lhs.endsAlike_analyze env).casesOn (fun lhs' τ => ?_) fun _ _ _ => .error _ _ _
        exact (rhs.endsAlike_analyze env).map (Clause.approx span lhs') _
      · exact .error _ _ _
  | .compare span lhs op rhs => by
      rw [Clause.eraseTypes, Clause.analyze, Clause.analyze]
      refine (lhs.endsAlike_analyze env).casesOn (fun lhs' τ => ?_) fun _ _ _ => .error _ _ _
      exact (rhs.endsAlike_analyze env).map (Clause.compare span lhs' op) _
  | .logic span lhs op rhs => by
      rw [Clause.eraseTypes, Clause.analyze, Clause.analyze]
      refine (lhs.endsAlike_analyze env).casesOn (fun lhs' _ => ?_) fun _ _ _ => .error _ _ _
      exact (rhs.endsAlike_analyze env).wrap (Clause.logic span lhs' op)
  | .not span inner => by
      rw [Clause.eraseTypes, Clause.analyze, Clause.analyze]
      exact (inner.endsAlike_analyze env).wrap (Clause.not span)

/-- The analysis of a term ends as that of the term without types. -/
theorem Term.endsAlike_analyze (env : TypeEnv) :
    ∀ t : Term, EndsAlike (t.eraseTypes.analyze env) (t.analyze env)
  | .constant note value => by
      rw [Term.eraseTypes, Term.analyze, Term.analyze]
      exact .ok _ _
  | .probability note trials body => by
      rw [Term.eraseTypes, Term.analyze, Term.analyze]
      exact (body.endsAlike_analyze env).casesOn (fun _ _ => .ok _ _) fun _ _ _ => .error _ _ _
  | .probabilityOverItems note ranges body => by
      rw [Term.eraseTypes, Term.analyze, Term.analyze]
      refine (Range.endsAlike_analyzeList env.push ranges).casesOn (fun ranges' env' => ?_)
        fun _ _ _ => .error _ _ _
      dsimp only
      exact (body.endsAlike_analyze env').casesOn (fun _ _ => .ok _ _) fun _ _ _ => .error _ _ _
  | .expectation note trials body => by
      rw [Term.eraseTypes, Term.analyze, Term.analyze]
      exact (body.endsAlike_analyze env).casesOn (fun _ _ => .ok _ _) fun _ _ _ => .error _ _ _
  | .expectationOverItems note ranges body => by
      rw [Term.eraseTypes, Term.analyze, Term.analyze]
      refine (Range.endsAlike_analyzeList env.push ranges).casesOn (fun ranges' env' => ?_)
        fun _ _ _ => .error _ _ _
      dsimp only
      exact (body.endsAlike_analyze env').casesOn (fun _ _ => .ok _ _) fun _ _ _ => .error _ _ _
  | .lookup note collection key => by
      rw [Term.eraseTypes, Term.analyze, Term.analyze]
      refine (collection.endsAlike_analyze env).casesOn (fun collection' τ => ?_)
        fun _ _ _ => .error _ _ _
      refine (key.endsAlike_analyze env).casesOn (fun key' κ => ?_) fun _ _ _ => .error _ _ _
      dsimp only
      cases τ.entry? with
      | none => exact .error _ _ _
      | some entry => exact .ok _ _
  | .identifier note name => by
      rw [Term.eraseTypes, Term.analyze, Term.analyze]
      exact .ok _ _
  | .tuple note elements => by
      rw [Term.eraseTypes, Term.analyze, Term.analyze]
      exact (Term.endsAlike_analyzeList env elements).casesOn (fun _ _ => .ok _ _)
        fun _ _ _ => .error _ _ _
  | .binary note lhs op rhs => by
      rw [Term.eraseTypes, Term.analyze, Term.analyze]
      refine (lhs.endsAlike_analyze env).casesOn (fun lhs' τ => ?_) fun _ _ _ => .error _ _ _
      refine (rhs.endsAlike_analyze env).casesOn (fun rhs' σ => ?_) fun _ _ _ => .error _ _ _
      dsimp only
      split
      · exact .ok _ _
      · exact .error _ _ _
  | .sizeOf note collection => by
      rw [Term.eraseTypes, Term.analyze, Term.analyze]
      exact (collection.endsAlike_analyze env).casesOn (fun _ _ => .ok _ _)
        fun _ _ _ => .error _ _ _
  | .call note name args => by
      rw [Term.eraseTypes, Term.analyze, Term.analyze]
      exact (Term.endsAlike_analyzeList env args).casesOn (fun _ _ => .ok _ _)
        fun _ _ _ => .error _ _ _

/-- The analysis of ranges ends as that of the ranges without types. -/
theorem Range.endsAlike_analyzeList (env : TypeEnv) : ∀ ranges : List Range,
    EndsAlike (Range.analyzeList env (Range.eraseTypesOfAll ranges)) (Range.analyzeList env ranges)
  | [] => by
      rw [Range.eraseTypesOfAll, Range.analyzeList]
      exact .ok _ _
  | .mk span var collection mode :: rest => by
      rw [Range.eraseTypesOfAll, Range.analyzeList, Range.analyzeList]
      refine (collection.endsAlike_analyze env).casesOn (fun collection' τ => ?_)
        fun _ _ _ => .error _ _ _
      dsimp only
      cases τ.element? with
      | none => exact .error _ _ _
      | some element =>
          exact (Range.endsAlike_analyzeList _ rest).wrap (.mk span var collection' mode :: ·)

/-- The analysis of terms ends as that of the terms without types. -/
theorem Term.endsAlike_analyzeList (env : TypeEnv) : ∀ ts : List Term,
    EndsAlike (Term.analyzeList env (Term.eraseTypesOfAll ts)) (Term.analyzeList env ts)
  | [] => by
      rw [Term.eraseTypesOfAll, Term.analyzeList]
      exact .ok _ _
  | t :: rest => by
      rw [Term.eraseTypesOfAll, Term.analyzeList, Term.analyzeList]
      refine (t.endsAlike_analyze env).casesOn (fun t' τ => ?_) fun _ _ _ => .error _ _ _
      exact (Term.endsAlike_analyzeList env rest).map (t' :: ·) _

end

/-! ### What was analysed is left as it is -/

theorem Term.isIdentifier_analyze (t : Term) (env : TypeEnv) (name : String) :
    (t.analyze env).1.isIdentifier name = t.isIdentifier name := by
  rw [← isIdentifier_eraseTypes, Term.eraseTypes_analyze, isIdentifier_eraseTypes]

mutual

/-- Analysing a clause again changes nothing. -/
theorem Clause.analyze_analyze (env : TypeEnv) :
    ∀ c : Clause, (c.analyze env).1.analyze env = c.analyze env
  | .forAll span ranges body => by
      have hranges := Range.analyzeList_analyzeList env.push ranges
      rw [Clause.analyze]
      rcases hr : Range.analyzeList env.push ranges with ⟨ranges', e | env'⟩ <;> rw [hr] at hranges
      · simp only [Clause.analyze, hranges]
      · simp only [Clause.analyze, hranges, body.analyze_analyze env']
  | .letIn span name value body => by
      have hvalue := value.analyze_analyze env
      rw [Clause.analyze]
      rcases hv : value.analyze env with ⟨value', e | τ⟩ <;> rw [hv] at hvalue
      · simp only [Clause.analyze, hvalue]
      · simp only [Clause.analyze, hvalue, body.analyze_analyze _]
  | .membership span item collection => by
      have hitem := item.analyze_analyze env
      rw [Clause.analyze]
      rcases hi : item.analyze env with ⟨item', e | τ⟩ <;> rw [hi] at hitem
      · simp only [Clause.analyze, hitem]
      · simp only [Clause.analyze, hitem, collection.analyze_analyze env]
  | .approx span lhs rhs => by
      have hlhs := lhs.analyze_analyze env
      have hname := lhs.isIdentifier_analyze env outputName
      rw [Clause.analyze]
      by_cases hout : lhs.isIdentifier outputName = true
      · rw [hout] at hname
        rcases hl : lhs.analyze env with ⟨lhs', e | τ⟩ <;> rw [hl] at hlhs hname
        · simp only [Clause.analyze, hout, hname, hlhs, if_true]
        · simp only [Clause.analyze, hout, hname, hlhs, if_true, rhs.analyze_analyze env]
      · rw [if_neg hout, Clause.analyze, if_neg hout]
  | .compare span lhs op rhs => by
      have hlhs := lhs.analyze_analyze env
      rw [Clause.analyze]
      rcases hl : lhs.analyze env with ⟨lhs', e | τ⟩ <;> rw [hl] at hlhs
      · simp only [Clause.analyze, hlhs]
      · simp only [Clause.analyze, hlhs, rhs.analyze_analyze env]
  | .logic span lhs op rhs => by
      have hlhs := lhs.analyze_analyze env
      rw [Clause.analyze]
      rcases hl : lhs.analyze env with ⟨lhs', e | τ⟩ <;> rw [hl] at hlhs
      · simp only [Clause.analyze, hlhs]
      · simp only [Clause.analyze, hlhs, rhs.analyze_analyze env]
  | .not span inner => by simp only [Clause.analyze, inner.analyze_analyze env]

/-- Analysing a term again changes nothing. -/
theorem Term.analyze_analyze (env : TypeEnv) :
    ∀ t : Term, (t.analyze env).1.analyze env = t.analyze env
  | .constant note value => by simp only [Term.analyze, Note.typed]
  | .probability note trials body => by
      have hbody := body.analyze_analyze env
      rw [Term.analyze]
      rcases hb : body.analyze env with ⟨body', e | _⟩ <;> rw [hb] at hbody <;>
        simp only [Term.analyze, hbody, Note.typed]
  | .probabilityOverItems note ranges body => by
      have hranges := Range.analyzeList_analyzeList env.push ranges
      rw [Term.analyze]
      rcases hr : Range.analyzeList env.push ranges with ⟨ranges', e | env'⟩ <;> rw [hr] at hranges
      · simp only [Term.analyze, hranges]
      · have hbody := body.analyze_analyze env'
        rcases hb : body.analyze env' with ⟨body', e | _⟩ <;> rw [hb] at hbody <;>
          simp only [Term.analyze, hranges, hb, hbody, Note.typed]
  | .expectation note trials body => by
      have hbody := body.analyze_analyze env
      rw [Term.analyze]
      rcases hb : body.analyze env with ⟨body', e | _⟩ <;> rw [hb] at hbody <;>
        simp only [Term.analyze, hbody, Note.typed]
  | .expectationOverItems note ranges body => by
      have hranges := Range.analyzeList_analyzeList env.push ranges
      rw [Term.analyze]
      rcases hr : Range.analyzeList env.push ranges with ⟨ranges', e | env'⟩ <;> rw [hr] at hranges
      · simp only [Term.analyze, hranges]
      · have hbody := body.analyze_analyze env'
        rcases hb : body.analyze env' with ⟨body', e | _⟩ <;> rw [hb] at hbody <;>
          simp only [Term.analyze, hranges, hb, hbody, Note.typed]
  | .lookup note collection key => by
      have hcollection := collection.analyze_analyze env
      have hkey := key.analyze_analyze env
      rw [Term.analyze]
      rcases hc : collection.analyze env with ⟨collection', e | τ⟩ <;> rw [hc] at hcollection
      · simp only [Term.analyze, hcollection]
      · rcases hk : key.analyze env with ⟨key', e | κ⟩ <;> rw [hk] at hkey
        · simp only [Term.analyze, hcollection, hkey]
        · cases hentry : τ.entry? <;>
            simp only [Term.analyze, hcollection, hkey, hentry, Note.typed]
  | .identifier note name => by simp only [Term.analyze, Note.typed]
  | .tuple note elements => by
      have helements := Term.analyzeList_analyzeList env elements
      rw [Term.analyze]
      rcases he : Term.analyzeList env elements with ⟨elements', e | _⟩ <;>
        rw [he] at helements <;> simp only [Term.analyze, helements, Note.typed]
  | .binary note lhs op rhs => by
      have hlhs := lhs.analyze_analyze env
      have hrhs := rhs.analyze_analyze env
      rw [Term.analyze]
      rcases hl : lhs.analyze env with ⟨lhs', e | τ⟩ <;> rw [hl] at hlhs
      · simp only [Term.analyze, hlhs]
      · rcases hr : rhs.analyze env with ⟨rhs', e | σ⟩ <;> rw [hr] at hrhs
        · simp only [Term.analyze, hlhs, hrhs]
        · by_cases heq : τ = σ <;>
            simp only [Term.analyze, hlhs, hrhs, heq, if_true, if_false, Note.typed]
  | .sizeOf note collection => by
      have hcollection := collection.analyze_analyze env
      rw [Term.analyze]
      rcases hc : collection.analyze env with ⟨collection', e | _⟩ <;> rw [hc] at hcollection <;>
        simp only [Term.analyze, hcollection, Note.typed]
  | .call note name args => by
      have hargs := Term.analyzeList_analyzeList env args
      rw [Term.analyze]
      rcases ha : Term.analyzeList env args with ⟨args', e | _⟩ <;> rw [ha] at hargs <;>
        simp only [Term.analyze, hargs, Note.typed]

/-- Analysing ranges again changes nothing. -/
theorem Range.analyzeList_analyzeList (env : TypeEnv) : ∀ ranges : List Range,
    Range.analyzeList env (Range.analyzeList env ranges).1 = Range.analyzeList env ranges
  | [] => by simp only [Range.analyzeList]
  | .mk span var collection mode :: rest => by
      have hcollection := collection.analyze_analyze env
      rw [Range.analyzeList]
      rcases hc : collection.analyze env with ⟨collection', e | τ⟩ <;> rw [hc] at hcollection
      · simp only [Range.analyzeList, hcollection]
      · cases helement : τ.element? with
        | none => simp only [Range.analyzeList, hcollection, helement]
        | some element =>
            simp only [Range.analyzeList, hcollection, helement,
              Range.analyzeList_analyzeList _ rest]

/-- Analysing terms again changes nothing. -/
theorem Term.analyzeList_analyzeList (env : TypeEnv) : ∀ ts : List Term,
    Term.analyzeList env (Term.analyzeList env ts).1 = Term.analyzeList env ts
  | [] => by simp only [Term.analyzeList]
  | t :: rest => by
      have ht := t.analyze_analyze env
      rw [Term.analyzeList]
      rcases h : t.analyze env with ⟨t', e | τ⟩ <;> rw [h] at ht
      · simp only [Term.analyzeList, ht]
      · simp only [Term.analyzeList, ht, Term.analyzeList_analyzeList env rest]

end

namespace Specification

/-- Two analyses of a contract that may be absent end alike. -/
inductive PartsEndAlike {α : Type} :
    Option α × Option SpecError → Option α × Option SpecError → Prop where
  | passed (part : Option α) : PartsEndAlike (part, none) (part, none)
  | failed (part part' : Option α) (e : SpecError) : PartsEndAlike (part, some e) (part', some e)

theorem partsEndAlike_analyzePart {α β : Type} {erase : α → α} {f : α → α × Except SpecError β}
    (h : ∀ a, EndsAlike (f (erase a)) (f a)) (part : Option α) :
    PartsEndAlike (analyzePart f (part.map erase)) (analyzePart f part) := by
  cases part with
  | none => exact .passed none
  | some a =>
      rw [Option.map_some, analyzePart, analyzePart]
      exact (h a).casesOn (fun a' b => .passed (some a')) fun a' a'' e => .failed _ _ e

/-- The analysis of a specification ends as that of the specification without types. -/
theorem endsAlike_analyze (spec : Specification) :
    EndsAlike spec.eraseTypes.analyze spec.analyze := by
  have hdecl : spec.eraseTypes.missingDeclaration? = spec.missingDeclaration? := rfl
  have henv : spec.eraseTypes.env = spec.env := rfl
  cases h : spec.missingDeclaration? with
  | some name =>
      rw [analyze_of_missing (hdecl.trans h), analyze_of_missing h]
      exact .error _ _ _
  | none =>
      rw [analyze_of_declared (hdecl.trans h), analyze_of_declared h, analyzeContracts,
        analyzeContracts, henv, domain_eraseTypes]
      dsimp only [eraseTypes]
      refine (partsEndAlike_analyzePart (Clause.endsAlike_analyze spec.env) spec.accuracy).casesOn
        (fun accuracy => ?_) fun _ _ e => .error _ _ e
      refine (partsEndAlike_analyzePart (Term.endsAlike_analyze spec.env) spec.time).casesOn
        (fun time => ?_) fun _ _ e => .error _ _ e
      exact (partsEndAlike_analyzePart (Term.endsAlike_analyze spec.env) spec.space).casesOn
        (fun space => .ok _ _) fun _ _ e => .error _ _ e

/-- The analysis does not depend on the types that were recorded before. -/
theorem analyze_of_eraseTypes_eq {spec spec' : Specification}
    (h : spec.eraseTypes = spec'.eraseTypes) : EndsAlike spec.analyze spec'.analyze := by
  have hspec := spec.endsAlike_analyze
  rw [h] at hspec
  exact hspec.symm.trans spec'.endsAlike_analyze

/-- The contracts are analysed in turn, and the first that fails decides. -/
inductive Analyzes (spec : Specification) : Specification × Except SpecError Domain → Prop where
  | undeclared {name : String} (hname : spec.missingDeclaration? = some name) :
      Analyzes spec (spec, .error (.missingDeclaration name spec.span))
  | accuracy {accuracy : Option Clause} {e : SpecError} (hdecl : spec.missingDeclaration? = none)
      (haccuracy : analyzePart (Clause.analyze spec.env) spec.accuracy =
        (accuracy, some e)) :
      Analyzes spec ({ spec with accuracy }, .error e)
  | time {accuracy : Option Clause} {time : Option Term} {e : SpecError}
      (hdecl : spec.missingDeclaration? = none)
      (haccuracy : analyzePart (Clause.analyze spec.env) spec.accuracy = (accuracy, none))
      (htime : analyzePart (Term.analyze spec.env) spec.time = (time, some e)) :
      Analyzes spec ({ spec with accuracy, time }, .error e)
  | space {accuracy : Option Clause} {time space : Option Term} {e : SpecError}
      (hdecl : spec.missingDeclaration? = none)
      (haccuracy : analyzePart (Clause.analyze spec.env) spec.accuracy = (accuracy, none))
      (htime : analyzePart (Term.analyze spec.env) spec.time = (time, none))
      (hspace : analyzePart (Term.analyze spec.env) spec.space = (space, some e)) :
      Analyzes spec ({ spec with accuracy, time, space }, .error e)
  | passed {accuracy : Option Clause} {time space : Option Term}
      (hdecl : spec.missingDeclaration? = none)
      (haccuracy : analyzePart (Clause.analyze spec.env) spec.accuracy = (accuracy, none))
      (htime : analyzePart (Term.analyze spec.env) spec.time = (time, none))
      (hspace : analyzePart (Term.analyze spec.env) spec.space = (space, none)) :
      Analyzes spec ({ spec with accuracy, time, space }, .ok spec.domain)

theorem analyzes_analyze (spec : Specification) : spec.Analyzes spec.analyze := by
  cases hdecl : spec.missingDeclaration? with
  | some name =>
      rw [analyze_of_missing hdecl]
      exact .undeclared hdecl
  | none =>
      rw [analyze_of_declared hdecl, analyzeContracts]
      rcases ha : analyzePart (Clause.analyze spec.env) spec.accuracy with ⟨a, _ | e⟩
      · rcases ht : analyzePart (Term.analyze spec.env) spec.time with ⟨t, _ | e⟩
        · rcases hs : analyzePart (Term.analyze spec.env) spec.space with ⟨s, _ | e⟩
          · exact .passed hdecl ha ht hs
          · exact .space hdecl ha ht hs
        · exact .time hdecl ha ht
      · exact .accuracy hdecl ha

theorem Analyzes.eq_analyze {spec : Specification} {x : Specification × Except SpecError Domain}
    (h : spec.Analyzes x) : x = spec.analyze := by
  cases h with
  | undeclared hname => rw [analyze_of_missing hname]
  | accuracy hdecl ha => rw [analyze_of_declared hdecl, analyzeContracts, ha]
  | time hdecl ha ht => rw [analyze_of_declared hdecl, analyzeContracts, ha, ht]
  | space hdecl ha ht hs => rw [analyze_of_declared hdecl, analyzeContracts, ha, ht, hs]
  | passed hdecl ha ht hs => rw [analyze_of_declared hdecl, analyzeContracts, ha, ht, hs]

theorem analyzePart_analyzePart {α β : Type} {f : α → α × Except SpecError β}
    (h : ∀ a, f (f a).1 = f a) (part : Option α) :
    analyzePart f (analyzePart f part).1 = analyzePart f part := by
  cases part with
  | none => rfl
  | some a =>
      have ha := h a
      rcases hf : f a with ⟨a', e | b⟩ <;> rw [hf] at ha <;> simp only [analyzePart, hf, ha]

/-- Analysing a specification again changes nothing. -/
theorem analyze_analyze (spec : Specification) : spec.analyze.1.analyze = spec.analyze := by
  have haccuracy := analyzePart_analyzePart (Clause.analyze_analyze spec.env) spec.accuracy
  have htime := analyzePart_analyzePart (Term.analyze_analyze spec.env) spec.time
  have hspace := analyzePart_analyzePart (Term.analyze_analyze spec.env) spec.space
  have hdomain := spec.domain_analyze
  have h := spec.analyzes_analyze
  generalize spec.analyze = x at h hdomain ⊢
  symm
  apply Analyzes.eq_analyze
  cases h with
  | undeclared hname => exact .undeclared hname
  | accuracy hdecl ha =>
      rw [ha] at haccuracy
      exact .accuracy hdecl haccuracy
  | time hdecl ha ht =>
      rw [ha] at haccuracy
      rw [ht] at htime
      exact .time hdecl haccuracy htime
  | space hdecl ha ht hs =>
      rw [ha] at haccuracy
      rw [ht] at htime
      rw [hs] at hspace
      exact .space hdecl haccuracy htime hspace
  | passed hdecl ha ht hs =>
      rw [ha] at haccuracy
      rw [ht] at htime
      rw [hs] at hspace
      rw [← hdomain]
      exact .passed hdecl haccuracy htime hspace

end Specification

end StatContract
