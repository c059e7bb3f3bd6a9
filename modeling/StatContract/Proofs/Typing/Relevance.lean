import StatContract.Proofs.Checker.Prefilter
import StatContract.Proofs.Spec.Names
import Mathlib.Data.List.Induction

/-!
# Which declarations matter

Declarations reach the outcome only through the types of the names that the
contracts read from outside. The analysis looks a name up where it occurs free, and
a name that a let or a range binds is looked up in that binder; the generation does
not look at the declarations at all.

The step is `Clause.analyze_congr`: two environments that give the free names the
same types give the same tree and the same result. Ranges hand an environment on, so
their part says that the environments behind them agree on what the body reads.
-/

namespace StatContract

namespace TypeEnv

/-- Two environments give the same types to the names. -/
def AgreeOn (names : List String) (env env' : TypeEnv) : Prop :=
  ∀ name ∈ names, env.typeOf name = env'.typeOf name

namespace AgreeOn

variable {names names' : List String} {env env' : TypeEnv}

theorem of_append_left (h : AgreeOn (names ++ names') env env') : AgreeOn names env env' :=
  fun name hname => h name (List.mem_append_left _ hname)

theorem of_append_right (h : AgreeOn (names ++ names') env env') : AgreeOn names' env env' :=
  fun name hname => h name (List.mem_append_right _ hname)

theorem push (h : AgreeOn names env env') : AgreeOn names env.push env'.push := by
  intro name hname
  rw [typeOf, typeOf, find?_push, find?_push]
  exact h name hname

/-- A definition hides what the environments say about its name. -/
theorem define {var : String} (h : AgreeOn (names.filter (· != var)) env env') (ty : ValueType) :
    AgreeOn names (env.define var ty) (env'.define var ty) := by
  intro name hname
  rw [typeOf, typeOf]
  by_cases hvar : name = var
  · subst hvar
    rw [find?_define_self, find?_define_self]
  · rw [find?_define_of_ne _ _ _ _ hvar, find?_define_of_ne _ _ _ _ hvar]
    exact h name (List.mem_filter.2 ⟨hname, by simpa using hvar⟩)

end AgreeOn

end TypeEnv

open TypeEnv

mutual

/-- The analysis of a clause depends on the types of its free names only. -/
theorem Clause.analyze_congr : ∀ (c : Clause) {env env' : TypeEnv},
    AgreeOn c.freeNames env env' → c.analyze env = c.analyze env'
  | .forAll _ ranges body, env, env', h => by
      rw [Clause.analyze, Clause.analyze]
      rcases Range.analyzeList_congr ranges _ h.push with
        ⟨rs, e, h₁, h₂⟩ | ⟨rs, Δ, Δ', h₁, h₂, hbody⟩
      · rw [h₁, h₂]
      · rw [h₁, h₂]
        simp only [body.analyze_congr hbody]
  | .letIn _ name value body, env, env', h => by
      rw [Clause.analyze, Clause.analyze, value.analyze_congr h.of_append_left]
      rcases value.analyze env' with ⟨value', e | ty⟩
      · rfl
      · simp only [body.analyze_congr (h.of_append_right.push.define ty)]
  | .membership _ item collection, env, env', h => by
      rw [Clause.analyze, Clause.analyze, item.analyze_congr h.of_append_left,
        collection.analyze_congr h.of_append_right]
  | .approx _ lhs rhs, env, env', h => by
      rw [Clause.analyze, Clause.analyze, lhs.analyze_congr h.of_append_left,
        rhs.analyze_congr h.of_append_right]
  | .compare _ lhs _ rhs, env, env', h => by
      rw [Clause.analyze, Clause.analyze, lhs.analyze_congr h.of_append_left,
        rhs.analyze_congr h.of_append_right]
  | .logic _ lhs _ rhs, env, env', h => by
      rw [Clause.analyze, Clause.analyze, lhs.analyze_congr h.of_append_left,
        rhs.analyze_congr h.of_append_right]
  | .not _ c, env, env', h => by
      rw [Clause.analyze, Clause.analyze, c.analyze_congr h]

/-- The analysis of a term depends on the types of its free names only. -/
theorem Term.analyze_congr : ∀ (t : Term) {env env' : TypeEnv},
    AgreeOn t.freeNames env env' → t.analyze env = t.analyze env'
  | .constant .., _, _, _ => rfl
  | .probability _ _ body, env, env', h => by
      rw [Term.analyze, Term.analyze, body.analyze_congr h]
  | .probabilityOverItems _ ranges body, env, env', h => by
      rw [Term.analyze, Term.analyze]
      rcases Range.analyzeList_congr ranges _ h.push with
        ⟨rs, e, h₁, h₂⟩ | ⟨rs, Δ, Δ', h₁, h₂, hbody⟩
      · rw [h₁, h₂]
      · rw [h₁, h₂]
        simp only [body.analyze_congr hbody]
  | .expectation _ _ body, env, env', h => by
      rw [Term.analyze, Term.analyze, body.analyze_congr h]
  | .expectationOverItems _ ranges body, env, env', h => by
      rw [Term.analyze, Term.analyze]
      rcases Range.analyzeList_congr ranges _ h.push with
        ⟨rs, e, h₁, h₂⟩ | ⟨rs, Δ, Δ', h₁, h₂, hbody⟩
      · rw [h₁, h₂]
      · rw [h₁, h₂]
        simp only [body.analyze_congr hbody]
  | .lookup _ collection key, env, env', h => by
      rw [Term.analyze, Term.analyze, collection.analyze_congr h.of_append_left,
        key.analyze_congr h.of_append_right]
  | .identifier _ name, env, env', h => by
      rw [Term.analyze, Term.analyze, h name List.mem_cons_self]
  | .tuple _ elements, env, env', h => by
      rw [Term.analyze, Term.analyze, Term.analyzeList_congr elements h]
  | .binary _ lhs _ rhs, env, env', h => by
      rw [Term.analyze, Term.analyze, lhs.analyze_congr h.of_append_left,
        rhs.analyze_congr h.of_append_right]
  | .sizeOf _ collection, env, env', h => by
      rw [Term.analyze, Term.analyze, collection.analyze_congr h]
  | .call _ name args, env, env', h => by
      have hargs : AgreeOn (Term.freeNamesOfAll args) env env' :=
        fun n hn => h n (List.mem_cons_of_mem name hn)
      rw [Term.analyze, Term.analyze, Term.analyzeList_congr args hargs,
        h name List.mem_cons_self]

/-- The analysis of ranges depends on the types of the free names of the ranges and of
what they are around. It fails alike in both environments, or it goes on in
environments that agree on what the ranges are around. -/
theorem Range.analyzeList_congr : ∀ (ranges : List Range) (names : List String)
    {env env' : TypeEnv}, AgreeOn (Range.freeNamesOfAll ranges names) env env' →
    (∃ rs e, Range.analyzeList env ranges = (rs, .error e) ∧
      Range.analyzeList env' ranges = (rs, .error e)) ∨
    ∃ rs Δ Δ', Range.analyzeList env ranges = (rs, .ok Δ) ∧
      Range.analyzeList env' ranges = (rs, .ok Δ') ∧ AgreeOn names Δ Δ'
  | [], names, env, env', h => .inr ⟨[], env, env', rfl, rfl, h⟩
  | .mk span var collection mode :: rest, names, env, env', h => by
      rw [Range.analyzeList, Range.analyzeList, collection.analyze_congr h.of_append_left]
      rcases collection.analyze env' with ⟨collection', e | ty⟩
      · exact .inl ⟨_, e, rfl, rfl⟩
      · cases helement : ty.element? with
        | none =>
            simp only [helement]
            exact .inl ⟨_, _, rfl, rfl⟩
        | some element =>
            have hrest := h.of_append_right.define (mode.varType element)
            simp only [helement]
            rcases Range.analyzeList_congr rest names hrest with
              ⟨rs, e, h₁, h₂⟩ | ⟨rs, Δ, Δ', h₁, h₂, hnames⟩
            · rw [h₁, h₂]
              exact .inl ⟨_, e, rfl, rfl⟩
            · rw [h₁, h₂]
              exact .inr ⟨_, Δ, Δ', rfl, rfl, hnames⟩

theorem Term.analyzeList_congr : ∀ (ts : List Term) {env env' : TypeEnv},
    AgreeOn (Term.freeNamesOfAll ts) env env' →
    Term.analyzeList env ts = Term.analyzeList env' ts
  | [], _, _, _ => rfl
  | t :: rest, env, env', h => by
      rw [Term.analyzeList, Term.analyzeList, t.analyze_congr h.of_append_left,
        Term.analyzeList_congr rest h.of_append_right]

end

namespace Decl

/-- The type that declarations give to a name: of the declarations of the name the last
counts, and without one the name is a scalar. -/
def typeIn (decls : List Decl) (name : String) : ValueType :=
  ((decls.filter (·.name == name)).getLast?.map Decl.ty).getD .scalar

/-- The same declarations in another order, those of one name in the same one. -/
def Reordered (decls decls' : List Decl) : Prop :=
  ∀ name, decls.filter (·.name == name) = decls'.filter (·.name == name)

theorem typeIn_insert_of_ne (before after : List Decl) {d : Decl} {name : String}
    (h : d.name ≠ name) : typeIn (before ++ d :: after) name = typeIn (before ++ after) name := by
  have hd : (d.name == name) = false := by simpa using h
  simp [typeIn, hd]

/-- Declaring a name that was not declared as what it was taken for changes no type. -/
theorem typeIn_insert_scalar {before after : List Decl} {d : Decl}
    (hnew : ∀ e ∈ before ++ after, e.name ≠ d.name) (hd : d.ty = .scalar) (name : String) :
    typeIn (before ++ d :: after) name = typeIn (before ++ after) name := by
  by_cases h : d.name = name
  · subst h
    rw [List.forall_mem_append] at hnew
    have hbefore : before.filter (·.name == d.name) = [] := by
      simpa [List.filter_eq_nil_iff] using hnew.1
    have hafter : after.filter (·.name == d.name) = [] := by
      simpa [List.filter_eq_nil_iff] using hnew.2
    simp [typeIn, hbefore, hafter, hd]
  · exact typeIn_insert_of_ne before after h

end Decl

namespace Specification

/-- The names that the contracts of a specification read from outside. -/
def freeNames (spec : Specification) : List String :=
  (spec.accuracy.map Clause.freeNames).getD [] ++ (spec.time.map Term.freeNames).getD []
    ++ (spec.space.map Term.freeNames).getD []

/-- The same contracts over other declarations. -/
def withDecls (spec : Specification) (decls : List Decl) : Specification := { spec with decls }

@[simp] theorem accuracy_withDecls (spec : Specification) (decls : List Decl) :
    (spec.withDecls decls).accuracy = spec.accuracy := rfl

@[simp] theorem time_withDecls (spec : Specification) (decls : List Decl) :
    (spec.withDecls decls).time = spec.time := rfl

@[simp] theorem space_withDecls (spec : Specification) (decls : List Decl) :
    (spec.withDecls decls).space = spec.space := rfl

/-- Two specifications that differ at most in their declarations. -/
structure SameContracts (spec other : Specification) : Prop where
  accuracy : other.accuracy = spec.accuracy
  time : other.time = spec.time
  space : other.space = spec.space
  span : other.span = spec.span

/-- Everything that is made of two specifications is the same: the annotated contracts and
the result of the analysis, the answer of the check, and the generated module or the
defect that prevents it. -/
structure SameResults (spec other : Specification) : Prop where
  annotations : spec.analyze.1.SameContracts other.analyze.1
  result : other.analyze.2 = spec.analyze.2
  check : other.check = spec.check
  compile : ∀ options, other.compile options = spec.compile options

theorem SameContracts.eq_withDecls {spec other : Specification} (h : spec.SameContracts other) :
    other = spec.withDecls other.decls := by
  obtain ⟨decls, accuracy, time, space, span⟩ := other
  obtain ⟨rfl, rfl, rfl, rfl⟩ := h
  rfl

/-- The environment of the declarations gives a name its declared type. -/
theorem typeOf_env (spec : Specification) (name : String) :
    spec.env.typeOf name = Decl.typeIn spec.decls name := by
  have hfind : ∀ decls : List Decl,
      (decls.foldl (fun env d => env.define d.name d.ty) ({} : TypeEnv)).find? name =
        (decls.filter (·.name == name)).getLast?.map Decl.ty := by
    intro decls
    induction decls using List.reverseRecOn with
    | nil => rfl
    | append_singleton decls d ih =>
        rw [List.foldl_append, List.filter_append]
        by_cases h : d.name = name
        · subst h
          simp
        · have hd : (d.name == name) = false := by simpa using h
          simpa [hd, find?_define_of_ne _ _ _ _ (Ne.symm h)] using ih
  rw [typeOf, env, hfind, Decl.typeIn]

theorem analyzePart_congr {α β : Type} {f g : α → α × Except SpecError β} {part : Option α}
    (h : ∀ a ∈ part, f a = g a) : analyzePart f part = analyzePart g part := by
  cases part with
  | none => rfl
  | some a => rw [analyzePart, analyzePart, h a rfl]

/-- Declarations that give the free names the same types are annotated alike. -/
theorem analyze_withDecls {spec : Specification} {decls : List Decl}
    (hspec : spec.missingDeclaration? = none)
    (hdecls : (spec.withDecls decls).missingDeclaration? = none)
    (h : AgreeOn spec.freeNames spec.env (spec.withDecls decls).env) :
    (spec.withDecls decls).analyze = (spec.analyze.1.withDecls decls, spec.analyze.2) := by
  have haccuracy : ∀ c ∈ spec.accuracy,
      c.analyze (spec.withDecls decls).env = c.analyze spec.env := by
    intro c hc
    have hnames := h.of_append_left.of_append_left
    rw [Option.mem_def.1 hc] at hnames
    exact (c.analyze_congr hnames).symm
  have htime : ∀ t ∈ spec.time, t.analyze (spec.withDecls decls).env = t.analyze spec.env := by
    intro t ht
    have hnames := h.of_append_left.of_append_right
    rw [Option.mem_def.1 ht] at hnames
    exact (t.analyze_congr hnames).symm
  have hspace : ∀ t ∈ spec.space, t.analyze (spec.withDecls decls).env = t.analyze spec.env := by
    intro t ht
    have hnames := h.of_append_right
    rw [Option.mem_def.1 ht] at hnames
    exact (t.analyze_congr hnames).symm
  rw [analyze_of_declared hdecls, analyze_of_declared hspec, analyzeContracts, analyzeContracts]
  simp only [accuracy_withDecls, time_withDecls, space_withDecls,
    analyzePart_congr haccuracy, analyzePart_congr htime, analyzePart_congr hspace]
  -- The contracts are looked at in turn, and the first that fails decides.
  rcases analyzePart (Clause.analyze spec.env) spec.accuracy with ⟨accuracy, _ | e⟩
  · rcases analyzePart (Term.analyze spec.env) spec.time with ⟨time, _ | e⟩
    · rcases analyzePart (Term.analyze spec.env) spec.space with ⟨space, _ | e⟩
      · rfl
      · rfl
    · rfl
  · rfl

theorem declares_of_reordered {spec : Specification} {decls : List Decl}
    (h : Decl.Reordered decls spec.decls) {name : String} (hname : spec.Declares name) :
    (spec.withDecls decls).Declares name := by
  obtain ⟨d, hd, rfl⟩ := hname
  have hmem : d ∈ spec.decls.filter (·.name == d.name) := List.mem_filter.2 ⟨hd, by simp⟩
  rw [← h] at hmem
  exact ⟨d, (List.mem_filter.1 hmem).1, rfl⟩

/-- After the analysis nothing looks at the declarations. -/
theorem sameResults_withDecls {spec : Specification} {decls : List Decl}
    (h : (spec.withDecls decls).analyze = (spec.analyze.1.withDecls decls, spec.analyze.2)) :
    spec.SameResults (spec.withDecls decls) where
  annotations := by
    rw [h]
    exact ⟨rfl, rfl, rfl, rfl⟩
  result := by rw [h]
  check := by
    unfold check
    rw [h]
    rfl
  compile options := by
    unfold compile
    rw [h]
    rfl

/-- The declarations matter only through the types that they give to the names which the
contracts read from outside. Two specifications with the same contracts and the same types
for these names have the same results. So it changes nothing to put declarations of
different names in another order, to declare a name that the contracts do not read, or to
declare as a scalar a parameter that was not declared. -/
theorem used_types_decide_results {spec : Specification} (houtput : spec.Declares outputName)
    (hinput : spec.Declares inputName) :
    (∀ other : Specification, other.Declares outputName → other.Declares inputName →
      spec.SameContracts other →
      (∀ name ∈ spec.freeNames, Decl.typeIn other.decls name = Decl.typeIn spec.decls name) →
      spec.SameResults other) ∧
    (∀ decls, Decl.Reordered decls spec.decls → spec.SameResults (spec.withDecls decls)) ∧
    ∀ before after d, spec.decls = before ++ after →
      (d.name ∉ spec.freeNames ∨ ¬ spec.Declares d.name ∧ d.ty = .scalar) →
      spec.SameResults (spec.withDecls (before ++ d :: after)) := by
  have hmissing : ∀ other : Specification, other.Declares outputName → other.Declares inputName →
      other.missingDeclaration? = none :=
    fun other h₁ h₂ => (missingDeclaration?_eq_none_iff other).2 ⟨h₁, h₂⟩
  -- Each of the three changes leaves the types of the free names alone, which is all that counts.
  have hmain : ∀ decls, (spec.withDecls decls).Declares outputName →
      (spec.withDecls decls).Declares inputName →
      (∀ name ∈ spec.freeNames, Decl.typeIn decls name = Decl.typeIn spec.decls name) →
      spec.SameResults (spec.withDecls decls) := by
    intro decls h₁ h₂ htypes
    refine sameResults_withDecls (analyze_withDecls (hmissing spec houtput hinput)
      (hmissing _ h₁ h₂) fun name hname => ?_)
    rw [typeOf_env, typeOf_env]
    exact (htypes name hname).symm
  refine ⟨?_, ?_, ?_⟩
  · intro other h₁ h₂ hcontracts htypes
    rw [hcontracts.eq_withDecls] at h₁ h₂ ⊢
    exact hmain other.decls h₁ h₂ htypes
  · intro decls hdecls
    refine hmain decls (declares_of_reordered hdecls houtput)
      (declares_of_reordered hdecls hinput) fun name _ => ?_
    rw [Decl.typeIn, hdecls name, Decl.typeIn]
  · intro before after d hsplit hd
    have hdeclares : ∀ name, spec.Declares name →
        (spec.withDecls (before ++ d :: after)).Declares name := by
      rintro name ⟨e, he, hname⟩
      rw [hsplit] at he
      refine ⟨e, ?_, hname⟩
      exact List.mem_append.2 ((List.mem_append.1 he).imp_right (List.mem_cons_of_mem d))
    refine hmain _ (hdeclares _ houtput) (hdeclares _ hinput) fun name hname => ?_
    rw [hsplit]
    rcases hd with hunused | ⟨hnew, hscalar⟩
    · exact Decl.typeIn_insert_of_ne before after fun h => hunused (h ▸ hname)
    · refine Decl.typeIn_insert_scalar (fun e he heq => hnew ⟨e, ?_, heq⟩) hscalar name
      rwa [hsplit]

/-- For each element of the input, the share of the runs above it reaches a level. The
level is a parameter, and what is declared for the element's name is hidden by the range. -/
def shareAboveElements : Specification where
  decls := [⟨"Output", .scalar, .dummy⟩, ⟨"Input", .sequence .scalar, .dummy⟩,
    ⟨"x", .sequence .scalar, .dummy⟩]
  accuracy := some (.forAll .dummy [.mk .dummy "x" (.identifier {} "Input") .elements]
    (.compare .dummy
      (.probability {} .runs
        (.compare .dummy (.identifier {} "Output") .gt (.identifier {} "x")))
      .ge (.identifier {} "level")))

theorem used_types_decide_results_shareAboveElements :
    shareAboveElements.freeNames = ["Input", "Output", "level"] ∧
    shareAboveElements.check = .ok .overRuns ∧
    shareAboveElements.SameResults (shareAboveElements.withDecls
      [⟨"level", .scalar, .dummy⟩, ⟨"Input", .scalar, .dummy⟩, ⟨"Output", .scalar, .dummy⟩,
        ⟨"Input", .sequence .scalar, .dummy⟩]) ∧
    shareAboveElements.SameResults (shareAboveElements.withDecls
      [⟨"x", .sequence .scalar, .dummy⟩, ⟨"Input", .sequence .scalar, .dummy⟩,
        ⟨"Output", .scalar, .dummy⟩]) ∧
    shareAboveElements.SameResults (shareAboveElements.withDecls
      (⟨"level", .scalar, .dummy⟩ :: shareAboveElements.decls)) := by
  have houtput : shareAboveElements.Declares outputName := ⟨_, List.mem_cons_self, rfl⟩
  have hinput : shareAboveElements.Declares inputName :=
    ⟨_, List.mem_cons_of_mem _ List.mem_cons_self, rfl⟩
  have hlevel : ¬ shareAboveElements.Declares "level" := by
    simp [Declares, shareAboveElements]
  obtain ⟨hsame, hreordered, hadded⟩ := used_types_decide_results houtput hinput
  refine ⟨rfl, rfl, hsame _ ?_ ?_ ⟨rfl, rfl, rfl, rfl⟩ ?_, hreordered _ fun name => ?_,
    hadded [] _ ⟨"level", .scalar, .dummy⟩ rfl (.inr ⟨hlevel, rfl⟩)⟩
  · exact ⟨_, List.mem_cons_of_mem _ (List.mem_cons_of_mem _ List.mem_cons_self), rfl⟩
  · exact ⟨_, List.mem_cons_of_mem _ List.mem_cons_self, rfl⟩
  · decide
  · by_cases h₁ : "x" = name
    · subst h₁
      rfl
    · by_cases h₂ : "Input" = name
      · subst h₂
        rfl
      · simp [shareAboveElements, List.filter_cons, h₁, h₂]

end Specification

end StatContract
