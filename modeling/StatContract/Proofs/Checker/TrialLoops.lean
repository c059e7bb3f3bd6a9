import StatContract.Proofs.Checker.Aggregation
import StatContract.Proofs.Code.Reach
import StatContract.Proofs.Lowering.Frame

/-!
# Trial loops and the samples they look at

A checker for trials gets an aggregate, takes the list of outputs out of it, and goes
through the trials by their numbers. For runs the two fit: the list has one output for each
run of the input, in the order of the runs. For inputs the list has one output for each run
of each input, while the loop has one turn for each input. So the loop stays within the
first outputs unless each input has one run; in turn `k` it looks at run `k % R` of input
`k / R`.
-/

namespace StatContract

variable {α : Type}

namespace Trials

/-- For each call of a checker, the runs whose outputs it gets. -/
def groups {β : Type} (trials : Trials) (rss : List (List β)) : List (List β) :=
  match trials with
  | .runs => rss
  | .inputs => [rss.flatten]

/-- The number of trials. -/
def number (trials : Trials) (inputs runs : Nat) : Nat :=
  match trials with
  | .runs => runs
  | .inputs => inputs

end Trials

/-- What the harness calls a checker with, for a configuration and its inputs, each with
the outputs of its runs. For runs there is one call for each input, for inputs there is a
single one. -/
def CheckerModule.checkerCalls (ops : Operations (Object α)) (m : CheckerModule) (trials : Trials)
    (config : Object α) (runs : Nat) (inputs : List (Object α × List (Object α))) :
    Option (List (List (Object α))) := do
  let aggs ← (inputs.map Prod.snd).mapM (m.fold ops "inpAgg")
  match trials with
  | .runs => some (inputs.zipWith (fun p agg => [config, p.1, .number runs, agg]) aggs)
  | .inputs => do
    let agg ← m.fold ops "cfgAgg" aggs
    some [[config, .number runs, .number inputs.length, agg]]

/-- What the checker of a clause sees when it is called. It takes a list of samples out of
its last argument. Where a loop over the trials begins, the list is still there, unless the
clause binds its name again, and the loop has a turn for each number below a bound, unless
the clause hides the number of trials or the function that counts up to it. If the clause is
a probability comparison, there is such a loop. -/
structure FunctionDef.Sees (ops : Operations (Object α)) (f : FunctionDef) (clause : Clause)
    (trials : Trials) (args samples : List (Object α)) (turns : Nat) : Prop where
  length_eq : args.length = f.params.length
  first : ∃ rest, f.body = .set outputName (.entry (.name outputName) "acc") :: rest ∧
    (Object.runtime ops).eval (.entry (.name outputName) "acc") (.ofArgs f.params args) =
      some (.list samples)
  samples_eq {var : String} {loop : List Stmt} {τ : Store (Object α)} :
    Stmt.Reaches (Object.runtime ops).interpretation f.body (.ofArgs f.params args)
      (.forIn var (.range (.name (Lower.trialCount trials))) loop) τ →
    outputName ∉ clause.binders → τ outputName = some (.list samples)
  turns_eq {var : String} {loop : List Stmt} {τ : Store (Object α)} :
    Stmt.Reaches (Object.runtime ops).interpretation f.body (.ofArgs f.params args)
      (.forIn var (.range (.name (Lower.trialCount trials))) loop) τ →
    Lower.trialCount trials ∉ clause.binders → "range" ∉ clause.binders →
    ((Object.runtime ops).eval (.range (.name (Lower.trialCount trials))) τ).bind
      (Object.runtime ops).items = some ((List.range turns).map fun i : Nat => .number i)
  reaches {span : Span} {note : Note} {body : Clause} {op : CmpOp} {rhs : Term} :
    clause = .compare span (.probability note trials body) op rhs →
    ∃ var loop τ, Stmt.Reaches (Object.runtime ops).interpretation f.body
      (.ofArgs f.params args) (.forIn var (.range (.name (Lower.trialCount trials))) loop) τ

/-- The variables hold what a checker for trials reads at its start: an aggregate with the
samples, and the number of trials. -/
structure Store.Provides (σ : Store (Object α)) (trials : Trials) (samples : List (Object α))
    (turns : Nat) : Prop where
  output : ∃ s : Summary α, σ outputName = some s.toObject ∧ s.accs = samples
  count : σ (Lower.trialCount trials) = some (.number turns)
  range : σ "range" = none

section Checkers

open Object

variable {ops : Operations (Object α)} {target : Target} {trials : Trials} {clause : Clause}
  {signature : Signature} {f : FunctionDef}

/-- After its first statement a checker gives values to the names that its clause binds and
to temporaries only. -/
theorem Clause.body_of_checker {d : Domain} (h : clause.checker target d signature = .ok f) :
    f.params = signature.params ∧ ∃ rest,
      f.body = .set outputName (.entry (.name outputName) "acc") :: rest ∧
      ∀ x ∈ Stmt.assignedOfAll rest, x ∈ clause.binders ∨ IsTemp x := by
  obtain ⟨-, hparams, stmts, v, k, hemits, hbody⟩ := exists_body_of_checker h
  refine ⟨hparams, stmts ++ v.ending k, hbody, fun x hx => ?_⟩
  rw [Stmt.assignedOfAll_append, List.mem_append] at hx
  rcases hx with hx | hx
  · refine (hemits.assigned_cases x hx).imp_right ?_
    rintro ⟨i, -, -, rfl⟩
    exact ⟨i, rfl⟩
  · rw [Verdict.ending] at hx
    split at hx
    · cases hx
    · obtain rfl : x = tempName k := by simpa [Stmt.assignedOfAll, Stmt.assigned, Stmt.set] using hx
      exact .inr ⟨k, rfl⟩

/-- What becomes a probability comparison without types is one with types. -/
theorem Clause.exists_of_eraseTypes_probability {span : Span} {note : Note} {body : Clause}
    {op : CmpOp} {rhs : Term}
    (h : clause.eraseTypes =
      (Clause.compare span (.probability note trials body) op rhs).eraseTypes) :
    ∃ note' body' rhs', clause = .compare span (.probability note' trials body') op rhs' := by
  cases clause with
  | compare _ lhs _ rhs' =>
      cases lhs <;> simp only [eraseTypes, Term.eraseTypes, compare.injEq, Term.probability.injEq,
        reduceCtorEq, false_and, and_false] at h
      obtain ⟨rfl, ⟨-, rfl, -⟩, rfl, -⟩ := h
      exact ⟨_, _, _, rfl⟩
  | _ => simp only [eraseTypes, reduceCtorEq] at h

/-- The checker of a probability comparison comes to the loop over its trials. -/
theorem Clause.reaches_loop_of_checker {d : Domain} {span : Span} {note : Note} {body : Clause}
    {op : CmpOp} {rhs : Term} {σ : Store (Object α)} {v : Object α}
    (h : (Clause.compare span (.probability note trials body) op rhs).checker target d signature =
      .ok f)
    (hacc : (runtime ops).eval (.entry (.name outputName) "acc") σ = some v) :
    ∃ var loop τ, Stmt.Reaches (runtime ops).interpretation f.body σ
      (.forIn var (.range (.name (Lower.trialCount trials))) loop) τ := by
  obtain ⟨-, -, stmts, verdict, k, hemits, hbody⟩ := exists_body_of_checker h
  have hfirst : (Stmt.set outputName (.entry (.name outputName) "acc")).run
      (runtime ops).interpretation σ = some (.next, σ.set outputName v) := Stmt.run_set hacc
  have hzero : (runtime ops).eval (.nat 0) (σ.set outputName v) = some (.number (0 : Nat)) :=
    eval_nat 0 _
  rw [hbody]
  cases hemits with
  | probability => exact ⟨_, _, _, .later hfirst (.later (Stmt.run_set hzero) (.here ..))⟩
  | compare hplain => cases hplain

/-- A checker that is called with an aggregate and the number of trials sees the outputs of
the aggregate and counts the trials. -/
theorem Clause.sees_of_checker {d : Domain} {clause' : Clause}
    (h : clause'.checker target d signature = .ok f)
    (herase : clause'.eraseTypes = clause.eraseTypes) {args samples : List (Object α)}
    {turns : Nat} (hlength : args.length = f.params.length)
    (hargs : (Store.ofArgs f.params args).Provides trials samples turns) :
    f.Sees ops clause trials args samples turns := by
  obtain ⟨-, rest, hbody, hassigned⟩ := body_of_checker h
  rw [← Clause.binders_eraseTypes, herase, Clause.binders_eraseTypes] at hassigned
  obtain ⟨s, houtput, rfl⟩ := hargs.output
  have hacc : (runtime ops).eval (.entry (.name outputName) "acc") (.ofArgs f.params args) =
      some (.list s.accs) :=
    (eval_entry houtput).trans (item_dict ops _ _)
  -- From the first statement to the loop only bound names and temporaries change.
  have hkeep {var : String} {body : List Stmt} {source : Code} {τ : Store (Object α)}
      (hreach : Stmt.Reaches (runtime ops).interpretation f.body (.ofArgs f.params args)
        (.forIn var source body) τ) {x : String} (hx : x ∉ clause.binders)
      (hhead : x.toList.head? ≠ some 't') :
      τ x = (Store.ofArgs f.params args).set outputName (.list s.accs) x := by
    rw [hbody] at hreach
    have hfresh : x ∉ Stmt.assignedOfAll rest := fun hmem =>
      (hassigned x hmem).elim hx (not_isTemp_of_head hhead)
    cases hreach with
    | later hrun hreach =>
        rw [Stmt.run_set hacc] at hrun
        cases hrun
        exact hreach.eq_of_notMem hfresh
  refine ⟨hlength, ⟨rest, hbody, hacc⟩, ?_, ?_, ?_⟩
  · intro var loop τ hreach hx
    rw [hkeep hreach hx (by decide), Store.set_self]
  · intro var loop τ hreach hcount hrange
    have hcount' := hkeep hreach hcount (by cases trials <;> decide)
    have hrange' := hkeep hreach hrange (by decide)
    rw [Store.set_of_ne _ _ (by cases trials <;> decide), hargs.count] at hcount'
    rw [Store.set_of_ne _ _ (by decide), hargs.range] at hrange'
    rw [eval_range hrange' hcount']
    rfl
  · rintro span note body op rhs rfl
    obtain ⟨note', body', rhs', rfl⟩ := exists_of_eraseTypes_probability herase
    exact reaches_loop_of_checker h hacc

end Checkers

/-- In lists of one length after each other, each entry is found by division. -/
theorem getElem?_flatten_of_length {β : Type} {n : Nat} (hn : 0 < n) {xss : List (List β)}
    (h : ∀ xs ∈ xss, xs.length = n) (k : Nat) :
    xss.flatten[k]? = xss[k / n]?.bind (·[k % n]?) := by
  induction xss generalizing k with
  | nil => rfl
  | cons xs xss ih =>
      obtain ⟨hxs, hxss⟩ := List.forall_mem_cons.1 h
      rw [List.flatten_cons]
      by_cases hk : k < n
      · rw [List.getElem?_append_left (by omega), Nat.div_eq_of_lt hk, Nat.mod_eq_of_lt hk]
        rfl
      · have hdiv : k / n = (k - n) / n + 1 := Nat.div_eq_sub_div hn (Nat.le_of_not_lt hk)
        have hmod : k % n = (k - n) % n := Nat.mod_eq_sub_mod (Nat.le_of_not_lt hk)
        rw [List.getElem?_append_right (by omega), ih hxss, hxs, hdiv, hmod,
          List.getElem?_cons_succ]

theorem length_flatten_of_length {β : Type} {n : Nat} {xss : List (List β)}
    (h : ∀ xs ∈ xss, xs.length = n) : xss.flatten.length = xss.length * n := by
  induction xss with
  | nil => simp
  | cons xs xss ih =>
      obtain ⟨hxs, hxss⟩ := List.forall_mem_cons.1 h
      rw [List.flatten_cons, List.length_append, ih hxss, hxs, List.length_cons, Nat.succ_mul,
        Nat.add_comm]

/-- A call gets as many outputs as there are trials exactly if the trials are runs or each
input has one run. -/
theorem Trials.length_groups_iff {β : Type} (trials : Trials) {rss : List (List β)} {runs : Nat}
    (hruns : ∀ rs ∈ rss, rs.length = runs) (hne : rss ≠ []) :
    ∀ rs ∈ trials.groups rss, rs.length = trials.number rss.length runs ↔
      trials = .runs ∨ runs = 1 := by
  cases trials with
  | runs => exact fun rs hrs => ⟨fun _ => .inl rfl, fun _ => hruns rs hrs⟩
  | inputs =>
      refine List.forall_mem_singleton.2 ?_
      rw [length_flatten_of_length hruns, number, Nat.mul_eq_left (by simpa using hne)]
      exact ⟨.inr, fun h => h.resolve_left (by decide)⟩

section Harness

open Object

variable {spec : Specification} {options : CheckerOptions} {m : CheckerModule} {clause : Clause}
  {trials : Trials} {ops : Operations (Object α)} {inputs : List (Object α × List (Object α))}
  {rss : List (List (Measurement α))}

/-- The first function of a module with an accuracy clause is the checker of the clause. -/
theorem Specification.exists_checker_of_compile (h : spec.compile options = .ok m)
    (hclause : spec.accuracy = some clause) :
    ∃ (clause' : Clause) (target : Target) (signature : Signature) (f : FunctionDef)
      (others : List FunctionDef), m.functions = f :: others ∧
      m.domain.signature? = some signature ∧
      clause'.checker target m.domain signature = .ok f ∧
      clause'.eraseTypes = clause.eraseTypes := by
  have hgenerate := generate_of_compile h
  rcases hanalyze : spec.analyze with ⟨spec', r⟩
  rw [hanalyze] at hgenerate
  obtain ⟨clause', hclause', herase⟩ := accuracy_analyze hanalyze hclause
  obtain ⟨target, signature, f, others, hsignature, hf, hfunctions⟩ :=
    exists_checker_of_generate hgenerate hclause'
  have hdomain : m.domain = clause'.domain := by
    rw [domain_of_generate hgenerate, domain, hclause']
  refine ⟨clause', target, signature, f, others, hfunctions, ?_, ?_, herase⟩
  · rw [hdomain, hsignature]
  · rw [hdomain, hf]

/-- The harness calls a checker for trials with what it reads. -/
theorem CheckerModule.exists_checkerCalls (h : spec.compile options = .ok m)
    (hdomain : m.domain = trials.domain) {signature : Signature}
    (hsignature : m.domain.signature? = some signature) (config : Object α) (runs : Nat)
    (hinputs : inputs ≠ []) (hempty : [] ∉ inputs.map Prod.snd)
    (hrss : List.Forall₂ (fun p rs => List.Forall₂ (Object.Holds ops) p.2 rs) inputs rss) :
    ∃ calls, m.checkerCalls ops trials config runs inputs = some calls ∧
      List.Forall₂ (fun args rs => args.length = signature.params.length ∧
          (Store.ofArgs signature.params args).Provides trials (rs.map Measurement.acc)
            (trials.number inputs.length runs))
        calls (trials.groups rss) := by
  have haggs := mapM_fold_inpAgg h (List.forall₂_map_left_iff.2 hrss) hempty
  rw [hdomain] at hsignature
  cases trials with
  | runs =>
      cases hsignature
      refine ⟨_, by rw [checkerCalls, haggs]; rfl, ?_⟩
      clear haggs hinputs hempty
      induction hrss with
      | nil => exact .nil
      | cons _ _ ih =>
          refine .cons ⟨rfl, ⟨_, rfl, ?_⟩, rfl, rfl⟩ ih
          rw [Summary.ofRuns, hdomain]
          rfl
  | inputs =>
      cases hsignature
      have hne : rss ≠ [] := by
        rw [Ne, ← List.length_eq_zero_iff, ← hrss.length_eq]
        simpa using hinputs
      refine ⟨[[config, .number runs, .number inputs.length,
        (Summary.ofInputs m.domain rss).toObject]], ?_, .cons ⟨rfl, ⟨_, rfl, ?_⟩, rfl, rfl⟩ .nil⟩
      · simp only [checkerCalls, haggs, Option.bind_eq_bind, Option.bind_some, fold_cfgAgg h hne]
      · rw [Summary.ofInputs, hdomain, List.map_flatten, List.flatMap_def]
        rfl

/-- All inputs have their runs measured. -/
theorem length_of_holds {runs : Nat}
    (hrss : List.Forall₂ (fun p rs => List.Forall₂ (Object.Holds ops) p.2 rs) inputs rss)
    (hlength : ∀ p ∈ inputs, p.2.length = runs) : ∀ rs ∈ rss, rs.length = runs := by
  induction hrss with
  | nil => exact List.forall_mem_nil _
  | cons hrs _ ih =>
      obtain ⟨hp, hrest⟩ := List.forall_mem_cons.1 hlength
      exact List.forall_mem_cons.2 ⟨hrs.length_eq.symm.trans hp, ih hrest⟩

/-- The loops over the trials, and the samples that the checker takes out of the aggregate.
When each of the inputs of a configuration has been run a number of times and the outputs
are aggregated, each call of the checker takes out the outputs of the runs that it is about,
in order, and its loops have a turn for each trial. The numbers of the two agree exactly if
the trials are runs or there is one run for each input; otherwise the outputs are those of
all runs, input by input, and there are fewer turns. -/
theorem trial_loops_against_samples (h : spec.compile options = .ok m)
    (hclause : spec.accuracy = some clause) (hdomain : clause.domain = trials.domain)
    (config : Object α) {runs : Nat} (hruns : 0 < runs) (hinputs : inputs ≠ [])
    (hlength : ∀ p ∈ inputs, p.2.length = runs)
    (hrss : List.Forall₂ (fun p rs => List.Forall₂ (Object.Holds ops) p.2 rs) inputs rss) :
    ∃ f others calls, m.functions = f :: others ∧
      m.domain.signature? = some ⟨f.name, f.params⟩ ∧
      m.checkerCalls ops trials config runs inputs = some calls ∧
      List.Forall₂ (fun args rs => f.Sees ops clause trials args (rs.map Measurement.acc)
        (trials.number inputs.length runs)) calls (trials.groups rss) ∧
      (∀ rs ∈ trials.groups rss, rs.length = trials.number inputs.length runs ↔
        trials = .runs ∨ runs = 1) ∧
      (trials = .inputs → ∀ rs ∈ trials.groups rss, ∀ k,
        rs[k]? = rss[k / runs]?.bind (·[k % runs]?)) := by
  obtain ⟨clause', target, signature, f, others, hfunctions, hsignature, hf, herase⟩ :=
    Specification.exists_checker_of_compile h hclause
  have hm : m.domain = trials.domain := by
    rw [Specification.domain_of_compile h, Specification.domain, hclause]
    exact hdomain
  -- Aggregates are made of at least one run, so no input may be without any.
  have hempty : [] ∉ inputs.map Prod.snd := by
    intro hmem
    obtain ⟨p, hp, hnil⟩ := List.mem_map.1 hmem
    rw [← hlength p hp, hnil] at hruns
    exact absurd hruns (Nat.lt_irrefl 0)
  obtain ⟨calls, hcalls, hprovides⟩ :=
    CheckerModule.exists_checkerCalls h hm hsignature config runs hinputs hempty hrss
  obtain ⟨hname, hparams, -⟩ := Clause.exists_body_of_checker hf
  have hrss' := length_of_holds hrss hlength
  refine ⟨f, others, calls, hfunctions, ?_, hcalls, ?_, ?_, ?_⟩
  · rw [hsignature, hname, hparams]
  · refine hprovides.imp fun args rs hargs => ?_
    rw [← hparams] at hargs
    exact Clause.sees_of_checker hf herase hargs.1 hargs.2
  · have hne : rss ≠ [] := by
      rw [Ne, ← List.length_eq_zero_iff, ← hrss.length_eq]
      simpa using hinputs
    rw [hrss.length_eq]
    exact trials.length_groups_iff hrss' hne
  · rintro rfl
    exact List.forall_mem_singleton.2 (getElem?_flatten_of_length hruns hrss')

end Harness

/-- Two inputs with two runs each. -/
def fourRuns : List (Object Empty × List (Object Empty)) :=
  [(.absent, [(Measurement.timed 1 1).output, (Measurement.timed 2 1).output]),
    (.absent, [(Measurement.timed 3 1).output, (Measurement.timed 4 1).output])]

/-- The loop over two inputs has two turns, and looks at a list of four outputs. -/
theorem trial_loops_against_samples_fourRuns :
    ∃ m f others args var body τ, (Specification.positiveTrials .inputs).compile {} = .ok m ∧
      m.functions = f :: others ∧
      m.checkerCalls Object.closed .inputs .absent 2 fourRuns = some [args] ∧
      Stmt.Reaches (Object.runtime Object.closed).interpretation f.body (.ofArgs f.params args)
        (.forIn var (.range (.name "Inputs")) body) τ ∧
      ((Object.runtime Object.closed).eval (.range (.name "Inputs")) τ).bind
        (Object.runtime Object.closed).items = some [.number 0, .number 1] ∧
      τ "Output" = some (.list [.number 1, .number 2, .number 3, .number 4]) := by
  obtain ⟨m, hm, hdomain⟩ := Specification.exists_compile_positiveTrials .inputs
  have hclause : (Specification.positiveTrials .inputs).accuracy =
      some (Clause.positiveIn .inputs) := rfl
  have hinputs : (Clause.positiveIn .inputs).domain = Trials.inputs.domain := rfl
  have hlength : ∀ p ∈ fourRuns, p.2.length = 2 := by simp [fourRuns]
  have hrss : List.Forall₂ (fun p rs => List.Forall₂ (Object.Holds Object.closed) p.2 rs) fourRuns
      [[.timed 1 1, .timed 2 1], [.timed 3 1, .timed 4 1]] :=
    have hpair (a b : Nat) : List.Forall₂ (Object.Holds Object.closed)
        [(Measurement.timed a 1).output, (Measurement.timed b 1).output]
        [.timed a 1, .timed b 1] :=
      .cons (Measurement.holds_output _ _) (.cons (Measurement.holds_output _ _) .nil)
    .cons (hpair 1 2) (.cons (hpair 3 4) .nil)
  obtain ⟨f, others, calls, hfunctions, -, hcalls, hsees, -⟩ :=
    trial_loops_against_samples hm hclause hinputs .absent (by decide) (by simp [fourRuns])
      hlength hrss
  cases hsees with
  | @cons args _ _ _ hsees hnil =>
      cases hnil
      obtain ⟨var, loop, τ, hreach⟩ := hsees.reaches rfl
      exact ⟨m, f, others, args, var, loop, τ, hm, hfunctions, hcalls, hreach,
        hsees.turns_eq hreach (by decide) (by decide), hsees.samples_eq hreach (by decide)⟩

end StatContract
