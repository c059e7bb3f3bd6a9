import StatContract.Proofs.Checker.TrialBounds
import StatContract.Proofs.Code.Call
import Mathlib.Algebra.BigOperators.Group.List.Basic
import Mathlib.Algebra.Field.Rat
import Mathlib.Data.List.Forall2
import Mathlib.Tactic.NormNum.Inv

/-!
# What the aggregators compute

The harness folds the outputs of the runs of an input with `inpAgg`, starting from
nothing, and the aggregates of the inputs of a configuration with `cfgAgg`. Each call
gets the number of the value that it folds in, and updates the means of the values
before it. A call is one step (`Summary.push`); that a fold of any length ends with the
means of all values and with what the steps kept of them is an induction on the values,
`CheckerModule.fold_of_folds`. The two aggregators differ in what they keep.
-/

namespace StatContract

variable {α : Type}

/-- The arithmetic mean. -/
def mean (xs : List ℚ) : ℚ := xs.sum / xs.length

/-- The mean of one number more, from the mean of those before it. -/
theorem mean_append_singleton (xs : List ℚ) (x : ℚ) :
    mean (xs ++ [x]) = (mean xs * xs.length + x) / (xs.length + 1) := by
  rcases eq_or_ne xs [] with rfl | hxs
  · simp [mean]
  · have hlength : (xs.length : ℚ) ≠ 0 := by simpa using hxs
    simp only [mean, List.sum_append, List.sum_singleton, List.length_append,
      List.length_singleton, Nat.cast_add, Nat.cast_one, div_mul_cancel₀ _ hlength]

/-- What an aggregate says: the outputs that were kept, and the means of the costs. -/
structure Summary (α : Type) where
  accs : List (Object α)
  time : ℚ
  space : ℚ

namespace Summary

/-- The aggregate. -/
def toObject (s : Summary α) : Object α :=
  .dict [("acc", .list s.accs), ("time", .number s.time), ("space", .number s.space)]

/-- The summary of several parts that count alike. -/
def ofParts (parts : List (Summary α)) : Summary α :=
  ⟨parts.flatMap accs, mean (parts.map time), mean (parts.map space)⟩

/-- The summary with one part more, after as many as given. -/
def push (s : Summary α) (k : Nat) (part : Summary α) : Summary α :=
  ⟨s.accs ++ part.accs, (s.time * k + part.time) / (k + 1), (s.space * k + part.space) / (k + 1)⟩

/-- The step of the induction on the parts. -/
theorem push_ofParts (parts : List (Summary α)) (part : Summary α) :
    (ofParts parts).push parts.length part = ofParts (parts ++ [part]) := by
  simp only [ofParts, push, List.map_append, List.map_singleton, mean_append_singleton,
    List.length_map, List.flatMap_append, List.flatMap_singleton]

/-- What a call of an aggregator starts from: nothing at first, an aggregate later. -/
inductive Begins : Object α → Summary α → Prop where
  | first : Begins .absent ⟨[], 0, 0⟩
  | later (s : Summary α) : Begins s.toObject s

end Summary

/-- Calls an aggregator for each value in turn with the number of the value. It starts
from nothing, and each call gets what the one before it returned. -/
def CheckerModule.fold (ops : Operations (Object α)) (m : CheckerModule) (function : String)
    (values : List (Object α)) : Option (Object α) :=
  values.zipIdx.foldlM
    (fun agg p => m.call (Object.runtime ops) function [agg, .number p.2, p.1]) .absent

/-- Folding the value in adds the part to what was summarized before. -/
def CheckerModule.Folds (ops : Operations (Object α)) (m : CheckerModule) (function : String)
    (value : Object α) (part : Summary α) : Prop :=
  ∀ ⦃agg : Object α⦄ ⦃s : Summary α⦄ (k : Nat), Summary.Begins agg s →
    m.call (Object.runtime ops) function [agg, .number k, value] = some (s.push k part).toObject

/-- If each step adds its part, then a fold that has begun adds all parts. -/
theorem CheckerModule.fold_later {ops : Operations (Object α)} {m : CheckerModule}
    {function : String} {values : List (Object α)} {parts : List (Summary α)}
    (h : List.Forall₂ (m.Folds ops function) values parts) (before : List (Summary α)) :
    (values.zipIdx before.length).foldlM
        (fun agg p => m.call (Object.runtime ops) function [agg, .number p.2, p.1])
        (Summary.ofParts before).toObject =
      some (Summary.ofParts (before ++ parts)).toObject := by
  induction h generalizing before with
  | nil =>
      rw [List.append_nil]
      rfl
  | @cons _ part _ _ hvalue _ ih =>
      have hstep := hvalue before.length (.later (.ofParts before))
      rw [Summary.push_ofParts] at hstep
      have hrest := ih (before ++ [part])
      rw [List.length_append, List.length_singleton, List.append_assoc, List.singleton_append] at hrest
      rw [List.zipIdx_cons, List.foldlM_cons, hstep]
      exact hrest

/-- If each step adds its part, then a fold gives the summary of all parts. -/
theorem CheckerModule.fold_of_folds {ops : Operations (Object α)} {m : CheckerModule}
    {function : String} {values : List (Object α)} {parts : List (Summary α)}
    (h : List.Forall₂ (m.Folds ops function) values parts) (hvalues : values ≠ []) :
    m.fold ops function values = some (Summary.ofParts parts).toObject := by
  cases h with
  | nil => exact absurd rfl hvalues
  | @cons _ part _ _ hvalue hrest =>
      have hempty : Summary.ofParts ([] : List (Summary α)) = ⟨[], 0, 0⟩ := by
        simp [Summary.ofParts, mean]
      have hfirst := hvalue 0 .first
      rw [← hempty, ← List.length_nil, Summary.push_ofParts, List.nil_append] at hfirst
      rw [fold, List.zipIdx_cons, List.foldlM_cons]
      simp only [List.length_nil] at hfirst
      rw [hfirst]
      exact fold_later hrest [part]

theorem Store.set_eq_self {V : Type} {σ : Store V} {n : String} {v : V} (h : σ n = some v) :
    σ.set n v = σ := by
  funext name
  by_cases hname : name = n
  · rw [hname, Store.set_self, h]
  · exact Store.set_of_ne σ v hname

theorem Store.set_set {V : Type} (σ : Store V) (n : String) (v w : V) :
    (σ.set n v).set n w = σ.set n w := by
  funext name
  by_cases hname : name = n
  · rw [hname, Store.set_self, Store.set_self]
  · rw [Store.set_of_ne _ _ hname, Store.set_of_ne _ _ hname, Store.set_of_ne _ _ hname]

section Statements

open Object

variable {ops : Operations (Object α)} {σ : Store (Object α)}

/-- The first statement leaves an aggregate, which is empty for the first value. -/
theorem Summary.Begins.exec_init {agg : Object α} {s : Summary α} (hagg : Begins agg s)
    (hσ : σ "agg" = some agg) (hnone : σ "None" = none) :
    (runtime ops).exec Aggregate.init σ = some (.next (σ.set "agg" s.toObject)) := by
  have hname : (runtime ops).eval Aggregate.agg σ = some agg := Operations.eval_name_of_some hσ
  have hnone' : (runtime ops).eval (.name "None") σ = some .absent := by
    rw [Operations.eval, hnone, Option.none_or, global_None]
  rw [Aggregate.init, Runtime.exec, Operations.eval, hname]
  cases hagg with
  | first =>
      have hempty : (runtime ops).eval
          (.dict [("acc", .list []), ("time", .nat 0), ("space", .nat 0)]) σ =
            some (⟨[], 0, 0⟩ : Summary α).toObject := by
        simp only [Operations.eval, Operations.evalEntries, Operations.evalAll, eval_nat]
        rfl
      simp only [Option.bind_eq_bind, Option.bind_some, Operations.binary, hnone',
        compare_absent, truth_truth, if_true]
      exact (Runtime.execAll_cons_of_next (Runtime.exec_set hempty) []).trans rfl
  | later =>
      rw [Store.set_eq_self hσ]
      simp only [Option.bind_eq_bind, Option.bind_some, Operations.binary, hnone', toObject,
        compare_dict_absent, truth_truth, Bool.false_eq_true, if_false]

/-- One value more goes into a mean. -/
theorem Object.exec_runningMean {key index source : String} {entries : List (String × Object α)}
    {output : Object α} {k : Nat} {x y : ℚ} (hagg : σ "agg" = some (.dict entries))
    (hentry : entries.lookup key = some (.number x)) (hindex : σ index = some (.number k))
    (hsource : σ source = some output)
    (hvalue : (runtime ops).item output (.text key) = some (.number y)) :
    (runtime ops).exec (Aggregate.runningMean key index source) σ =
      some (.next (σ.set "agg" (.dict (setEntry key (.number ((x * k + y) / (k + 1))) entries)))) := by
  have hk : (k : ℚ) + 1 ≠ 0 := Nat.cast_add_one_ne_zero k
  have hone : (runtime ops).eval (.nat 1) σ = some (.number 1) := by simp
  have hold : (runtime ops).eval (.entry Aggregate.agg key) σ = some (.number x) :=
    (eval_entry hagg).trans hentry
  have hnew : (runtime ops).eval (.entry (.name source) key) σ = some (.number y) :=
    (eval_entry hsource).trans hvalue
  refine exec_assign_entry hagg ?_
  simp only [Code.group, Operations.eval, Operations.binary, hold, hnew, hone, hindex,
    Option.some_or, Option.bind_eq_bind, Option.bind_some, arith_add, arith_mul,
    arith_div ops _ hk]

/-- An output is kept. -/
theorem Summary.exec_append {s : Summary α} {value : Code} {v : Object α}
    (hσ : σ "agg" = some s.toObject) (hv : (runtime ops).eval value σ = some v) :
    (runtime ops).exec (.append (.entry Aggregate.agg "acc") value) σ =
      some (.next (σ.set "agg" (toObject ⟨s.accs ++ [v], s.time, s.space⟩))) :=
  exec_append_entry hσ rfl hv

/-- The outputs of an aggregate are kept. -/
theorem Summary.exec_extend {s : Summary α} {value : Code} {vs : List (Object α)}
    (hσ : σ "agg" = some s.toObject) (hv : (runtime ops).eval value σ = some (.list vs)) :
    (runtime ops).exec (.update (.entry Aggregate.agg "acc") .add value) σ =
      some (.next (σ.set "agg" (toObject ⟨s.accs ++ vs, s.time, s.space⟩))) :=
  exec_extend_entry hσ rfl hv

/-- The body of an aggregator, around the statements that keep outputs. -/
def Aggregate.body (keep : List Stmt) (index source : String) : List Stmt :=
  [init] ++ keep ++ [runningMean "time" index source, runningMean "space" index source, .ret agg]

/-- A call of an aggregator adds what its middle statements keep, and takes the means. -/
theorem Summary.Begins.returns_body {agg output : Object α} {s part : Summary α}
    (hagg : Begins agg s) {keep : List Stmt} {index source : String} {k : Nat}
    (hσ : σ "agg" = some agg) (hnone : σ "None" = none)
    (hindex : σ index = some (.number k)) (hindexne : index ≠ "agg")
    (hsource : σ source = some output) (hsourcene : source ≠ "agg")
    (htime : (runtime ops).item output (.text "time") = some (.number part.time))
    (hspace : (runtime ops).item output (.text "space") = some (.number part.space))
    (hkeep : (runtime ops).execAll keep (σ.set "agg" s.toObject) =
      some (.next (σ.set "agg" (toObject ⟨s.accs ++ part.accs, s.time, s.space⟩)))) :
    (runtime ops).returns (Aggregate.body keep index source) σ =
      some (s.push k part).toObject := by
  have hmean {key : String} {x y : ℚ} {entries : List (String × Object α)}
      (hentry : entries.lookup key = some (.number x))
      (hvalue : (runtime ops).item output (.text key) = some (.number y)) :
      (runtime ops).exec (Aggregate.runningMean key index source) (σ.set "agg" (.dict entries)) =
        some (.next (σ.set "agg"
          (.dict (setEntry key (.number ((x * k + y) / (k + 1))) entries)))) := by
    rw [exec_runningMean (Store.set_self ..) hentry ((Store.set_of_ne _ _ hindexne).trans hindex)
      ((Store.set_of_ne _ _ hsourcene).trans hsource) hvalue, Store.set_set]
  have hinit : (runtime ops).exec Aggregate.init σ = _ := hagg.exec_init hσ hnone
  have htime' : (runtime ops).exec (Aggregate.runningMean "time" index source)
      (σ.set "agg" (toObject ⟨s.accs ++ part.accs, s.time, s.space⟩)) = some (.next (σ.set "agg"
        (toObject ⟨s.accs ++ part.accs, (s.time * k + part.time) / (k + 1), s.space⟩))) :=
    hmean rfl htime
  have hspace' : (runtime ops).exec (Aggregate.runningMean "space" index source) (σ.set "agg"
      (toObject ⟨s.accs ++ part.accs, (s.time * k + part.time) / (k + 1), s.space⟩)) =
        some (.next (σ.set "agg" (s.push k part).toObject)) :=
    hmean rfl hspace
  rw [Runtime.returns, Aggregate.body, List.append_assoc, List.singleton_append,
    Runtime.execAll_cons_of_next hinit, Runtime.execAll_append_of_next hkeep,
    Runtime.execAll_cons_of_next htime', Runtime.execAll_cons_of_next hspace',
    Aggregate.agg, Runtime.execAll_ret (Operations.eval_name_of_some (Store.set_self ..))]
  rfl

end Statements

/-- What is measured of a run. -/
structure Measurement (α : Type) where
  acc : Object α
  time : ℚ
  space : ℚ

/-- The output of a run has a measurement in its entries. -/
structure Object.Holds (ops : Operations (Object α)) (output : Object α) (r : Measurement α) :
    Prop where
  acc : (runtime ops).item output (.text "acc") = some r.acc
  time : (runtime ops).item output (.text "time") = some (.number r.time)
  space : (runtime ops).item output (.text "space") = some (.number r.space)

/-- What a run adds to the aggregate of its input. -/
def Measurement.part (d : Domain) (r : Measurement α) : Summary α :=
  ⟨if d = .overRuns ∨ d = .overInputs then [r.acc] else [], r.time, r.space⟩

/-- What an input adds to the aggregate of its configuration. -/
def Summary.part (d : Domain) (s : Summary α) : Summary α :=
  ⟨if d = .overInputs then s.accs else [], s.time, s.space⟩

/-- A generated module ends with its aggregators and the final function. Before them it has
checkers, with the name and the parameters that its domain asks for. -/
theorem Specification.functions_of_compile {spec : Specification} {options : CheckerOptions}
    {m : CheckerModule} (h : spec.compile options = .ok m) :
    ∃ checkers last, m.functions =
        checkers ++ [Aggregate.ofRuns m.domain, Aggregate.ofInputs m.domain, last] ∧
      ∀ f ∈ checkers, m.domain.signature? = some ⟨f.name, f.params⟩ := by
  obtain ⟨-, target, checkers, last, hcheckers, hdomain, hfunctions⟩ :=
    exists_of_generate (generate_of_compile h)
  rw [hdomain]
  refine ⟨checkers, last, hfunctions, ?_⟩
  unfold Specification.checkers at hcheckers
  split at hcheckers
  · next signature clause hsignature _ =>
      obtain ⟨f, hf, hcheckers⟩ := except_bind_eq_ok_iff.1 hcheckers
      cases hcheckers
      obtain ⟨hname, hparams, -⟩ := Clause.exists_emits_of_checker hf
      rw [List.forall_mem_singleton, hsignature, hname, hparams]
  · cases hcheckers
    exact List.forall_mem_nil _

theorem Domain.name_notMem_of_signature? {d : Domain} {signature : Signature}
    (h : d.signature? = some signature) : signature.name ∉ ["inpAgg", "cfgAgg"] := by
  cases d <;> cases h <;> decide

/-- The function that is called as `inpAgg` folds runs, the one called as `cfgAgg` folds
inputs. -/
theorem Specification.function?_of_compile {spec : Specification} {options : CheckerOptions}
    {m : CheckerModule} (h : spec.compile options = .ok m) :
    m.function? "inpAgg" = some (Aggregate.ofRuns m.domain) ∧
      m.function? "cfgAgg" = some (Aggregate.ofInputs m.domain) := by
  obtain ⟨checkers, last, hfunctions, hcheckers⟩ := functions_of_compile h
  have hother : ∀ name ∈ ["inpAgg", "cfgAgg"], checkers.find? (·.name == name) = none := by
    intro name hname
    rw [List.find?_eq_none]
    intro f hf heq
    rw [← eq_of_beq heq] at hname
    exact Domain.name_notMem_of_signature? (hcheckers f hf) hname
  simp only [CheckerModule.function?, hfunctions, List.find?_append]
  rw [hother "inpAgg" (by simp), hother "cfgAgg" (by simp)]
  exact ⟨rfl, rfl⟩

section Aggregators

open Object

variable {spec : Specification} {options : CheckerOptions} {m : CheckerModule}
  {ops : Operations (Object α)}

/-- A run is folded in. -/
theorem Object.Holds.folds {output : Object α} {r : Measurement α} (hr : output.Holds ops r)
    (h : spec.compile options = .ok m) : m.Folds ops "inpAgg" output (r.part m.domain) := by
  intro agg s k hagg
  rw [CheckerModule.call, (Specification.function?_of_compile h).1]
  refine hagg.returns_body rfl rfl rfl (by decide) rfl (by decide) hr.time hr.space ?_
  rw [Measurement.part]
  split
  · have hacc : (runtime ops).eval (.entry (.name "output") "acc")
        ((Store.ofArgs ["agg", "run", "output"] [agg, .number k, output]).set "agg" s.toObject) =
          some r.acc :=
      (eval_entry rfl).trans hr.acc
    have hkeep := Summary.exec_append (Store.set_self ..) hacc
    rw [Store.set_set] at hkeep
    exact Runtime.execAll_cons_of_next hkeep []
  · rw [List.append_nil]
    rfl

/-- The aggregate of an input is folded in. -/
theorem Summary.folds (s : Summary α) (h : spec.compile options = .ok m) :
    m.Folds ops "cfgAgg" s.toObject (s.part m.domain) := by
  intro agg s' k hagg
  rw [CheckerModule.call, (Specification.function?_of_compile h).2]
  refine hagg.returns_body rfl rfl rfl (by decide) rfl (by decide) rfl rfl ?_
  rw [Summary.part]
  split
  · have haccs : (runtime ops).eval (.entry (.name "inpAgg") "acc")
        ((Store.ofArgs ["agg", "input", "inpAgg"] [agg, .number k, s.toObject]).set "agg"
          s'.toObject) = some (.list s.accs) :=
      (eval_entry rfl).trans (item_dict ops _ _)
    have hkeep := Summary.exec_extend (Store.set_self ..) haccs
    rw [Store.set_set] at hkeep
    exact Runtime.execAll_cons_of_next hkeep []
  · rw [List.append_nil]
    rfl

/-- The aggregate of the runs of an input. -/
def Summary.ofRuns (d : Domain) (rs : List (Measurement α)) : Summary α :=
  ⟨if d = .overRuns ∨ d = .overInputs then rs.map Measurement.acc else [],
    mean (rs.map Measurement.time), mean (rs.map Measurement.space)⟩

theorem CheckerModule.fold_inpAgg (h : spec.compile options = .ok m) {outputs : List (Object α)}
    {rs : List (Measurement α)} (hrs : List.Forall₂ (Object.Holds ops) outputs rs)
    (hne : outputs ≠ []) :
    m.fold ops "inpAgg" outputs = some (Summary.ofRuns m.domain rs).toObject := by
  have hfolds : List.Forall₂ (m.Folds ops "inpAgg") outputs (rs.map (Measurement.part m.domain)) :=
    List.forall₂_map_right_iff.2 (hrs.imp fun _ _ hr => hr.folds h)
  rw [fold_of_folds hfolds hne, Summary.ofParts, List.map_map, List.map_map, List.flatMap_map,
    Summary.ofRuns]
  by_cases hd : m.domain = .overRuns ∨ m.domain = .overInputs
  · simp only [Measurement.part, if_pos hd, List.map_eq_flatMap, Function.comp_def]
  · have hnone : rs.flatMap (fun _ => ([] : List (Object α))) = [] := by simp
    simp only [Measurement.part, if_neg hd, hnone, Function.comp_def]

/-- Each input is aggregated by itself. -/
theorem CheckerModule.mapM_fold_inpAgg (h : spec.compile options = .ok m)
    {inputs : List (List (Object α))} {rss : List (List (Measurement α))}
    (hrss : List.Forall₂ (List.Forall₂ (Object.Holds ops)) inputs rss) (hempty : [] ∉ inputs) :
    inputs.mapM (m.fold ops "inpAgg") =
      some ((rss.map (Summary.ofRuns m.domain)).map Summary.toObject) := by
  induction hrss with
  | nil => rfl
  | cons hrs _ ih =>
      rw [List.mem_cons, not_or] at hempty
      rw [List.mapM_cons, fold_inpAgg h hrs (Ne.symm hempty.1), ih hempty.2]
      rfl

/-- The aggregate of the inputs of a configuration. -/
def Summary.ofInputs (d : Domain) (rss : List (List (Measurement α))) : Summary α :=
  ⟨if d = .overInputs then rss.flatMap (·.map Measurement.acc) else [],
    mean (rss.map fun rs => mean (rs.map Measurement.time)),
    mean (rss.map fun rs => mean (rs.map Measurement.space))⟩

theorem CheckerModule.fold_cfgAgg (h : spec.compile options = .ok m)
    {rss : List (List (Measurement α))} (hne : rss ≠ []) :
    m.fold ops "cfgAgg" ((rss.map (Summary.ofRuns m.domain)).map Summary.toObject) =
      some (Summary.ofInputs m.domain rss).toObject := by
  have hfolds : List.Forall₂ (m.Folds ops "cfgAgg")
      ((rss.map (Summary.ofRuns m.domain)).map Summary.toObject)
      ((rss.map (Summary.ofRuns m.domain)).map (Summary.part m.domain)) := by
    rw [List.forall₂_map_left_iff, List.forall₂_map_right_iff, List.forall₂_same]
    exact fun s _ => s.folds h
  have hne' : (rss.map (Summary.ofRuns m.domain)).map Summary.toObject ≠ [] := by simpa using hne
  rw [fold_of_folds hfolds hne', Summary.ofParts, List.map_map, List.map_map, List.map_map,
    List.flatMap_map, Summary.ofInputs]
  by_cases hd : m.domain = .overInputs
  · simp only [hd, Summary.part, Summary.ofRuns, or_true, if_true, Function.comp_def]
  · have hnone : rss.flatMap (fun _ => ([] : List (Object α))) = [] := by simp
    simp only [Summary.part, if_neg hd, hnone, Summary.ofRuns, Function.comp_def]

/-- The emitted aggregators take exact means and keep the outputs that the checker needs.
Any number of runs is folded to the means of their times and spaces, with their outputs in
order when the trials are runs or inputs. Any number of inputs, each with runs of its own, is
folded to the means of the means, with all outputs in order when the trials are inputs. -/
theorem aggregators_take_means (h : spec.compile options = .ok m)
    (ops : Operations (Object α)) :
    (∀ outputs rs, outputs ≠ [] → List.Forall₂ (Object.Holds ops) outputs rs →
      m.fold ops "inpAgg" outputs = some (Summary.toObject
        ⟨if m.domain = .overRuns ∨ m.domain = .overInputs then rs.map Measurement.acc else [],
          mean (rs.map Measurement.time), mean (rs.map Measurement.space)⟩)) ∧
    ∀ inputs rss, inputs ≠ [] → [] ∉ inputs →
      List.Forall₂ (List.Forall₂ (Object.Holds ops)) inputs rss →
      ∃ aggs, inputs.mapM (m.fold ops "inpAgg") = some aggs ∧
        m.fold ops "cfgAgg" aggs = some (Summary.toObject
          ⟨if m.domain = .overInputs then rss.flatMap (·.map Measurement.acc) else [],
            mean (rss.map fun rs => mean (rs.map Measurement.time)),
            mean (rss.map fun rs => mean (rs.map Measurement.space))⟩) := by
  refine ⟨fun outputs rs hne hrs => CheckerModule.fold_inpAgg h hrs hne, ?_⟩
  intro inputs rss hne hempty hrss
  have hne' : rss ≠ [] := by
    rw [Ne, ← List.length_eq_zero_iff, ← hrss.length_eq]
    simpa using hne
  exact ⟨_, CheckerModule.mapM_fold_inpAgg h hrss hempty, CheckerModule.fold_cfgAgg h hne'⟩

end Aggregators

/-- The output is positive in most of the trials. -/
def Clause.positiveIn (trials : Trials) : Clause :=
  .compare .dummy
    (.probability {} trials (.compare .dummy (.identifier {} "Output") .gt (.constant {} "0")))
    .ge (.constant {} "0.9")

def Specification.positiveTrials (trials : Trials) : Specification where
  decls := [⟨"Output", .scalar, .dummy⟩, ⟨"Input", .scalar, .dummy⟩]
  accuracy := some (.positiveIn trials)

theorem Specification.exists_compile_positiveTrials (trials : Trials) :
    ∃ m, (positiveTrials trials).compile {} = .ok m ∧ m.domain = trials.domain := by
  have hok : ((positiveTrials trials).compile {}).isOk = true := by
    cases trials <;> decide +kernel
  cases hm : (positiveTrials trials).compile {} with
  | ok m =>
      refine ⟨m, rfl, (domain_of_compile hm).trans ?_⟩
      cases trials <;> rfl
  | error e =>
      rw [hm] at hok
      cases hok

/-- Nothing comes from outside. -/
def Object.closed : Operations (Object Empty) where
  global _ := none
  literal _ := none
  text := .text
  list := .list
  dict := .dict
  ofBool := .truth
  truth
    | .truth b => b
    | _ => true
  number _ := none
  arith _ _ _ := none
  compare _ _ _ := none
  within _ _ := none
  item _ _ := none
  attr _ _ := none
  call _ _ := none
  items _ := none
  update _ _ _ := none
  append _ _ := none
  truth_ofBool _ := rfl

/-- A run with an output and a time. -/
def Measurement.timed (acc : Nat) (time : ℚ) : Measurement Empty := ⟨.number acc, time, 0⟩

def Measurement.output (r : Measurement α) : Object α :=
  .dict [("time", .number r.time), ("space", .number r.space), ("acc", r.acc)]

theorem Measurement.holds_output (ops : Operations (Object α)) (r : Measurement α) :
    r.output.Holds ops r :=
  ⟨rfl, rfl, rfl⟩

open Measurement in
theorem aggregators_take_means_positiveTrials :
    ∃ m, (Specification.positiveTrials .inputs).compile {} = .ok m ∧
      ∃ aggs, [[(timed 1 1).output, (timed 2 2).output], [(timed 3 4).output]].mapM
        (m.fold Object.closed "inpAgg") = some aggs ∧
      m.fold Object.closed "cfgAgg" aggs = some (Summary.toObject
        ⟨[.number 1, .number 2, .number 3], 11 / 4, 0⟩) := by
  obtain ⟨m, hm, hdomain⟩ := Specification.exists_compile_positiveTrials .inputs
  obtain ⟨aggs, haggs, hfold⟩ := (aggregators_take_means hm Object.closed).2
    [[(timed 1 1).output, (timed 2 2).output], [(timed 3 4).output]]
    [[timed 1 1, timed 2 2], [timed 3 4]] (by simp) (by simp)
    (.cons (.cons (holds_output _ _) (.cons (holds_output _ _) .nil))
      (.cons (.cons (holds_output _ _) .nil) .nil))
  refine ⟨m, hm, aggs, haggs, ?_⟩
  rw [hfold, hdomain]
  norm_num [timed, mean, Trials.domain]

end StatContract
