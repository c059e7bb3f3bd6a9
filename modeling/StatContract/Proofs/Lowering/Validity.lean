import Mathlib.Data.List.TakeWhile
import StatContract.Proofs.Code.Assignment
import StatContract.Proofs.Lowering.Frame
import StatContract.Proofs.Lowering.Hygiene

/-!
# The statements of a clause are valid code

Lowering hands out temporaries inside of loops, before them and after them, and verdicts carry
their names to other levels of the code. Still each of them has a value wherever it is read: the
statements of a clause expose no temporary of their own, and its verdict reads none but those that
the statements assign whether or not their loops run (`Clause.Emits.provides`).

The names of a clause go into the code as they are, and so does the name of the library. One that
looks like a temporary can be read before the temporary is assigned.
-/

namespace StatContract

theorem IsTemp.isDigit_of_mem_tail {name : String} (h : IsTemp name) :
    ∀ c ∈ name.toList.tail, c.isDigit = true := by
  obtain ⟨k, rfl⟩ := h
  intro c hc
  have hmem : c ∈ Nat.toDigits 10 k := by simpa [tempName] using hc
  exact Nat.isDigit_of_mem_toDigits (by decide) (by decide) hmem

theorem not_isTemp_tuple : ¬IsTemp "tuple" :=
  fun h => absurd (h.isDigit_of_mem_tail 'u' (by decide)) (by decide)

/-- The variable that code reads to reach the library: its module may be inside of another. -/
def Library.root (lib : Library) : String :=
  String.ofList (lib.module.toList.takeWhile (· ≠ '.'))

theorem Library.not_isTemp_module {lib : Library} (h : ¬IsTemp lib.root) :
    ¬IsTemp lib.module := by
  rintro ⟨k, hk⟩
  have hdigits := IsTemp.isDigit_of_mem_tail ⟨k, hk⟩
  have hlist : lib.module.toList = 't' :: lib.module.toList.tail := by simp [hk, tempName]
  have hnodot : ∀ c ∈ lib.module.toList, decide (c ≠ '.') = true := by
    rw [hlist, List.forall_mem_cons]
    refine ⟨by decide, fun c hc => ?_⟩
    have hc := hdigits c hc
    simp only [decide_eq_true_eq]
    rintro rfl
    exact absurd hc (by decide)
  refine h ⟨k, ?_⟩
  rw [root, List.takeWhile_eq_self_iff.2 hnodot, String.ofList_toList, hk]

/-- The name that stands at a node: that of an identifier, a function, a let or a range. -/
def Node.name? : Node → Option String
  | .clause (.letIn _ name _ _) => some name
  | .range (.mk _ var _ _) => some var
  | .term (.identifier _ name) => some name
  | .term (.call _ name _) => some name
  | _ => none

/-- No name at the nodes looks like a temporary. -/
def Node.SpareTemps (nodes : List Node) : Prop :=
  ∀ n ∈ nodes, ∀ name ∈ n.name?, ¬IsTemp name

namespace Node

theorem spareTemps_cons {n : Node} {nodes : List Node} :
    SpareTemps (n :: nodes) ↔ (∀ name ∈ n.name?, ¬IsTemp name) ∧ SpareTemps nodes :=
  List.forall_mem_cons

theorem spareTemps_append {nodes nodes' : List Node} :
    SpareTemps (nodes ++ nodes') ↔ SpareTemps nodes ∧ SpareTemps nodes' :=
  List.forall_mem_append

theorem spareTemps_of_head {nodes : List Node}
    (h : ∀ name ∈ nodes.filterMap name?, name.toList.head? ≠ some 't') : SpareTemps nodes :=
  fun n hn name hname => not_isTemp_of_head (h name (List.mem_filterMap.2 ⟨n, hn, hname⟩))

end Node

section Reads

variable {ctx : Context} {known : List String}

theorem Context.finds_reads_resolve (htrial : ∀ i ∈ ctx.trial, i ∈ known) {name : String}
    (hname : ¬IsTemp name) : ∀ r ∈ (ctx.resolve name).code.reads, r.Finds IsTemp known := by
  have houtput : ¬IsTemp outputName := not_isTemp_of_head (by decide)
  have hconfig : ¬IsTemp "Config" := not_isTemp_of_head (by decide)
  unfold Context.resolve
  split
  · split
    · next i hi =>
        split
        · simp only [Reference.code, Code.reads, List.singleton_append, List.forall_mem_cons]
          exact ⟨.of_not houtput, .of_mem (htrial i hi), List.forall_mem_nil _⟩
        · exact List.forall_mem_singleton.2 (.of_not hname)
    · exact List.forall_mem_singleton.2 (.of_not hname)
  · exact List.forall_mem_singleton.2 (.of_not hconfig)

theorem Code.finds_reads_apply {function : String} {args : List Code} (h : ¬IsTemp function)
    (hargs : ∀ r ∈ Code.readsOfAll args, r.Finds IsTemp known) :
    ∀ r ∈ (Code.apply function args).reads, r.Finds IsTemp known :=
  List.forall_mem_cons.2 ⟨.of_not h, hargs⟩

theorem ArithOp.not_isTemp_matrixFunction {op : ArithOp} {f : String}
    (h : op.matrixFunction? = some f) : ¬IsTemp f := by
  cases op <;> cases h <;> exact not_isTemp_of_head (by decide)

mutual

/-- The code of a term reads no temporary but the index of the trial. -/
theorem Term.finds_reads (htrial : ∀ i ∈ ctx.trial, i ∈ known) :
    ∀ {t : Term} {c : Code}, t.lower ctx = .ok c → Node.SpareTemps t.nodes →
      ∀ r ∈ c.reads, r.Finds IsTemp known
  | .constant .., _, h, _ => by
      cases h
      exact List.forall_mem_nil _
  | .probability .., _, h, _ | .probabilityOverItems .., _, h, _ | .expectation .., _, h, _
  | .expectationOverItems .., _, h, _ => nomatch h
  | .lookup note collection key, _, h, hnodes => by
      rw [Term.nodes, Node.spareTemps_cons, Node.spareTemps_append] at hnodes
      rw [Term.lower] at h
      obtain ⟨c, hc, h⟩ := except_bind_eq_ok_iff.1 h
      obtain ⟨k, hk, h⟩ := except_bind_eq_ok_iff.1 h
      obtain ⟨ty, hty, h⟩ := except_bind_eq_ok_iff.1 h
      have hcollection := Term.finds_reads htrial hc hnodes.2.1
      have hkey := Term.finds_reads htrial hk hnodes.2.2
      cases ty with
      | scalar | matrix => cases h
      | sequence =>
          cases h
          exact List.forall_mem_append.2 ⟨hcollection, hkey⟩
      | map =>
          cases h
          simp only [Code.getOrZero, Code.reads, Code.readsOfAll, List.append_nil]
          exact List.forall_mem_append.2 ⟨hcollection, hkey⟩
  | .identifier _ name, _, h, hnodes => by
      cases h
      exact ctx.finds_reads_resolve htrial ((Node.spareTemps_cons.1 hnodes).1 name rfl)
  | .tuple note elements, _, h, hnodes => by
      rw [Term.nodes, Node.spareTemps_cons] at hnodes
      rw [Term.lower] at h
      obtain ⟨items, hitems, h⟩ := except_bind_eq_ok_iff.1 h
      cases h
      exact Term.finds_readsOfAll htrial hitems hnodes.2
  | .binary note lhs op rhs, _, h, hnodes => by
      rw [Term.nodes, Node.spareTemps_cons, Node.spareTemps_append] at hnodes
      obtain ⟨a, b, ha, hb, hc⟩ := Term.exists_operands_of_lower_binary h
      have hlhs := Term.finds_reads htrial ha hnodes.2.1
      have hrhs := Term.finds_reads htrial hb hnodes.2.2
      rcases hc with rfl | ⟨f, hf, rfl⟩
      · exact List.forall_mem_append.2 ⟨hlhs, hrhs⟩
      · refine Code.finds_reads_apply (ArithOp.not_isTemp_matrixFunction hf) ?_
        simp only [Code.readsOfAll, List.append_nil]
        exact List.forall_mem_append.2 ⟨hlhs, hrhs⟩
  | .sizeOf note collection, _, h, hnodes => by
      rw [Term.nodes, Node.spareTemps_cons] at hnodes
      rw [Term.lower] at h
      obtain ⟨c, hc, h⟩ := except_bind_eq_ok_iff.1 h
      cases h
      refine Code.finds_reads_apply (not_isTemp_of_head (by decide)) ?_
      rw [Code.readsOfAll, Code.readsOfAll, List.append_nil]
      exact Term.finds_reads htrial hc hnodes.2
  | .call note name args, _, h, hnodes => by
      rw [Term.nodes, Node.spareTemps_cons] at hnodes
      rw [Term.lower] at h
      obtain ⟨cs, hargs, h⟩ := except_bind_eq_ok_iff.1 h
      cases h
      exact Code.finds_reads_apply (hnodes.1 name rfl)
        (Term.finds_readsOfAll htrial hargs hnodes.2)

theorem Term.finds_readsOfAll (htrial : ∀ i ∈ ctx.trial, i ∈ known) :
    ∀ {ts : List Term} {cs : List Code}, Term.lowerList ctx ts = .ok cs →
      Node.SpareTemps (Term.nodesOfAll ts) → ∀ r ∈ Code.readsOfAll cs, r.Finds IsTemp known
  | [], _, h, _ => by
      cases h
      exact List.forall_mem_nil _
  | t :: rest, _, h, hnodes => by
      rw [Term.nodesOfAll, Node.spareTemps_append] at hnodes
      rw [Term.lowerList] at h
      obtain ⟨c, hc, h⟩ := except_bind_eq_ok_iff.1 h
      obtain ⟨cs, hcs, h⟩ := except_bind_eq_ok_iff.1 h
      cases h
      rw [Code.readsOfAll, List.forall_mem_append]
      exact ⟨Term.finds_reads htrial hc hnodes.1, Term.finds_readsOfAll htrial hcs hnodes.2⟩

end

/-- What a loop runs through, and how often, is read from its collection. -/
theorem Loop.finds_reads {mode : RangeMode} {c : Code} (hc : ∀ r ∈ c.reads, r.Finds IsTemp known)
    (var : String) :
    (∀ r ∈ (sourceOf mode c).reads, r.Finds IsTemp known) ∧
      ∀ r ∈ (count ⟨var, sourceOf mode c, c, mode⟩).reads, r.Finds IsTemp known := by
  have hcall {f : String} (hf : f.toList.head? ≠ some 't') {c : Code}
      (hc : ∀ r ∈ c.reads, r.Finds IsTemp known) :
      ∀ r ∈ (Code.apply f [c]).reads, r.Finds IsTemp known := by
    refine Code.finds_reads_apply (not_isTemp_of_head hf) ?_
    rwa [Code.readsOfAll, Code.readsOfAll, List.append_nil]
  have hlen := hcall (f := "len") (by decide) hc
  have hset := hcall (f := "set") (by decide) hc
  cases mode with
  | elements => exact ⟨hc, hlen⟩
  | uniqueElements => exact ⟨hset, hcall (f := "len") (by decide) hset⟩
  | indices => exact ⟨hcall (f := "range") (by decide) hlen, hlen⟩

namespace Range.Opens

variable {inner : Context} {ranges : List Range} {loops : List Loop}

theorem trial_eq (h : Range.Opens ctx ranges loops inner) : inner.trial = ctx.trial := by
  induction h with
  | nil => rfl
  | cons _ _ ih => rw [ih, Context.trial_declare]

theorem trial_mem (h : Range.Opens ctx ranges loops inner) (htrial : ∀ i ∈ ctx.trial, i ∈ known)
    (name : String) : ∀ i ∈ inner.trial, i ∈ name :: known :=
  h.trial_eq ▸ fun i hi => List.mem_cons_of_mem name (htrial i hi)

/-- Loops around code expose nothing more than the code. -/
theorem closed_nest (h : Range.Opens ctx ranges loops inner) (htrial : ∀ i ∈ ctx.trial, i ∈ known)
    (hnodes : Node.SpareTemps (Range.nodesOfAll ranges)) {stmts : List Stmt}
    (hstmts : (Stmt.accessesOfAll stmts).Closed IsTemp known) {condition : Option String}
    (hcondition : ∀ n ∈ condition, n ∈ known) :
    (Stmt.accessesOfAll (Loop.nest condition loops stmts)).Closed IsTemp known := by
  induction h generalizing known with
  | nil => exact hstmts
  | @cons ctx ctx' span var collection mode rest c loops hcollection hrest ih =>
      rw [Range.nodesOfAll, Node.spareTemps_cons, Node.spareTemps_append] at hnodes
      have hsub : known ⊆ var :: known := List.subset_cons_self var known
      have hc := Term.finds_reads htrial hcollection hnodes.2.1
      have hnest := ih (fun i hi => hsub (htrial i (ctx.trial_declare var ▸ hi))) hnodes.2.2
        (hstmts.mono hsub) fun n hn => hsub (hcondition n hn)
      refine Stmt.closed_forIn (Loop.finds_reads hc var).1 (Stmt.closed_append hnest ?_)
      cases condition with
      | none => exact Stmt.closed_nil
      | some n =>
          exact Stmt.closed_breakUnless (List.mem_append_right _ (hsub (hcondition n rfl)))

theorem finds_reads_countAll (h : Range.Opens ctx ranges loops inner)
    (htrial : ∀ i ∈ ctx.trial, i ∈ known) (hnodes : Node.SpareTemps (Range.nodesOfAll ranges)) :
    ∀ r ∈ (Loop.countAll loops).reads, r.Finds IsTemp known := by
  rw [Loop.reads_countAll]
  induction h with
  | nil => exact List.forall_mem_nil _
  | @cons ctx ctx' span var collection mode rest c loops hcollection hrest ih =>
      rw [Range.nodesOfAll, Node.spareTemps_cons, Node.spareTemps_append] at hnodes
      have hc := Term.finds_reads htrial hcollection hnodes.2.1
      rw [List.flatMap_cons, List.forall_mem_append]
      exact ⟨(Loop.finds_reads hc var).2, ih (by rwa [Context.trial_declare]) hnodes.2.2⟩

end Range.Opens

/-- Lists are made tuples before they are looked up. -/
theorem Term.finds_reads_item (ty : ValueType) {i : Code}
    (hi : ∀ r ∈ i.reads, r.Finds IsTemp known) :
    ∀ r ∈ (if ty.isSequence then Code.apply "tuple" [i] else i).reads, r.Finds IsTemp known := by
  split
  · refine Code.finds_reads_apply not_isTemp_tuple ?_
    rwa [Code.readsOfAll, Code.readsOfAll, List.append_nil]
  · exact hi

theorem Target.reads_of_tTestVerdict? {target : Target} {result : String} {op : CmpOp}
    {mode : Mode} {v : Verdict} (h : target.tTestVerdict? result op mode = some v) :
    ∀ r ∈ v.code.reads, r = ⟨result, (), []⟩ := by
  cases mode <;> cases op <;> cases h <;>
    simp [Target.ofPValue, Target.tTestVerdict?.oneSided, Target.tTestVerdict?.pvalue, Verdict.code,
      Code.group, Code.reads, Code.nat, Target.alphaCode]

theorem Library.finds_reads_function {lib : Library} (h : ¬IsTemp lib.module) {f : String}
    {args : List Code} (hargs : ∀ r ∈ Code.readsOfAll args, r.Finds IsTemp known) :
    ∀ r ∈ (lib.function f args).reads, r.Finds IsTemp known := by
  rw [Library.reads_function]
  exact List.forall_mem_cons.2 ⟨.of_not h, hargs⟩

theorem Library.finds_reads_binomialTest {lib : Library} (h : ¬IsTemp lib.module)
    {count trials p : Code} (hcount : ∀ r ∈ count.reads, r.Finds IsTemp known)
    (htrials : ∀ r ∈ trials.reads, r.Finds IsTemp known)
    (hp : ∀ r ∈ p.reads, r.Finds IsTemp known) {alternative : String} :
    ∀ r ∈ (lib.binomialTest count trials p alternative).reads, r.Finds IsTemp known := by
  refine Library.finds_reads_function h ?_
  simp only [Code.readsOfAll, Code.reads, List.append_nil, List.forall_mem_append]
  exact ⟨hcount, htrials, hp⟩

theorem Library.finds_reads_tTest {lib : Library} (h : ¬IsTemp lib.module)
    {samples expected : Code} (hsamples : ∀ r ∈ samples.reads, r.Finds IsTemp known)
    (hexpected : ∀ r ∈ expected.reads, r.Finds IsTemp known) :
    ∀ r ∈ (lib.tTest samples expected).reads, r.Finds IsTemp known := by
  refine Library.finds_reads_function h ?_
  simp only [Code.readsOfAll, List.append_nil, List.forall_mem_append]
  exact ⟨hsamples, hexpected⟩

theorem Code.reads_indicator (c : Code) : (Code.indicator c).reads = c.reads := by
  simp [Code.indicator, Code.reads]

theorem Verdict.finds_reads_ofLogic {a b : Verdict}
    (ha : ∀ r ∈ a.code.reads, r.Finds IsTemp known) (hb : ∀ r ∈ b.code.reads, r.Finds IsTemp known)
    (mode : Mode) (op : LogicOp) :
    ∀ r ∈ (Verdict.ofLogic mode op a b).code.reads, r.Finds IsTemp known := by
  have hcall {f : String} (hf : f.toList.head? ≠ some 't') :
      ∀ r ∈ (Code.apply f [a.code, b.code]).reads, r.Finds IsTemp known := by
    refine Code.finds_reads_apply (not_isTemp_of_head hf) ?_
    simp only [Code.readsOfAll, List.append_nil, List.forall_mem_append]
    exact ⟨ha, hb⟩
  match mode, op with
  | .boolean, _ => exact List.forall_mem_append.2 ⟨ha, hb⟩
  | .probability, .and => exact hcall (f := "min") (by decide)
  | .probability, .or => exact hcall (f := "max") (by decide)

end Reads

/-- Statements expose none but known temporaries, and a verdict reads those or what the statements
assign in any case. -/
structure Provides (known : List String) (stmts : List Stmt) (verdict : Code) : Prop where
  statements : (Stmt.accessesOfAll stmts).Closed IsTemp known
  verdict : ∀ r ∈ verdict.reads, r.Finds IsTemp ((Stmt.accessesOfAll stmts).assigned ++ known)

namespace Provides

variable {target : Target} {ctx inner : Context} {ranges : List Range} {loops : List Loop}
  {known : List String} {stmts stmts' : List Stmt} {v w : Verdict} {c : Code}
  {result list index sample : String}

/-- A verdict without statements. -/
theorem ofReads (h : ∀ r ∈ c.reads, r.Finds IsTemp known) : Provides known [] c :=
  ⟨Stmt.closed_nil, h⟩

theorem forAll (hranges : Range.Opens ctx ranges loops inner)
    (htrial : ∀ i ∈ ctx.trial, i ∈ known) (hnodes : Node.SpareTemps (Range.nodesOfAll ranges))
    (hbody : Provides (result :: known) stmts v.code) (mode : Mode) :
    Provides known
      (.set result .yes :: Loop.nest (some result) loops
        (stmts ++ [.set result (.binary (.name result) (.logic .and) v.code)]))
      (Verdict.ofCondition mode (.name result)).code where
  statements := by
    refine Stmt.closed_set_cons (List.forall_mem_nil _) (hranges.closed_nest
      (fun i hi => List.mem_cons_of_mem _ (htrial i hi)) hnodes
      (Stmt.closed_append hbody.statements (Stmt.closed_set ?_)) ?_)
    · rw [Code.reads, List.forall_mem_append]
      exact ⟨List.forall_mem_singleton.2 (.of_mem (List.mem_append_right _ List.mem_cons_self)),
        hbody.verdict⟩
    · rintro n ⟨⟩
      exact List.mem_cons_self
  verdict := by
    rw [Verdict.reads_ofCondition, Stmt.assigned_set_cons]
    exact List.forall_mem_singleton.2 (.of_mem List.mem_cons_self)

theorem forAllTests (hmodule : ¬IsTemp target.library.module)
    (hranges : Range.Opens ctx ranges loops inner) (htrial : ∀ i ∈ ctx.trial, i ∈ known)
    (hnodes : Node.SpareTemps (Range.nodesOfAll ranges))
    (hbody : Provides (list :: known) stmts v.code) (mode : Mode) :
    Provides known
      (.set list (.list []) :: Loop.nest none loops (stmts ++ [.append (.name list) v.code]) ++
        [.set result (target.library.combinePValues (.name list))])
      (target.ofPValue mode (.name result)).code where
  statements := by
    refine Stmt.closed_append (Stmt.closed_set_cons (List.forall_mem_nil _) (hranges.closed_nest
      (fun i hi => List.mem_cons_of_mem _ (htrial i hi)) hnodes
      (Stmt.closed_append hbody.statements (Stmt.closed_extend
        (List.mem_append_right _ List.mem_cons_self) hbody.verdict)) ?_)) (Stmt.closed_set ?_)
    · rintro n ⟨⟩
    · rw [Stmt.assigned_set_cons, Library.combinePValues, Code.reads, List.forall_mem_append]
      refine ⟨Library.finds_reads_function hmodule ?_, List.forall_mem_nil _⟩
      exact List.forall_mem_singleton.2 (.of_mem List.mem_cons_self)
  verdict := by
    rw [Target.reads_ofPValue, Stmt.accessesOfAll_append, Accesses.assigned_append,
      Stmt.assigned_set_cons result]
    exact List.forall_mem_singleton.2 (.of_mem (List.mem_append_left _
      (List.mem_append_right _ List.mem_cons_self)))

theorem letIn (hvalue : ∀ r ∈ c.reads, r.Finds IsTemp known) {name : String}
    (hbody : Provides (name :: known) stmts v.code) :
    Provides known (.set name c :: stmts) v.code where
  statements := Stmt.closed_set_cons hvalue hbody.statements
  verdict := by
    intro r hr
    rw [Stmt.assigned_set_cons]
    exact (hbody.verdict r hr).mono List.perm_middle.subset

theorem approx (hmodule : ¬IsTemp target.library.module)
    (hexpected : ∀ r ∈ c.reads, r.Finds IsTemp known) (mode : Mode) :
    Provides known
      [.set result (.comprehension (.binary (.name sample) (.arith .sub) c) sample
        (.name outputName))]
      (target.ofPValue mode (target.library.wilcoxonPValue (.name result))).code where
  statements := by
    have hsample : (Use.within sample () ⟨sample, (), []⟩).Finds IsTemp known :=
      fun _ => .inl (by simp [Use.within])
    refine Stmt.closed_set ?_
    simp only [Code.reads, List.singleton_append, List.map_cons, List.forall_mem_cons,
      List.forall_mem_map]
    exact ⟨.of_not (not_isTemp_of_head (by decide)), hsample,
      fun r hr => (hexpected r hr).within _ _⟩
  verdict := by
    rw [Target.reads_ofPValue, Stmt.assigned_set_cons, Library.wilcoxonPValue, Code.reads]
    refine Library.finds_reads_function hmodule ?_
    exact List.forall_mem_singleton.2 (.of_mem List.mem_cons_self)

theorem probability (hmodule : ¬IsTemp target.library.module) (trials : Trials)
    (hbody : Provides (index :: result :: known) stmts v.code)
    (hrhs : ∀ r ∈ c.reads, r.Finds IsTemp known) (mode : Mode) (alternative : String) :
    Provides known
      [.set result (.nat 0), .forIn index (.range (.name (Lower.trialCount trials)))
        (stmts ++ [.update (.name result) .add (.indicator v.code)])]
      (target.ofPValue mode (target.library.binomialTest (.name result)
        (.name (Lower.trialCount trials)) c alternative)).code := by
  have htrials : ¬IsTemp (Lower.trialCount trials) := by
    cases trials <;> exact not_isTemp_of_head (by decide)
  refine ⟨Stmt.closed_set_cons (List.forall_mem_nil _) (Stmt.closed_forIn ?_
    (Stmt.closed_append hbody.statements (Stmt.closed_update ?_ ?_ _))), ?_⟩
  · refine Code.finds_reads_apply (not_isTemp_of_head (by decide)) ?_
    exact List.forall_mem_singleton.2 (.of_not htrials)
  · exact List.mem_append_right _ (List.mem_cons_of_mem _ List.mem_cons_self)
  · rw [Code.reads_indicator]
    exact hbody.verdict
  · rw [Target.reads_ofPValue, Stmt.assigned_set_cons]
    refine Library.finds_reads_binomialTest hmodule
      (List.forall_mem_singleton.2 (.of_mem List.mem_cons_self))
      (List.forall_mem_singleton.2 (.of_not htrials)) fun r hr => ?_
    exact (hrhs r hr).mono (List.subset_append_right _ _)

theorem probabilityOverItems (hmodule : ¬IsTemp target.library.module)
    (hranges : Range.Opens ctx ranges loops inner) (htrial : ∀ i ∈ ctx.trial, i ∈ known)
    (hnodes : Node.SpareTemps (Range.nodesOfAll ranges))
    (hbody : Provides (result :: known) stmts v.code)
    (hrhs : ∀ r ∈ c.reads, r.Finds IsTemp known) (mode : Mode) (alternative : String) :
    Provides known
      (.set result (.nat 0) :: Loop.nest none loops
        (stmts ++ [.update (.name result) .add (.indicator v.code)]))
      (target.ofPValue mode (target.library.binomialTest (.name result) (Loop.countAll loops) c
        alternative)).code := by
  refine ⟨Stmt.closed_set_cons (List.forall_mem_nil _) (hranges.closed_nest
    (fun i hi => List.mem_cons_of_mem _ (htrial i hi)) hnodes
    (Stmt.closed_append hbody.statements (Stmt.closed_update ?_ ?_ _)) ?_), ?_⟩
  · exact List.mem_append_right _ List.mem_cons_self
  · rw [Code.reads_indicator]
    exact hbody.verdict
  · rintro n ⟨⟩
  · have hcounts := hranges.finds_reads_countAll htrial hnodes
    rw [Target.reads_ofPValue, Stmt.assigned_set_cons]
    refine Library.finds_reads_binomialTest hmodule
      (List.forall_mem_singleton.2 (.of_mem List.mem_cons_self)) (fun r hr => ?_) fun r hr => ?_
    · exact (hcounts r hr).mono (List.subset_append_right _ _)
    · exact (hrhs r hr).mono (List.subset_append_right _ _)

theorem expectation (hmodule : ¬IsTemp target.library.module)
    (hrhs : ∀ r ∈ c.reads, r.Finds IsTemp known) {op : CmpOp} {mode : Mode}
    (hverdict : target.tTestVerdict? result op mode = some v) :
    Provides known [.set result (target.library.tTest (.name outputName) c)] v.code := by
  refine ⟨Stmt.closed_set (Library.finds_reads_tTest hmodule ?_ hrhs), fun r hr => ?_⟩
  · exact List.forall_mem_singleton.2 (.of_not (not_isTemp_of_head (by decide)))
  · rw [Stmt.assigned_set_cons, Target.reads_of_tTestVerdict? hverdict r hr]
    exact .of_mem List.mem_cons_self

theorem expectationOverItems (hmodule : ¬IsTemp target.library.module)
    (hranges : Range.Opens ctx ranges loops inner) (htrial : ∀ i ∈ ctx.trial, i ∈ known)
    (hnodes : Node.SpareTemps (Range.nodesOfAll ranges)) {value : Code}
    (hvalue : ∀ r ∈ value.reads, r.Finds IsTemp (list :: known))
    (hrhs : ∀ r ∈ c.reads, r.Finds IsTemp known) {op : CmpOp} {mode : Mode}
    (hverdict : target.tTestVerdict? result op mode = some v) :
    Provides known
      (.set list (.list []) :: Loop.nest none loops [.append (.name list) value] ++
        [.set result (target.library.tTest (.name list) c)]) v.code := by
  refine ⟨Stmt.closed_append (Stmt.closed_set_cons (List.forall_mem_nil _) (hranges.closed_nest
    (fun i hi => List.mem_cons_of_mem _ (htrial i hi)) hnodes
    (Stmt.closed_extend List.mem_cons_self hvalue) ?_))
    (Stmt.closed_set (Library.finds_reads_tTest hmodule ?_ fun r hr => ?_)), fun r hr => ?_⟩
  · rintro n ⟨⟩
  · rw [Stmt.assigned_set_cons]
    exact List.forall_mem_singleton.2 (.of_mem List.mem_cons_self)
  · exact (hrhs r hr).mono (List.subset_append_right _ _)
  · rw [Stmt.accessesOfAll_append, Accesses.assigned_append, Stmt.assigned_set_cons result,
      Target.reads_of_tTestVerdict? hverdict r hr]
    exact .of_mem (List.mem_append_left _ (List.mem_append_right _ List.mem_cons_self))

/-- The verdict of the first operand is read after the statements of the second. -/
theorem logic (ha : Provides known stmts v.code)
    (hb : Provides ((Stmt.accessesOfAll stmts).assigned ++ known) stmts' w.code)
    (mode : Mode) (op : LogicOp) :
    Provides known (stmts ++ stmts') (Verdict.ofLogic mode op v w).code := by
  refine ⟨Stmt.closed_append ha.statements hb.statements, ?_⟩
  rw [Stmt.accessesOfAll_append, Accesses.assigned_append]
  refine Verdict.finds_reads_ofLogic (fun r hr => (ha.verdict r hr).mono ?_)
    (fun r hr => (hb.verdict r hr).mono ?_) mode op
  · rw [List.append_assoc, List.append_subset]
    exact ⟨List.subset_append_left _ _, by simp⟩
  · rw [List.append_assoc, List.append_subset, List.append_subset]
    simp

end Provides

/-- The code of a clause needs no temporary from outside but the index of the trial. -/
theorem Clause.Emits.provides {target : Target} {ctx : Context} {c : Clause} {mode : Mode}
    {stmts : List Stmt} {v : Verdict} {k : Nat} (h : c.Emits target ctx mode stmts v k)
    (hmodule : ¬IsTemp target.library.module) {known : List String}
    (htrial : ∀ i ∈ ctx.trial, i ∈ known) (hnodes : Node.SpareTemps c.nodes) :
    Provides known stmts v.code := by
  induction h generalizing known with
  | @forAll ctx inner span ranges body mode loops stmts holds k _ hranges _ ih =>
      rw [Clause.nodes, Node.spareTemps_cons, Node.spareTemps_append] at hnodes
      have hinner := hranges.trial_mem htrial (tempName ctx.temps)
      exact .forAll hranges htrial hnodes.2.1 (ih hinner hnodes.2.2) mode
  | @forAllTests ctx inner span ranges body mode loops stmts p k _ hranges _ ih =>
      rw [Clause.nodes, Node.spareTemps_cons, Node.spareTemps_append] at hnodes
      have hinner := hranges.trial_mem htrial (tempName (ctx.temps + 1))
      exact .forAllTests hmodule hranges htrial hnodes.2.1 (ih hinner hnodes.2.2) mode
  | @letIn ctx span name value body mode v stmts verdict k hvalue _ ih =>
      rw [Clause.nodes, Node.spareTemps_cons, Node.spareTemps_append] at hnodes
      have hinner : ∀ i ∈ (ctx.push.declare name).trial, i ∈ name :: known :=
        ctx.push.trial_declare name ▸ fun i hi => List.mem_cons_of_mem _ (htrial i hi)
      exact .letIn (Term.finds_reads htrial hvalue hnodes.2.1) (ih hinner hnodes.2.2)
  | @membershipList ctx span item collection mode i c itemTy τ hitem hitemTy hcollection hty =>
      rw [Clause.nodes, Node.spareTemps_cons, Node.spareTemps_append] at hnodes
      have hc := Term.finds_reads htrial hcollection hnodes.2.2
      have hi := Term.finds_reads_item itemTy (Term.finds_reads htrial hitem hnodes.2.1)
      refine .ofReads ?_
      rw [Verdict.reads_ofCondition]
      exact List.forall_mem_append.2 ⟨hi, hc⟩
  | @membershipMap ctx span item collection mode i c itemTy κ τ hitem hitemTy hcollection hty =>
      rw [Clause.nodes, Node.spareTemps_cons, Node.spareTemps_append] at hnodes
      have hc := Term.finds_reads htrial hcollection hnodes.2.2
      have hi := Term.finds_reads_item itemTy (Term.finds_reads htrial hitem hnodes.2.1)
      refine .ofReads ?_
      rw [Verdict.reads_ofCondition, Code.getOrZero, Code.reads, Code.readsOfAll, Code.readsOfAll,
        Code.readsOfAll]
      exact List.forall_mem_append.2 ⟨hc, List.forall_mem_append.2 ⟨hi, List.forall_mem_nil _⟩⟩
  | approx _ hrhs =>
      rw [Clause.nodes, Node.spareTemps_cons, Node.spareTemps_append] at hnodes
      exact .approx hmodule (Term.finds_reads htrial hrhs hnodes.2.2) _
  | @probability ctx span note trials body op rhs mode alternative stmts hit p k _ _ hrhs ih =>
      rw [Clause.nodes, Term.nodes, Node.spareTemps_cons, Node.spareTemps_append,
        Node.spareTemps_cons] at hnodes
      -- In the body, the trial is that of the statistic and no longer the one around it.
      have hindex : ∀ i ∈ some (tempName (ctx.temps + 1)),
          i ∈ tempName (ctx.temps + 1) :: tempName ctx.temps :: known := by
        rintro i ⟨⟩
        exact List.mem_cons_self
      exact .probability hmodule trials (ih hindex hnodes.2.1.2)
        (Term.finds_reads htrial hrhs hnodes.2.2) mode _
  | @probabilityOverItems ctx inner span note ranges body op rhs mode alternative loops stmts hit p
      k _ hranges _ hrhs ih =>
      rw [Clause.nodes, Term.nodes, Node.spareTemps_cons, Node.spareTemps_append,
        Node.spareTemps_cons, Node.spareTemps_append] at hnodes
      have hinner := hranges.trial_mem htrial (tempName ctx.temps)
      exact .probabilityOverItems hmodule hranges htrial hnodes.2.1.2.1
        (ih hinner hnodes.2.1.2.2) (Term.finds_reads htrial hrhs hnodes.2.2) mode _
  | expectation _ hrhs hverdict =>
      rw [Clause.nodes, Node.spareTemps_cons, Node.spareTemps_append] at hnodes
      exact .expectation hmodule (Term.finds_reads htrial hrhs hnodes.2.2) hverdict
  | @expectationOverItems ctx inner span note ranges body op rhs mode loops value expected verdict
      hranges hbody hrhs hverdict =>
      rw [Clause.nodes, Term.nodes, Node.spareTemps_cons, Node.spareTemps_append,
        Node.spareTemps_cons, Node.spareTemps_append] at hnodes
      have hinner := hranges.trial_mem htrial (tempName ctx.temps)
      exact .expectationOverItems hmodule hranges htrial hnodes.2.1.2.1
        (Term.finds_reads hinner hbody hnodes.2.1.2.2) (Term.finds_reads htrial hrhs hnodes.2.2)
        hverdict
  | @compare ctx span lhs op rhs mode a b hplain hlhs hrhs =>
      rw [Clause.nodes, Node.spareTemps_cons, Node.spareTemps_append] at hnodes
      refine .ofReads ?_
      rw [Verdict.reads_ofCondition]
      exact List.forall_mem_append.2 ⟨Term.finds_reads htrial hlhs hnodes.2.1,
        Term.finds_reads htrial hrhs hnodes.2.2⟩
  | logic _ _ ihl ihr =>
      rw [Clause.nodes, Node.spareTemps_cons, Node.spareTemps_append] at hnodes
      exact .logic (ihl htrial hnodes.2.1)
        (ihr (fun i hi => List.mem_append_right _ (htrial i hi)) hnodes.2.2) _ _
  | @not ctx span inner mode stmts v k _ ih =>
      rw [Clause.nodes, Node.spareTemps_cons] at hnodes
      obtain ⟨hstmts, hverdict⟩ := ih htrial hnodes.2
      exact ⟨hstmts, Verdict.reads_ofNot mode v ▸ hverdict⟩

section Placement

theorem Loop.nest_ne_nil {inner : List Stmt} (h : inner ≠ []) (condition : Option String)
    (loops : List Loop) : nest condition loops inner ≠ [] := by
  cases loops with
  | nil => exact h
  | cons loop loops => exact List.cons_ne_nil _ _

theorem Loop.inPlaceAll_nest {inner : List Stmt} (h : Stmt.inPlaceAll false inner = true)
    (hne : inner ≠ []) (condition : Option String) (loops : List Loop) :
    Stmt.inPlaceAll false (nest condition loops inner) = true := by
  induction loops with
  | nil => exact h
  | cons loop loops ih =>
      have hbreak : Stmt.inPlaceAll true
          (condition.toList.map fun name => .breakUnless (.name name)) = true := by
        cases condition <;> rfl
      have hbody := Stmt.inPlaceAll_append ih hbreak
      refine Stmt.inPlaceAll_forIn hbody ?_ _ _
      exact List.append_ne_nil_of_left_ne_nil (nest_ne_nil hne condition loops) _

/-- In the statements of a clause, loops have bodies, and are left early at the end of a round. -/
theorem Clause.Emits.inPlaceAll {target : Target} {ctx : Context} {c : Clause} {mode : Mode}
    {stmts : List Stmt} {v : Verdict} {k : Nat} (h : c.Emits target ctx mode stmts v k) :
    Stmt.inPlaceAll false stmts = true := by
  have hset {name : String} {value : Code} {rest : List Stmt}
      (h : Stmt.inPlaceAll false rest = true) :
      Stmt.inPlaceAll false (.set name value :: rest) = true :=
    Stmt.inPlaceAll_append (a := [.set name value]) rfl h
  have hnest {inner : List Stmt} (h : Stmt.inPlaceAll false inner = true) {last : Stmt}
      (hlast : last.inPlace false = true) (condition : Option String) (loops : List Loop) :
      Stmt.inPlaceAll false (Loop.nest condition loops (inner ++ [last])) = true := by
    have hlast : Stmt.inPlaceAll false [last] = true := by simpa [Stmt.inPlaceAll] using hlast
    exact Loop.inPlaceAll_nest (Stmt.inPlaceAll_append h hlast) (by simp) condition loops
  induction h with
  | forAll _ _ _ ih | probabilityOverItems _ _ _ _ ih => exact hset (hnest ih rfl _ _)
  | forAllTests _ _ _ ih => exact Stmt.inPlaceAll_append (hset (hnest ih rfl _ _)) rfl
  | letIn _ _ ih => exact hset ih
  | membershipList | membershipMap | compare | approx | expectation => rfl
  | probability _ _ _ ih =>
      exact hset (Stmt.inPlaceAll_forIn (Stmt.inPlaceAll_append ih rfl) (by simp) _ _)
  | expectationOverItems =>
      exact Stmt.inPlaceAll_append (hset (@hnest [] rfl _ rfl _ _)) rfl
  | logic _ _ ihl ihr => exact Stmt.inPlaceAll_append ihl ihr
  | not _ ih => exact ih

end Placement

/-- The statements of a clause are valid code, if none of its names, and neither the variable of
the library, looks like a temporary, and a trial that was there before has an index of its own.
Loops have bodies, and are left early at the end of a round only. On every path through the
statements and the verdict, each temporary that was handed out for the clause is assigned before
it is read. The text of a constant is a numeral, and reads nothing. -/
theorem Clause.lower_assigns_before_use {target : Target} {ctx ctx' : Context} {c : Clause}
    {mode : Mode} {v : Verdict} (hlower : (c.lower target mode).exec ctx = (.ok v, ctx'))
    (hblock : ctx.block = []) (hnames : Node.SpareTemps c.nodes)
    (hroot : ¬IsTemp target.library.root)
    (htrial : ∀ i ∈ ctx.trial, ¬IsTempIn ctx.temps ctx'.temps i) :
    Stmt.inPlaceAll false ctx'.block = true ∧
      ∀ es, (Stmt.accessesOfAll ctx'.block ++ .ofReads v.code.reads).Path es →
        Event.Assigned (IsTempIn ctx.temps ctx'.temps) [] es := by
  obtain ⟨stmts, k, hemits, rfl⟩ := (Clause.exec_lower_eq_ok_iff target c mode v ctx ctx').1 hlower
  have hstmts : (ctx.extend k stmts).block = stmts := by simp [Context.extend, hblock]
  have hknown : ∀ i ∈ ctx.bare.trial, i ∈ ctx.trial.toList := fun i hi => Option.mem_toList.2 hi
  obtain ⟨hstatements, hverdict⟩ :=
    hemits.provides (Library.not_isTemp_module hroot) hknown hnames
  have hclosed := hstatements.append ((Accesses.closed_ofReads_iff _).2 hverdict)
  rw [hstmts]
  refine ⟨hemits.inPlaceAll, fun es hes => hes.assigned fun p hp htemp => ?_⟩
  have hmem := Option.mem_toList.1 (hclosed p hp (htemp.imp fun i hi => hi.2.2))
  exact absurd htemp (htrial p.1 hmem)

/-- The clause `(forall x in Input: P over runs [Output > x] >= 0.9) and Output ~ 5`. -/
def boundedAround : Clause :=
  .logic .dummy
    (.forAll .dummy [.mk .dummy "x" (.identifier {} inputName) .elements]
      (.compare .dummy (.probability {} .runs (.compare .dummy (.identifier {} outputName) .gt
        (.identifier {} "x"))) .ge (.constant {} "0.9")))
    .and (.approx .dummy (.identifier {} outputName) (.constant {} "5"))

theorem Clause.lower_assigns_before_use_boundedAround :
    ∃ v ctx, (boundedAround.lower {} .boolean).exec (.start ["Output", "Input"]) = (.ok v, ctx) ∧
      ctx.temps = 6 ∧ Stmt.inPlaceAll false ctx.block = true ∧
      ∀ es, (Stmt.accessesOfAll ctx.block ++ .ofReads v.code.reads).Path es →
        Event.Assigned (IsTempIn 0 6) [] es := by
  have hemits : ∃ stmts v,
      boundedAround.Emits {} (.start ["Output", "Input"]) .boolean stmts v 6 :=
    ⟨_, _, .logic (.forAllTests rfl (.cons rfl .nil)
      (.probability rfl (.compare rfl rfl rfl) rfl)) (.approx rfl rfl)⟩
  obtain ⟨stmts, v, hemits⟩ := hemits
  have hlower := (Clause.exec_lower_eq_ok_iff {} boundedAround .boolean v
    (.start ["Output", "Input"]) _).2 ⟨stmts, 6, hemits, rfl⟩
  have hnames : Node.SpareTemps boundedAround.nodes := Node.spareTemps_of_head (by decide)
  have hroot : ¬IsTemp (Library.root {}) := not_isTemp_of_head (by decide)
  have htrial : ∀ i ∈ (Context.start ["Output", "Input"]).trial, ¬IsTempIn 0 6 i := by
    simp [Context.start]
  exact ⟨v, _, hlower, rfl, Clause.lower_assigns_before_use hlower rfl hnames hroot htrial⟩

/-- The clause `E over runs [Output] == 5`. -/
def meanOfRuns : Clause :=
  .compare .dummy (.expectation {} .runs (.identifier {} outputName)) .eq (.constant {} "5")

/-- A library with the name of a temporary is read before the temporary is assigned. -/
theorem Clause.lower_reads_unassigned_library :
    ∃ v ctx, (meanOfRuns.lower { library := ⟨"t0"⟩ } .boolean).exec (Context.start ["Output"]) =
        (.ok v, ctx) ∧
      Node.SpareTemps meanOfRuns.nodes ∧ ctx.temps = 1 ∧
      ∃ es, (Stmt.accessesOfAll ctx.block ++ .ofReads v.code.reads).Path es ∧
        ¬Event.Assigned (IsTempIn 0 1) [] es := by
  have hnames : Node.SpareTemps meanOfRuns.nodes := Node.spareTemps_of_head (by decide)
  have hlower : ∃ v ctx, (meanOfRuns.lower { library := ⟨"t0"⟩ } .boolean).exec
      (Context.start ["Output"]) = (.ok v, ctx) ∧ ctx.temps = 1 ∧
      Stmt.accessesOfAll ctx.block ++ .ofReads v.code.reads = .read ⟨"t0", (), []⟩
        (.read ⟨outputName, (), []⟩ (.write (tempName 0) () (.read ⟨tempName 0, (), []⟩ .done))) :=
    ⟨_, _, rfl, rfl, rfl⟩
  obtain ⟨v, ctx, hlower, htemps, haccesses⟩ := hlower
  refine ⟨v, ctx, hlower, hnames, htemps, ?_⟩
  rw [haccesses]
  refine ⟨_, .read (.read (.write (.read .done))), ?_⟩
  rintro ⟨hread, -⟩
  have htemp : IsTempIn 0 1 "t0" := ⟨0, Nat.le_refl 0, Nat.one_pos, rfl⟩
  rcases hread htemp with hlocal | hmem
  · cases hlocal
  · cases hmem

end StatContract
