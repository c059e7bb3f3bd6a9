import StatContract.Proofs.Code.Access
import StatContract.Proofs.Lowering.Emission
import StatContract.Proofs.Spec.Names
import Mathlib.Data.List.Induction

/-!
# Binding hygiene

A let, a range and a temporary all become assignments in one function. Lexical
scoping says which of them a name refers to, but the code only has the name. So
a read gets the wrong value if something else with the same name was assigned in
the meantime.

`Clause.accesses` lists the accesses of the generated code together with their
owners: on whose behalf a variable is assigned, and, by lexical scoping, whose
value a read is meant to get. The main result is `Clause.lower_hygienic_iff`. The
list is the list of accesses of the code that lowering writes, and its reads get
what they are meant for on all paths exactly if `Clause.isHygienic` says so, which
can be computed from the clause.

Not all clauses are hygienic. The statements of both operands of a connective
come before the verdict, so the second of two lets for the same name is seen by
the verdict of the first.
-/

namespace StatContract

/-- What the names of a clause refer to. -/
structure Scope where
  /-- The parameters of the function. -/
  parameters : List String
  /-- The names of the lets and ranges around, innermost first. -/
  bound : List (String × Owner) := []
  /-- The temporary with the index of the trial under consideration. -/
  trial : Option Nat := none

/-- A read of a temporary. -/
def Use.ofTemp (k : Nat) : Use Owner := ⟨tempName k, .temp k, []⟩

namespace Scope

/-- A read of a name that is not from the clause: a parameter, or something from
outside of the function. -/
def outer (s : Scope) (name : String) : Use Owner :=
  ⟨name, if s.parameters.contains name then .parameter else .unbound, []⟩

/-- A read of a name of the clause. -/
def refer (s : Scope) (name : String) : Use Owner :=
  match s.bound.lookup name with
  | some o => ⟨name, o, []⟩
  | none => s.outer name

def isVisible (s : Scope) (name : String) : Bool :=
  (s.bound.lookup name).isSome || s.parameters.contains name

/-- The scope of a name. -/
def bind (s : Scope) (name : String) (o : Owner) : Scope :=
  { s with bound := (name, o) :: s.bound }

/-- The reads for a name of the clause. -/
def reads (s : Scope) (name : String) : List (Use Owner) :=
  if s.isVisible name then
    match s.trial with
    | some k => if name = outputName then [s.refer name, .ofTemp k] else [s.refer name]
    | none => [s.refer name]
  else [s.outer "Config"]

/-- The reads for what a loop runs through, from those of the collection. -/
def sourceReads (s : Scope) (mode : RangeMode) (collection : List (Use Owner)) :
    List (Use Owner) :=
  match mode with
  | .elements => collection
  | .uniqueElements => s.outer "set" :: collection
  | .indices => s.outer "range" :: s.outer "len" :: collection

/-- The reads for how often a loop runs, from those of the collection. -/
def countReads (s : Scope) (mode : RangeMode) (collection : List (Use Owner)) :
    List (Use Owner) :=
  match mode with
  | .uniqueElements => s.outer "len" :: s.outer "set" :: collection
  | .elements | .indices => s.outer "len" :: collection

/-- The scope of the last of several ranges. The owners of the ranges are counted
from a number on. -/
def enter (s : Scope) (first : Nat) : List Range → Scope
  | [] => s
  | .mk _ var collection _ :: rest =>
    (s.bind var (.binder first)).enter (first + 1 + collection.binders.length) rest

end Scope

mutual

/-- The reads of a term. -/
def Term.reads (s : Scope) : Term → List (Use Owner)
  | .constant .. | .probability .. | .probabilityOverItems .. | .expectation ..
  | .expectationOverItems .. => []
  | .lookup _ collection key => collection.reads s ++ key.reads s
  | .identifier _ name => s.reads name
  | .tuple _ elements => Term.readsOfAll s elements
  | .binary _ lhs op rhs =>
    (if lhs.ty.any (·.isMatrix) then op.matrixFunction?.toList.map s.outer else []) ++
      (lhs.reads s ++ rhs.reads s)
  | .sizeOf _ collection => s.outer "len" :: collection.reads s
  | .call _ name args => s.refer name :: Term.readsOfAll s args

/-- The reads of several terms. -/
def Term.readsOfAll (s : Scope) : List Term → List (Use Owner)
  | [] => []
  | t :: rest => t.reads s ++ Term.readsOfAll s rest

end

/-- The accesses of a loop. -/
structure LoopAccesses where
  var : String
  owner : Owner
  /-- The reads for what the loop runs through. -/
  source : List (Use Owner)
  /-- The reads for how often it runs. -/
  count : List (Use Owner)

/-- The accesses of the loops for ranges. -/
def Range.loopAccesses (s : Scope) (first : Nat) : List Range → List LoopAccesses
  | [] => []
  | .mk _ var collection mode :: rest =>
    ⟨var, .binder first, s.sourceReads mode (collection.reads s),
      s.countReads mode (collection.reads s)⟩ ::
    loopAccesses (s.bind var (.binder first)) (first + 1 + collection.binders.length) rest

/-- The accesses of nested loops. At the end of each round the temporary with the
condition is read, if there is one. -/
def LoopAccesses.nest (condition : Option Nat) :
    List LoopAccesses → Accesses Owner → Accesses Owner
  | [], inner => inner
  | loop :: loops, inner =>
    .ofReads loop.source ++
      .loop (.write loop.var loop.owner
        (nest condition loops inner ++ .ofReads (condition.toList.map .ofTemp))) .done

/-- The accesses of a lowered clause. -/
structure Trace where
  /-- The accesses of its statements. -/
  statements : Accesses Owner
  /-- The reads of its verdict. -/
  verdict : List (Use Owner)
  /-- The number of temporaries handed out. -/
  temps : Nat

/-- Assigns a temporary. -/
def Accesses.ofTemp (k : Nat) : Accesses Owner := .write (tempName k) (.temp k) .done

/-- The accesses of a round that changes a temporary by a verdict. -/
def Trace.update (r : Trace) (k : Nat) : Accesses Owner :=
  r.statements ++ .ofReads (.ofTemp k :: r.verdict) ++ .ofTemp k

/-- The accesses of a clause in a scope. Its lets and ranges are counted from a
number on, in the order of `Clause.binders`, and its temporaries from `k` on. -/
def Clause.trace (lib : Library) : Clause → Scope → (first k : Nat) → Mode → Trace
  | .forAll _ ranges body, s, first, k, _ =>
    let inner := s.enter first ranges
    let loops := Range.loopAccesses s first ranges
    let next := first + (Range.bindersOfAll ranges).length
    if body.domain = .overRuns then
      let r := body.trace lib inner next (k + 2) .probability
      { statements :=
          .ofTemp (k + 1) ++
          LoopAccesses.nest none loops
            (r.statements ++ .ofReads (.ofTemp (k + 1) :: r.verdict)) ++
          .ofReads [s.outer lib.module, .ofTemp (k + 1)] ++ .ofTemp k
        verdict := [.ofTemp k]
        temps := r.temps }
    else
      let r := body.trace lib inner next (k + 1) .boolean
      { statements := .ofTemp k ++ LoopAccesses.nest (some k) loops (r.update k)
        verdict := [.ofTemp k]
        temps := r.temps }
  | .letIn _ name value body, s, first, k, mode =>
    let r := body.trace lib (s.bind name (.binder first)) (first + 1 + value.binders.length) k mode
    { r with statements := .ofReads (value.reads s) ++ .write name (.binder first) r.statements }
  | .membership _ item collection, s, _, k, _ =>
    let i := (if item.ty.any (·.isSequence) then [s.outer "tuple"] else []) ++ item.reads s
    let c := collection.reads s
    ⟨.done, if collection.ty.any (·.isSequence) then i ++ c else c ++ i, k⟩
  | .approx _ _ rhs, s, _, k, _ =>
    { statements :=
        .ofReads (s.refer outputName ::
          (.ofTemp (k + 1) :: rhs.reads s).map (.within (tempName (k + 1)) (.temp (k + 1)))) ++
        .ofTemp k
      verdict := [s.outer lib.module, .ofTemp k]
      temps := k + 2 }
  | .compare _ (.probability _ trials body) _ rhs, s, first, k, _ =>
    let r := body.trace lib { s with trial := some (k + 1) } first (k + 2) .boolean
    { statements :=
        .ofTemp k ++ .ofReads [s.outer "range", s.outer (Lower.trialCount trials)] ++
        .loop (.ofTemp (k + 1) ++ r.update k) .done
      verdict := s.outer lib.module :: .ofTemp k :: s.outer (Lower.trialCount trials) :: rhs.reads s
      temps := r.temps }
  | .compare _ (.probabilityOverItems _ ranges body) _ rhs, s, first, k, _ =>
    let loops := Range.loopAccesses s first ranges
    let r := body.trace lib (s.enter first ranges) (first + (Range.bindersOfAll ranges).length)
      (k + 1) .boolean
    { statements := .ofTemp k ++ LoopAccesses.nest none loops (r.update k)
      verdict :=
        s.outer lib.module :: .ofTemp k :: (loops.flatMap LoopAccesses.count ++ rhs.reads s)
      temps := r.temps }
  | .compare _ (.expectation ..) op rhs, s, _, k, _ =>
    { statements :=
        .ofReads (s.outer lib.module :: s.refer outputName :: rhs.reads s) ++ .ofTemp k
      verdict := tTestReads op k
      temps := k + 1 }
  | .compare _ (.expectationOverItems _ ranges body) op rhs, s, first, k, _ =>
    { statements :=
        .ofTemp k ++
        LoopAccesses.nest none (Range.loopAccesses s first ranges)
          (.ofReads (.ofTemp k :: body.reads (s.enter first ranges))) ++
        .ofReads (s.outer lib.module :: .ofTemp k :: rhs.reads s) ++ .ofTemp (k + 1)
      verdict := tTestReads op (k + 1)
      temps := k + 2 }
  | .compare _ lhs _ rhs, s, _, k, _ => ⟨.done, lhs.reads s ++ rhs.reads s, k⟩
  | .logic _ lhs op rhs, s, first, k, mode =>
    let a := lhs.trace lib s first k mode
    let b := rhs.trace lib s (first + lhs.binders.length) a.temps mode
    let function :=
      match mode, op with
      | .boolean, _ => []
      | .probability, .and => [s.outer "min"]
      | .probability, .or => [s.outer "max"]
    ⟨a.statements ++ b.statements, function ++ (a.verdict ++ b.verdict), b.temps⟩
  | .not _ inner, s, first, k, mode => inner.trace lib s first k mode
where
  /-- The reads for the verdict of a t-test: its p-value, and for a one-sided test
  also its statistic. -/
  tTestReads (op : CmpOp) (k : Nat) : List (Use Owner) :=
    if op = .eq then [.ofTemp k] else [.ofTemp k, .ofTemp k]

theorem Clause.trace_compare {lib : Library} {span : Span} {lhs rhs : Term} {op : CmpOp} {s : Scope}
    {first k : Nat} {mode : Mode} (hplain : lhs.isStatistic = false) :
    (Clause.compare span lhs op rhs).trace lib s first k mode =
      ⟨.done, lhs.reads s ++ rhs.reads s, k⟩ := by
  cases lhs <;> first | rfl | cases hplain

/-- The code itself does not tell owners. -/
def Owner.forget (_ : Owner) : Unit := ()

@[simp] theorem Use.map_ofTemp (k : Nat) :
    (Use.ofTemp k).map Owner.forget = ⟨tempName k, (), []⟩ := rfl

@[simp] theorem Accesses.map_ofTemp (k : Nat) :
    (Accesses.ofTemp k).map Owner.forget = .write (tempName k) () .done := rfl

namespace Scope

@[simp] theorem map_outer (s : Scope) (name : String) :
    (s.outer name).map Owner.forget = ⟨name, (), []⟩ := rfl

@[simp] theorem map_refer (s : Scope) (name : String) :
    (s.refer name).map Owner.forget = ⟨name, (), []⟩ := by
  rw [refer]
  cases s.bound.lookup name <;> rfl

theorem map_sourceReads {s : Scope} {mode : RangeMode} {rs : List (Use Owner)} {c : Code}
    (h : rs.map (Use.map Owner.forget) = c.reads) :
    (s.sourceReads mode rs).map (Use.map Owner.forget) = (Loop.sourceOf mode c).reads := by
  cases mode <;>
    simp [sourceReads, Loop.sourceOf, Code.range, Code.len, Code.apply, Code.reads,
      Code.readsOfAll, h]

theorem map_countReads {s : Scope} {mode : RangeMode} {rs : List (Use Owner)} {c source : Code}
    {var : String} (h : rs.map (Use.map Owner.forget) = c.reads) :
    (s.countReads mode rs).map (Use.map Owner.forget) =
      (Loop.count ⟨var, source, c, mode⟩).reads := by
  cases mode <;>
    simp [countReads, Loop.count, Code.len, Code.apply, Code.reads, Code.readsOfAll, h]

/-- The state of lowering has the same names in scope, and the same trial. -/
structure Matches (s : Scope) (ctx : Context) : Prop where
  visible : ∀ name, s.isVisible name = ctx.isVisible name
  trial : ctx.trial = s.trial.map tempName

namespace Matches

variable {s : Scope} {ctx : Context}

theorem start (names : List String) : Matches { parameters := names } (Context.start names) where
  visible := by simp [isVisible, Context.isVisible, Context.start]
  trial := rfl

theorem withTemps (h : s.Matches ctx) (k : Nat) : s.Matches (ctx.withTemps k) where
  visible := h.visible
  trial := h.trial

theorem push (h : s.Matches ctx) : s.Matches ctx.push where
  visible := fun name => by rw [Context.isVisible_push, h.visible]
  trial := h.trial

theorem declare (h : s.Matches ctx) (name : String) (o : Owner) :
    (s.bind name o).Matches (ctx.declare name) where
  visible := by
    intro n
    have hn := h.visible n
    rw [Bool.eq_iff_iff] at hn ⊢
    rw [Context.isVisible_declare_iff, ← hn]
    by_cases hname : n = name
    · simp [isVisible, bind, hname]
    · have hne : (n == name) = false := by simpa using hname
      simp [isVisible, bind, List.lookup_cons, hname, hne]
  trial := by rw [Context.trial_declare, h.trial]; rfl

theorem withTrial (h : s.Matches ctx) (k : Nat) :
    Matches { s with trial := some k } (ctx.withTrial (tempName k)) where
  visible := h.visible
  trial := rfl

theorem map_reads (h : s.Matches ctx) (name : String) :
    (s.reads name).map (Use.map Owner.forget) = (ctx.resolve name).code.reads := by
  rw [reads, h.visible, Context.resolve, h.trial]
  cases ctx.isVisible name with
  | false => simp [Reference.code, Code.entry, Code.reads]
  | true =>
      cases s.trial with
      | none => simp [Reference.code, Code.reads]
      | some k => by_cases hname : name = outputName <;> simp [hname, Reference.code, Code.reads]

end Matches

end Scope

mutual

/-- The reads of a term are those of its code. -/
theorem Term.map_reads {s : Scope} {ctx : Context} (hs : s.Matches ctx) :
    ∀ {t : Term} {c : Code}, t.lower ctx = .ok c →
      (t.reads s).map (Use.map Owner.forget) = c.reads
  | .constant .., _, h => by
      cases h
      rfl
  | .probability .., _, h | .probabilityOverItems .., _, h | .expectation .., _, h
  | .expectationOverItems .., _, h => nomatch h
  | .lookup note collection key, _, h => by
      rw [Term.lower] at h
      obtain ⟨c, hc, h⟩ := except_bind_eq_ok_iff.1 h
      obtain ⟨k, hk, h⟩ := except_bind_eq_ok_iff.1 h
      obtain ⟨ty, hty, h⟩ := except_bind_eq_ok_iff.1 h
      have hcollection := Term.map_reads hs hc
      have hkey := Term.map_reads hs hk
      cases ty with
      | scalar | matrix => cases h
      | sequence | map =>
          cases h
          simp [Term.reads, Code.reads, Code.readsOfAll, Code.getOrZero, hcollection, hkey]
  | .identifier _ name, _, h => by
      cases h
      exact hs.map_reads name
  | .tuple note elements, _, h => by
      rw [Term.lower] at h
      obtain ⟨items, hitems, h⟩ := except_bind_eq_ok_iff.1 h
      cases h
      simp [Term.reads, Code.reads, Term.map_readsOfAll hs hitems]
  | .binary note lhs op rhs, _, h => by
      simp only [Term.lower] at h
      obtain ⟨lhsTy, hlhsTy, h⟩ := except_bind_eq_ok_iff.1 h
      obtain ⟨rhsTy, hrhsTy, h⟩ := except_bind_eq_ok_iff.1 h
      have hty := (Term.requireType_eq_ok_iff lhs lhsTy).1 hlhsTy
      split at h
      · cases h
      · obtain ⟨a, ha, h⟩ := except_bind_eq_ok_iff.1 h
        obtain ⟨b, hb, h⟩ := except_bind_eq_ok_iff.1 h
        have hlhs := Term.map_reads hs ha
        have hrhs := Term.map_reads hs hb
        cases hmatrix : lhsTy.isMatrix with
        | false =>
            rw [hmatrix, if_neg (by decide)] at h
            cases h
            simp [Term.reads, hty, hmatrix, Code.group, Code.reads, hlhs, hrhs]
        | true =>
            rw [hmatrix, if_pos rfl] at h
            cases hfunction : op.matrixFunction? with
            | none =>
                rw [hfunction] at h
                cases h
            | some f =>
                rw [hfunction] at h
                cases h
                simp [Term.reads, hty, hmatrix, hfunction, Code.apply, Code.reads, Code.readsOfAll,
                  hlhs, hrhs]
  | .sizeOf note collection, _, h => by
      rw [Term.lower] at h
      obtain ⟨c, hc, h⟩ := except_bind_eq_ok_iff.1 h
      cases h
      simp [Term.reads, Code.len, Code.apply, Code.reads, Code.readsOfAll, Term.map_reads hs hc]
  | .call note name args, _, h => by
      rw [Term.lower] at h
      obtain ⟨cs, hargs, h⟩ := except_bind_eq_ok_iff.1 h
      cases h
      simp [Term.reads, Code.apply, Code.reads, Term.map_readsOfAll hs hargs]

/-- The reads of several terms are those of their codes. -/
theorem Term.map_readsOfAll {s : Scope} {ctx : Context} (hs : s.Matches ctx) :
    ∀ {ts : List Term} {cs : List Code}, Term.lowerList ctx ts = .ok cs →
      (Term.readsOfAll s ts).map (Use.map Owner.forget) = Code.readsOfAll cs
  | [], _, h => by
      cases h
      rfl
  | t :: rest, _, h => by
      rw [Term.lowerList] at h
      obtain ⟨c, hc, h⟩ := except_bind_eq_ok_iff.1 h
      obtain ⟨cs, hcs, h⟩ := except_bind_eq_ok_iff.1 h
      cases h
      rw [Term.readsOfAll, List.map_append, Term.map_reads hs hc, Term.map_readsOfAll hs hcs]
      rfl

end

theorem Loop.reads_countAll (loops : List Loop) :
    (Loop.countAll loops).reads = loops.flatMap fun loop => loop.count.reads := by
  induction loops using List.reverseRecOn with
  | nil => rfl
  | append_singleton loops loop ih =>
      rw [Loop.countAll_concat, Code.reads, ih, List.flatMap_append, List.flatMap_singleton]

namespace Range.Opens

variable {s : Scope} {ctx inner : Context} {ranges : List Range} {loops : List Loop}

theorem matches_enter (h : Range.Opens ctx ranges loops inner) (hs : s.Matches ctx) (first : Nat) :
    (s.enter first ranges).Matches inner := by
  induction h generalizing s first with
  | nil => exact hs
  | cons hcollection hrest ih => exact ih (hs.declare _ _) _

/-- How often the loops run is read from the code as listed. -/
theorem map_counts (h : Range.Opens ctx ranges loops inner) (hs : s.Matches ctx) (first : Nat) :
    ((Range.loopAccesses s first ranges).flatMap LoopAccesses.count).map (Use.map Owner.forget) =
      (Loop.countAll loops).reads := by
  rw [Loop.reads_countAll]
  induction h generalizing s first with
  | nil => rfl
  | @cons ctx inner span var collection mode rest c loops hcollection hrest ih =>
      have hc := Term.map_reads hs hcollection
      rw [Range.loopAccesses, List.flatMap_cons, List.map_append, List.flatMap_cons,
        ih (hs.declare _ _), Scope.map_countReads hc]

/-- Loops around accesses of the code are accesses of the code. -/
theorem map_nest (h : Range.Opens ctx ranges loops inner) (hs : s.Matches ctx) (first : Nat)
    (condition : Option Nat) (stmts : List Stmt) {a : Accesses Owner}
    (ha : a.map Owner.forget = Stmt.accessesOfAll stmts) :
    (LoopAccesses.nest condition (Range.loopAccesses s first ranges) a).map Owner.forget =
      Stmt.accessesOfAll (Loop.nest (condition.map tempName) loops stmts) := by
  induction h generalizing s first with
  | nil => exact ha
  | @cons ctx inner span var collection mode rest c loops hcollection hrest ih =>
      have hc := Term.map_reads hs hcollection
      have hnest := ih (hs.declare var (.binder first)) (first + 1 + collection.binders.length)
      have hend : (Accesses.ofReads (condition.toList.map Use.ofTemp)).map Owner.forget =
          Stmt.accessesOfAll ((condition.map tempName).toList.map fun name =>
            .breakUnless (.name name)) := by
        cases condition <;> rfl
      simp only [Range.loopAccesses, LoopAccesses.nest, Loop.nest, Accesses.map_append,
        Accesses.map_ofReads, Scope.map_sourceReads hc, Accesses.map_loop, Accesses.map_write,
        Accesses.map_done, hnest, hend,
        Stmt.accessesOfAll, Stmt.accesses, Stmt.accessesOfAll_append, Accesses.append_done]

end Range.Opens

@[simp] theorem Stmt.accesses_set (name : String) (value : Code) :
    (Stmt.set name value).accesses = .ofReads value.reads ++ .write name () .done := rfl

@[simp] theorem Verdict.reads_ofCondition (mode : Mode) (c : Code) :
    (Verdict.ofCondition mode c).code.reads = c.reads := by
  cases mode <;> simp [Verdict.ofCondition, Verdict.code, Code.indicator, Code.reads]

@[simp] theorem Target.reads_ofPValue (target : Target) (mode : Mode) (c : Code) :
    (target.ofPValue mode c).code.reads = c.reads := by
  cases mode <;> simp [Target.ofPValue, Verdict.code, Code.group, Code.reads, Target.alphaCode]

theorem Verdict.reads_ofNot (mode : Mode) (v : Verdict) :
    (Verdict.ofNot mode v).code.reads = v.code.reads := by
  cases mode <;> simp [Verdict.ofNot, Verdict.code, Code.group, Code.reads, Code.nat]

theorem Library.reads_function (lib : Library) (f : String) (args : List Code) :
    (lib.function f args).reads = ⟨lib.module, (), []⟩ :: Code.readsOfAll args := by
  simp [Library.function, Code.reads]

theorem Target.reads_tTestVerdict {target : Target} {k : Nat} {op : CmpOp} {mode : Mode}
    {v : Verdict} (h : target.tTestVerdict? (tempName k) op mode = some v) :
    (Clause.trace.tTestReads op k).map (Use.map Owner.forget) = v.code.reads := by
  cases mode <;> cases op <;> cases h <;> rfl

/-- The trace lists the accesses of statements and of a verdict, when so many
temporaries have been handed out. -/
structure Trace.Lists (r : Trace) (stmts : List Stmt) (verdict : Code) (k : Nat) : Prop where
  statements : r.statements.map Owner.forget = Stmt.accessesOfAll stmts
  verdict : r.verdict.map (Use.map Owner.forget) = verdict.reads
  temps : r.temps = k

/-- The trace of a clause lists the accesses of what lowering emits. -/
theorem Clause.Emits.lists_trace {target : Target} {ctx : Context} {c : Clause} {mode : Mode}
    {stmts : List Stmt} {v : Verdict} {k : Nat} (h : c.Emits target ctx mode stmts v k) {s : Scope}
    (hs : s.Matches ctx) (first : Nat) :
    (c.trace target.library s first ctx.temps mode).Lists stmts v.code k := by
  induction h generalizing s first with
  | @forAll ctx inner span ranges body mode loops stmts holds k hdomain hranges hbody ih =>
      have hs' := (hs.withTemps (ctx.temps + 1)).push
      -- The binders of the body are numbered on from those of the ranges.
      obtain ⟨hstatements, hverdict, htemps⟩ := ih (hranges.matches_enter hs' first)
        (first + (Range.bindersOfAll ranges).length)
      rw [hranges.temps_eq, Context.temps_withTemps] at hstatements hverdict htemps
      rw [Clause.trace, if_neg hdomain]
      refine ⟨?_, by simp [Code.reads], htemps⟩
      simp only [Accesses.map_append, Accesses.map_ofTemp]
      -- The loops list what the block in them lists, so only the block is left to compare.
      rw [hranges.map_nest hs' first (some ctx.temps) (stmts ++ [_])]
      · rfl
      · simp [Trace.update, Stmt.accessesOfAll, Code.reads, hstatements, hverdict]
  | @forAllTests ctx inner span ranges body mode loops stmts p k hdomain hranges hbody ih =>
      have hs' := (hs.withTemps (ctx.temps + 2)).push
      obtain ⟨hstatements, hverdict, htemps⟩ := ih (hranges.matches_enter hs' first)
        (first + (Range.bindersOfAll ranges).length)
      rw [hranges.temps_eq, Context.temps_withTemps] at hstatements hverdict htemps
      rw [Clause.trace, if_pos hdomain]
      refine ⟨?_, by simp [Code.reads], htemps⟩
      simp only [Accesses.map_append, Accesses.map_ofTemp]
      rw [hranges.map_nest hs' first none
        (stmts ++ [.append (.name (tempName (ctx.temps + 1))) p.code])]
      · simp [Stmt.accessesOfAll, Library.combinePValues, Library.reads_function, Code.reads,
          Code.readsOfAll, Code.nat]
      · simp [Stmt.accessesOfAll, Stmt.accesses, Code.reads, hstatements, hverdict]
  | @letIn ctx span name value body mode v stmts verdict k hvalue hbody ih =>
      obtain ⟨hstatements, hverdict, htemps⟩ := ih (hs.push.declare name (.binder first))
        (first + 1 + value.binders.length)
      rw [Context.temps_declare, Context.temps_push] at hstatements hverdict htemps
      refine ⟨?_, hverdict, htemps⟩
      simp [Clause.trace, Stmt.accessesOfAll, Term.map_reads hs hvalue, hstatements]
  | @membershipList ctx span item collection mode i c itemTy τ hitem hitemTy hcollection hty =>
      have hi := Term.map_reads hs hitem
      have hc := Term.map_reads hs hcollection
      have hlist : (ValueType.sequence τ).isSequence = true := rfl
      refine ⟨rfl, ?_, rfl⟩
      cases hsequence : itemTy.isSequence <;>
        simp [Clause.trace, hitemTy, hty, hsequence, hlist, Code.group, Code.apply, Code.reads,
          Code.readsOfAll, hi, hc]
  | @membershipMap ctx span item collection mode i c itemTy κ τ hitem hitemTy hcollection hty =>
      have hi := Term.map_reads hs hitem
      have hc := Term.map_reads hs hcollection
      have hmap : (ValueType.map κ τ).isSequence = false := rfl
      refine ⟨rfl, ?_, rfl⟩
      cases hsequence : itemTy.isSequence <;>
        simp [Clause.trace, hitemTy, hty, hsequence, hmap, Code.getOrZero, Code.apply, Code.reads,
          Code.readsOfAll, hi, hc]
  | @approx ctx span lhs rhs mode expected hlhs hrhs =>
      have hexpected := Term.map_reads hs hrhs
      refine ⟨?_, ?_, rfl⟩
      · simp [Clause.trace, Stmt.accessesOfAll, Code.reads, ← hexpected, Function.comp_def]
      · simp [Clause.trace, Library.wilcoxonPValue, Code.reads, Code.readsOfAll,
          Library.reads_function]
  | @probability ctx span note trials body op rhs mode alternative stmts hit p k halternative hbody
      hrhs ih =>
      obtain ⟨hstatements, hverdict, htemps⟩ :=
        ih ((hs.withTemps (ctx.temps + 2)).withTrial (ctx.temps + 1)) first
      have htemps' : ((ctx.withTemps (ctx.temps + 2)).withTrial (tempName (ctx.temps + 1))).temps =
          ctx.temps + 2 := rfl
      rw [htemps'] at hstatements hverdict htemps
      have hp := Term.map_reads hs hrhs
      refine ⟨?_, ?_, htemps⟩
      · simp [Clause.trace, Trace.update, Stmt.accessesOfAll, Stmt.accesses, Code.range, Code.apply,
          Code.nat, Code.indicator, Code.reads, Code.readsOfAll, hstatements, hverdict]
      · simp [Clause.trace, Library.binomialTest, Library.reads_function, Code.reads,
          Code.readsOfAll, hp]
  | @probabilityOverItems ctx inner span note ranges body op rhs mode alternative loops stmts hit p
      k halternative hranges hbody hrhs ih =>
      have hs' := (hs.withTemps (ctx.temps + 1)).push
      obtain ⟨hstatements, hverdict, htemps⟩ := ih (hranges.matches_enter hs' first)
        (first + (Range.bindersOfAll ranges).length)
      rw [hranges.temps_eq, Context.temps_withTemps] at hstatements hverdict htemps
      have hp := Term.map_reads hs hrhs
      refine ⟨?_, ?_, htemps⟩
      · simp only [Clause.trace, Accesses.map_append, Accesses.map_ofTemp]
        rw [hranges.map_nest hs' first none (stmts ++ [_])]
        · rfl
        · simp [Trace.update, Stmt.accessesOfAll, Stmt.accesses, Code.indicator, Code.reads,
            hstatements, hverdict]
      · simp [Clause.trace, Library.binomialTest, Library.reads_function, Code.reads,
          Code.readsOfAll, hp, ← hranges.map_counts hs' first]
  | @expectation ctx span note trials body op rhs mode expected verdict hbody hrhs hverdict =>
      have hexpected := Term.map_reads hs hrhs
      refine ⟨?_, Target.reads_tTestVerdict hverdict, rfl⟩
      simp [Clause.trace, Stmt.accessesOfAll, Library.tTest, Library.reads_function, Code.reads,
        Code.readsOfAll, hexpected]
  | @expectationOverItems ctx inner span note ranges body op rhs mode loops value expected verdict
      hranges hbody hrhs hverdict =>
      have hs' := (hs.withTemps (ctx.temps + 1)).push
      have hvalue := Term.map_reads (hranges.matches_enter hs' first) hbody
      have hexpected := Term.map_reads hs hrhs
      refine ⟨?_, Target.reads_tTestVerdict hverdict, rfl⟩
      simp only [Clause.trace, Accesses.map_append, Accesses.map_ofTemp]
      rw [hranges.map_nest hs' first none [.append (.name (tempName ctx.temps)) value]]
      · simp [Stmt.accessesOfAll, Library.tTest, Library.reads_function, Code.reads,
          Code.readsOfAll, hexpected]
      · simp [Stmt.accessesOfAll, Stmt.accesses, Code.reads, hvalue]
  | @compare ctx span lhs op rhs mode a b hplain hlhs hrhs =>
      have hl := Term.map_reads hs hlhs
      have hr := Term.map_reads hs hrhs
      rw [Clause.trace_compare hplain]
      refine ⟨rfl, ?_, rfl⟩
      simp [Code.group, Code.reads, hl, hr]
  | @logic ctx span lhs op rhs mode stmts₁ a k₁ stmts₂ b k₂ hlhs hrhs ihl ihr =>
      obtain ⟨hstatements₁, hverdict₁, htemps₁⟩ := ihl hs first
      obtain ⟨hstatements₂, hverdict₂, htemps₂⟩ :=
        ihr (hs.withTemps k₁) (first + lhs.binders.length)
      -- The right side hands out its temporaries after those of the left one.
      rw [Context.temps_withTemps, ← htemps₁] at hstatements₂ hverdict₂ htemps₂
      refine ⟨?_, ?_, htemps₂⟩
      · simp [Clause.trace, hstatements₁, hstatements₂]
      · cases mode <;> cases op <;>
          simp [Clause.trace, Verdict.ofLogic, Verdict.code, Code.group, Code.apply, Code.reads,
            Code.readsOfAll, hverdict₁, hverdict₂]
  | @not ctx span inner mode stmts v k hinner ih =>
      obtain ⟨hstatements, hverdict, htemps⟩ := ih hs first
      exact ⟨hstatements, hverdict.trans (Verdict.reads_ofNot mode v).symm, htemps⟩

/-- The accesses of a lowered clause, the reads of its verdict last, in a function
with the given parameters. -/
def Clause.accesses (c : Clause) (lib : Library) (names : List String) (mode : Mode) :
    Accesses Owner :=
  let r := c.trace lib { parameters := names } 0 0 mode
  r.statements ++ .ofReads r.verdict

/-- At the start of a function, its parameters have values. -/
def Store.ofParameters (names : List String) : Store Owner :=
  fun n => if n ∈ names then some .parameter else none

/-- Whether each read in the code of a clause gets what it is meant for. -/
def Clause.isHygienic (c : Clause) (lib : Library) (names : List String) (mode : Mode) : Bool :=
  (c.accesses lib names mode).isClean &&
    Accesses.fits (names.map fun n => (n, .parameter)) (c.accesses lib names mode).exposed

theorem Accesses.startsWell_ofParameters_iff (a : Accesses Owner) (names : List String) :
    a.StartsWell (Store.ofParameters names) ↔
      fits (names.map fun n => (n, .parameter)) a.exposed = true := by
  rw [fits_eq_true_iff]
  constructor
  · intro h n o m ho hm
    obtain ⟨n', hn, hno⟩ := List.mem_map.1 ho
    cases hno
    exact h n .parameter m (if_pos hn) hm
  · intro h n o m ho hm
    by_cases hn : n ∈ names
    · obtain rfl : Owner.parameter = o := by simpa [Store.ofParameters, hn] using ho
      exact h n .parameter m (by simpa using hn) hm
    · simp [Store.ofParameters, hn] at ho

/-! ## Names that are kept apart -/

section Owned

variable {P : String → Owner → Prop}

/-- The owners of lets and ranges, counted from a number on, are possible for
their names. -/
def Owner.Labels (P : String → Owner → Prop) (first : Nat) (names : List String) : Prop :=
  ∀ i n, names[i]? = some n → P n (.binder (first + i))

theorem Owner.Labels.head {first : Nat} {name : String} {names : List String}
    (h : Owner.Labels P first (name :: names)) : P name (.binder first) := h 0 name rfl

theorem Owner.Labels.tail {first : Nat} {name : String} {names : List String}
    (h : Owner.Labels P first (name :: names)) : Owner.Labels P (first + 1) names := by
  intro i n hn
  rw [Nat.add_assoc, Nat.add_comm 1]
  exact h (i + 1) n hn

theorem Owner.Labels.left {first : Nat} {a b : List String} (h : Owner.Labels P first (a ++ b)) :
    Owner.Labels P first a := by
  intro i n hn
  obtain ⟨hi, -⟩ := List.getElem?_eq_some_iff.1 hn
  exact h i n (by rw [List.getElem?_append_left hi, hn])

theorem Owner.Labels.right {first : Nat} {a b : List String} (h : Owner.Labels P first (a ++ b)) :
    Owner.Labels P (first + a.length) b := by
  intro i n hn
  rw [Nat.add_assoc]
  refine h (a.length + i) n ?_
  rw [List.getElem?_append_right (Nat.le_add_right _ _), Nat.add_sub_cancel_left, hn]

namespace Scope

/-- Names refer to owners that are possible for them. -/
structure Owned (P : String → Owner → Prop) (s : Scope) : Prop where
  temp : ∀ k, P (tempName k) (.temp k)
  parameter : ∀ n ∈ s.parameters, P n .parameter
  bound : ∀ p ∈ s.bound, P p.1 p.2

namespace Owned

variable {s : Scope}

theorem bind (h : s.Owned P) {name : String} {o : Owner} (ho : P name o) :
    (s.bind name o).Owned P where
  temp := h.temp
  parameter := h.parameter
  bound := List.forall_mem_cons.2 ⟨ho, h.bound⟩

theorem withTrial (h : s.Owned P) (k : Nat) : Owned P { s with trial := some k } where
  temp := h.temp
  parameter := h.parameter
  bound := h.bound

theorem ofTemp (h : s.Owned P) (k : Nat) : (Use.ofTemp k).Owned P := ⟨.inr (h.temp k), nofun⟩

theorem outer (h : s.Owned P) (name : String) : (s.outer name).Owned P := by
  refine ⟨?_, nofun⟩
  by_cases hname : name ∈ s.parameters
  · exact .inr (by simpa [Scope.outer, hname] using h.parameter name hname)
  · exact .inl (by simp [Scope.outer, hname])

theorem refer (h : s.Owned P) (name : String) : (s.refer name).Owned P := by
  rw [Scope.refer]
  cases hbound : s.bound.lookup name with
  | none => exact h.outer name
  | some o =>
      obtain ⟨before, after, heq, -⟩ := List.lookup_eq_some_iff.1 hbound
      exact ⟨.inr (h.bound (name, o) (by simp [heq])), nofun⟩

theorem reads (h : s.Owned P) (name : String) : ∀ r ∈ s.reads name, r.Owned P := by
  have hrefer := h.refer name
  rw [Scope.reads]
  split
  · split
    · split <;> simp [hrefer, h.ofTemp]
    · simp [hrefer]
  · simp [h.outer]

theorem enter (h : s.Owned P) {first : Nat} {ranges : List Range}
    (hlabels : Owner.Labels P first (Range.bindersOfAll ranges)) :
    (s.enter first ranges).Owned P := by
  induction ranges generalizing s first with
  | nil => exact h
  | cons range rest ih =>
      obtain ⟨span, var, collection, mode⟩ := range
      rw [Range.bindersOfAll_cons] at hlabels
      exact ih (h.bind hlabels.head) hlabels.tail.right

end Owned

end Scope

mutual

theorem Term.reads_owned {s : Scope} (hs : s.Owned P) :
    ∀ t : Term, ∀ r ∈ t.reads s, r.Owned P
  | .constant .. | .probability .. | .probabilityOverItems .. | .expectation ..
  | .expectationOverItems .. => nofun
  | .lookup _ collection key =>
      List.forall_mem_append.2 ⟨Term.reads_owned hs collection, Term.reads_owned hs key⟩
  | .identifier _ name => hs.reads name
  | .tuple _ elements => Term.readsOfAll_owned hs elements
  | .binary _ lhs op rhs => by
      refine List.forall_mem_append.2 ⟨?_, List.forall_mem_append.2
        ⟨Term.reads_owned hs lhs, Term.reads_owned hs rhs⟩⟩
      intro r hr
      split at hr
      · obtain ⟨f, -, rfl⟩ := List.mem_map.1 hr
        exact hs.outer f
      · cases hr
  | .sizeOf _ collection =>
      List.forall_mem_cons.2 ⟨hs.outer "len", Term.reads_owned hs collection⟩
  | .call _ name args => List.forall_mem_cons.2 ⟨hs.refer name, Term.readsOfAll_owned hs args⟩

theorem Term.readsOfAll_owned {s : Scope} (hs : s.Owned P) :
    ∀ ts : List Term, ∀ r ∈ Term.readsOfAll s ts, r.Owned P
  | [] => nofun
  | t :: rest => List.forall_mem_append.2 ⟨Term.reads_owned hs t, Term.readsOfAll_owned hs rest⟩

end

namespace Scope.Owned

variable {s : Scope} {first : Nat} {ranges : List Range}

theorem sourceReads (h : s.Owned P) (mode : RangeMode) {rs : List (Use Owner)}
    (hrs : ∀ r ∈ rs, r.Owned P) : ∀ r ∈ s.sourceReads mode rs, r.Owned P := by
  cases mode <;> simpa [Scope.sourceReads, h.outer] using hrs

theorem countReads (h : s.Owned P) (mode : RangeMode) {rs : List (Use Owner)}
    (hrs : ∀ r ∈ rs, r.Owned P) : ∀ r ∈ s.countReads mode rs, r.Owned P := by
  cases mode <;> simpa [Scope.countReads, h.outer] using hrs

theorem counts (h : s.Owned P) (hlabels : Owner.Labels P first (Range.bindersOfAll ranges)) :
    ∀ r ∈ (Range.loopAccesses s first ranges).flatMap LoopAccesses.count, r.Owned P := by
  induction ranges generalizing s first with
  | nil => nofun
  | cons range rest ih =>
      obtain ⟨span, var, collection, mode⟩ := range
      rw [Range.bindersOfAll_cons] at hlabels
      exact List.forall_mem_append.2 ⟨h.countReads mode (Term.reads_owned h collection),
        ih (h.bind hlabels.head) hlabels.tail.right⟩

theorem nest (h : s.Owned P) (hlabels : Owner.Labels P first (Range.bindersOfAll ranges))
    (condition : Option Nat) {a : Accesses Owner} (ha : a.Owned P) :
    (LoopAccesses.nest condition (Range.loopAccesses s first ranges) a).Owned P := by
  induction ranges generalizing s first with
  | nil => exact ha
  | cons range rest ih =>
      obtain ⟨span, var, collection, mode⟩ := range
      rw [Range.bindersOfAll_cons] at hlabels
      have hsource := h.sourceReads mode (Term.reads_owned h collection)
      have hinner := ih (h.bind hlabels.head) hlabels.tail.right
      have hend : ∀ r ∈ condition.toList.map Use.ofTemp, r.Owned P := by
        intro r hr
        obtain ⟨k, -, rfl⟩ := List.mem_map.1 hr
        exact h.ofTemp k
      rw [Range.loopAccesses, LoopAccesses.nest, Accesses.owned_append_iff,
        Accesses.owned_ofReads_iff]
      exact ⟨hsource, ⟨hlabels.head, (Accesses.owned_append_iff _ _).2
        ⟨hinner, (Accesses.owned_ofReads_iff _).2 hend⟩⟩, trivial⟩

theorem temps (h : s.Owned P) (k : Nat) : (Accesses.ofTemp k).Owned P := ⟨h.temp k, trivial⟩

end Scope.Owned

/-- All accesses of the trace are for owners that are possible for the name. -/
structure Trace.Owned (P : String → Owner → Prop) (r : Trace) : Prop where
  statements : r.statements.Owned P
  verdict : ∀ u ∈ r.verdict, u.Owned P

theorem Trace.Owned.update {r : Trace} (h : r.Owned P) {s : Scope} (hs : s.Owned P) (k : Nat) :
    (r.update k).Owned P := by
  simp only [Trace.update, Accesses.owned_append_iff, Accesses.owned_ofReads_iff,
    List.forall_mem_cons]
  exact ⟨⟨h.statements, hs.ofTemp k, h.verdict⟩, hs.temps k⟩

/-- The accesses of the clause are for owners that are possible for the name, if its
lets and ranges are. -/
def Clause.KeepsOwned (P : String → Owner → Prop) (lib : Library) (c : Clause) : Prop :=
  ∀ ⦃s : Scope⦄ ⦃first : Nat⦄ (k : Nat) (mode : Mode), s.Owned P →
    Owner.Labels P first c.binders → (c.trace lib s first k mode).Owned P

namespace Clause.KeepsOwned

variable {lib : Library} {span : Span}

theorem forAll {ranges : List Range} {body : Clause} (hbody : body.KeepsOwned P lib) :
    (Clause.forAll span ranges body).KeepsOwned P lib := by
  intro s first k mode hs hlabels
  rw [Clause.binders_forAll] at hlabels
  have hinner := hs.enter hlabels.left
  rw [Clause.trace]
  split
  · have htrace := hbody (k + 2) .probability hinner hlabels.right
    have hround := (Accesses.owned_append_iff _ _).2 ⟨htrace.statements,
      (Accesses.owned_ofReads_iff _).2
        (List.forall_mem_cons.2 ⟨hs.ofTemp (k + 1), htrace.verdict⟩)⟩
    refine ⟨?_, by simp [hs.ofTemp]⟩
    simp only [Accesses.owned_append_iff, Accesses.owned_ofReads_iff, List.forall_mem_cons]
    exact ⟨⟨⟨hs.temps (k + 1), hs.nest hlabels.left none hround⟩,
      hs.outer lib.module, hs.ofTemp (k + 1), List.forall_mem_nil _⟩, hs.temps k⟩
  · have htrace := hbody (k + 1) .boolean hinner hlabels.right
    refine ⟨?_, by simp [hs.ofTemp]⟩
    simp [hs.temps, hs.nest hlabels.left (some k) (htrace.update hs k)]

theorem letIn {name : String} {value : Term} {body : Clause} (hbody : body.KeepsOwned P lib) :
    (Clause.letIn span name value body).KeepsOwned P lib := by
  intro s first k mode hs hlabels
  rw [Clause.binders_letIn] at hlabels
  have htrace := hbody k mode (hs.bind hlabels.head) hlabels.tail.right
  refine ⟨?_, htrace.verdict⟩
  rw [Clause.trace, Accesses.owned_append_iff, Accesses.owned_ofReads_iff]
  exact ⟨Term.reads_owned hs value, hlabels.head, htrace.statements⟩

theorem membership {item collection : Term} :
    (Clause.membership span item collection).KeepsOwned P lib := by
  intro s first k mode hs hlabels
  have hitem := Term.reads_owned hs item
  have hcollection := Term.reads_owned hs collection
  have htuple : ∀ r ∈ (if item.ty.any (·.isSequence) then [s.outer "tuple"] else []) ++
      item.reads s, r.Owned P := by
    refine List.forall_mem_append.2 ⟨?_, hitem⟩
    split <;> simp [hs.outer]
  refine ⟨trivial, ?_⟩
  rw [Clause.trace]
  split
  · exact List.forall_mem_append.2 ⟨htuple, hcollection⟩
  · exact List.forall_mem_append.2 ⟨hcollection, htuple⟩

theorem approx {lhs rhs : Term} : (Clause.approx span lhs rhs).KeepsOwned P lib := by
  intro s first k mode hs hlabels
  have hwithin : ∀ r ∈ .ofTemp (k + 1) :: rhs.reads s,
      (r.within (tempName (k + 1)) (.temp (k + 1))).Owned P := by
    intro r hr
    have hr := List.forall_mem_cons.2 ⟨hs.ofTemp (k + 1), Term.reads_owned hs rhs⟩ r hr
    refine ⟨hr.1, List.forall_mem_append.2 ⟨hr.2, ?_⟩⟩
    simpa using hs.temp (k + 1)
  refine ⟨?_, ?_⟩
  · rw [Clause.trace, Accesses.owned_append_iff, Accesses.owned_ofReads_iff]
    exact ⟨List.forall_mem_cons.2 ⟨hs.refer outputName, List.forall_mem_map.2 hwithin⟩,
      hs.temps k⟩
  · simp [Clause.trace, hs.outer, hs.ofTemp]

section Compare

variable {op : CmpOp} {rhs : Term}

theorem probability {note : Note} {trials : Trials} {body : Clause}
    (hbody : body.KeepsOwned P lib) :
    (Clause.compare span (.probability note trials body) op rhs).KeepsOwned P lib := by
  intro s first k mode hs hlabels
  rw [Clause.binders_compare, Term.binders_probability] at hlabels
  have htrace := hbody (k + 2) .boolean (hs.withTrial (k + 1)) hlabels.left
  refine ⟨?_, ?_⟩
  · simp [Clause.trace, Accesses.Owned, hs.temps, hs.outer, htrace.update hs k]
  · simpa [Clause.trace, hs.outer, hs.ofTemp] using Term.reads_owned hs rhs

theorem probabilityOverItems {note : Note} {ranges : List Range} {body : Clause}
    (hbody : body.KeepsOwned P lib) :
    (Clause.compare span (.probabilityOverItems note ranges body) op rhs).KeepsOwned P lib := by
  intro s first k mode hs hlabels
  rw [Clause.binders_compare, Term.binders_probabilityOverItems] at hlabels
  have hl := hlabels.left
  have htrace := hbody (k + 1) .boolean (hs.enter hl.left) hl.right
  refine ⟨?_, ?_⟩
  · simp [Clause.trace, hs.temps, hs.nest hl.left none (htrace.update hs k)]
  · exact List.forall_mem_cons.2 ⟨hs.outer _, List.forall_mem_cons.2 ⟨hs.ofTemp k,
      List.forall_mem_append.2 ⟨hs.counts hl.left, Term.reads_owned hs rhs⟩⟩⟩

theorem tTestReads {s : Scope} (hs : s.Owned P) (k : Nat) :
    ∀ r ∈ Clause.trace.tTestReads op k, r.Owned P := by
  rw [Clause.trace.tTestReads]
  split <;> simp [hs.ofTemp]

theorem expectation {note : Note} {trials : Trials} {body : Term} :
    (Clause.compare span (.expectation note trials body) op rhs).KeepsOwned P lib := by
  intro s first k mode hs hlabels
  refine ⟨?_, tTestReads hs k⟩
  simp only [Clause.trace, Accesses.owned_append_iff, Accesses.owned_ofReads_iff,
    List.forall_mem_cons]
  exact ⟨⟨hs.outer lib.module, hs.refer outputName, Term.reads_owned hs rhs⟩, hs.temps k⟩

theorem expectationOverItems {note : Note} {ranges : List Range} {body : Term} :
    (Clause.compare span (.expectationOverItems note ranges body) op rhs).KeepsOwned P lib := by
  intro s first k mode hs hlabels
  rw [Clause.binders_compare, Term.binders_expectationOverItems] at hlabels
  have hl := hlabels.left.left
  have hround := (Accesses.owned_ofReads_iff _).2
    (List.forall_mem_cons.2 ⟨hs.ofTemp k, Term.reads_owned (hs.enter hl) body⟩)
  refine ⟨?_, tTestReads hs (k + 1)⟩
  simp only [Clause.trace, Accesses.owned_append_iff, Accesses.owned_ofReads_iff,
    List.forall_mem_cons]
  exact ⟨⟨⟨hs.temps k, hs.nest hl none hround⟩, hs.outer lib.module, hs.ofTemp k,
    Term.reads_owned hs rhs⟩, hs.temps (k + 1)⟩

theorem comparison {lhs : Term} (hplain : lhs.isStatistic = false) :
    (Clause.compare span lhs op rhs).KeepsOwned P lib := by
  intro s first k mode hs hlabels
  rw [Clause.trace_compare hplain]
  exact ⟨trivial, List.forall_mem_append.2 ⟨Term.reads_owned hs lhs, Term.reads_owned hs rhs⟩⟩

end Compare

theorem logic {lhs rhs : Clause} {op : LogicOp} (hlhs : lhs.KeepsOwned P lib)
    (hrhs : rhs.KeepsOwned P lib) : (Clause.logic span lhs op rhs).KeepsOwned P lib := by
  intro s first k mode hs hlabels
  rw [Clause.binders_logic] at hlabels
  have hl := hlhs k mode hs hlabels.left
  have hr := hrhs (lhs.trace lib s first k mode).temps mode hs hlabels.right
  refine ⟨(Accesses.owned_append_iff _ _).2 ⟨hl.statements, hr.statements⟩, ?_⟩
  refine List.forall_mem_append.2 ⟨?_, List.forall_mem_append.2 ⟨hl.verdict, hr.verdict⟩⟩
  cases mode <;> cases op <;> simp [hs.outer]

theorem not {inner : Clause} (hinner : inner.KeepsOwned P lib) :
    (Clause.not span inner).KeepsOwned P lib := by
  intro s first k mode hs hlabels
  rw [Clause.binders_not] at hlabels
  exact hinner k mode hs hlabels

end Clause.KeepsOwned

/-- The accesses of any clause are for owners that are possible for the name. -/
theorem Clause.keepsOwned (lib : Library) : ∀ c : Clause, c.KeepsOwned P lib
  | .forAll _ _ body => .forAll (body.keepsOwned lib)
  | .letIn _ _ _ body => .letIn (body.keepsOwned lib)
  | .membership .. => .membership
  | .approx .. => .approx
  | .compare _ (.probability _ _ body) _ _ => .probability (body.keepsOwned lib)
  | .compare _ (.probabilityOverItems _ _ body) _ _ => .probabilityOverItems (body.keepsOwned lib)
  | .compare _ (.expectation ..) _ _ => .expectation
  | .compare _ (.expectationOverItems ..) _ _ => .expectationOverItems
  | .compare _ (.constant ..) _ _ | .compare _ (.lookup ..) _ _ | .compare _ (.identifier ..) _ _
  | .compare _ (.tuple ..) _ _ | .compare _ (.binary ..) _ _ | .compare _ (.sizeOf ..) _ _
  | .compare _ (.call ..) _ _ => .comparison rfl
  | .logic _ lhs _ rhs => .logic (lhs.keepsOwned lib) (rhs.keepsOwned lib)
  | .not _ inner => .not (inner.keepsOwned lib)

end Owned

/-- The owner is a let or range, a temporary or a parameter of this name. -/
def Owner.Names (o : Owner) (binders names : List String) (n : String) : Prop :=
  match o with
  | .unbound => False
  | .parameter => n ∈ names
  | .binder i => binders[i]? = some n
  | .temp k => n = tempName k

/-- All accesses of a clause are for something of that name. -/
theorem Clause.accesses_owned (c : Clause) (lib : Library) (names : List String) (mode : Mode) :
    (c.accesses lib names mode).Owned fun n o => o.Names c.binders names n := by
  have hscope : Scope.Owned (fun n o => o.Names c.binders names n) { parameters := names } :=
    ⟨fun _ => rfl, fun _ hn => hn, nofun⟩
  have hlabels : Owner.Labels (fun n o => o.Names c.binders names n) 0 c.binders := by
    intro i n hn
    rw [Nat.zero_add]
    exact hn
  have htrace := c.keepsOwned lib 0 mode hscope hlabels
  exact (Accesses.owned_append_iff _ _).2
    ⟨htrace.statements, (Accesses.owned_ofReads_iff _).2 htrace.verdict⟩

/-- If lets and ranges bind different names, which are not parameters, and neither
these nor the parameters look like temporaries, then a name tells its owner. -/
theorem Owner.Names.unique {binders names : List String} (hnodup : binders.Nodup)
    (hbound : ∀ x ∈ binders, x ∉ names ∧ ¬ IsTemp x) (hnames : ∀ x ∈ names, ¬ IsTemp x)
    {n : String} {o m : Owner} (ho : o.Names binders names n) (hm : m.Names binders names n) :
    o = m := by
  cases o with
  | unbound => cases ho
  | parameter =>
      cases m with
      | unbound => cases hm
      | parameter => rfl
      | binder j => exact absurd ho (hbound n (List.mem_of_getElem? hm)).1
      | temp k => exact absurd ⟨k, hm⟩ (hnames n ho)
  | binder i =>
      have hn := hbound n (List.mem_of_getElem? ho)
      cases m with
      | unbound => cases hm
      | parameter => exact absurd hm hn.1
      | binder j =>
          obtain ⟨hi, -⟩ := List.getElem?_eq_some_iff.1 ho
          rw [(List.getElem?_inj hi hnodup).1 (ho.trans hm.symm)]
      | temp k => exact absurd ⟨k, hm⟩ hn.2
  | temp k =>
      cases m with
      | unbound => cases hm
      | parameter => exact absurd ⟨k, ho⟩ (hnames n hm)
      | binder j => exact absurd ⟨k, ho⟩ (hbound n (List.mem_of_getElem? hm)).2
      | temp j => rw [tempName_injective (Eq.trans (Eq.symm ho) hm)]

/-- Code is hygienic if names are kept apart. -/
theorem Clause.isHygienic_of_nodup {c : Clause} {names : List String} (hnodup : c.binders.Nodup)
    (hbound : ∀ x ∈ c.binders, x ∉ names ∧ ¬ IsTemp x) (hnames : ∀ x ∈ names, ¬ IsTemp x)
    (lib : Library) (mode : Mode) : c.isHygienic lib names mode = true := by
  have hunique : ∀ n (o m : Owner), o.Names c.binders names n → m.Names c.binders names n →
      o = m := fun _ _ _ ho hm => ho.unique hnodup hbound hnames hm
  have howned := c.accesses_owned lib names mode
  rw [Clause.isHygienic, Bool.and_eq_true, Accesses.fits_eq_true_iff]
  refine ⟨howned.isClean hunique, ?_⟩
  intro n o m ho hm
  obtain ⟨n', hn, hno⟩ := List.mem_map.1 ho
  cases hno
  exact Accesses.accepts_of_unique hunique hn (howned.of_mem_exposed hm)

/-- When the generated code of a clause is hygienic. If lowering succeeds, then
`Clause.accesses` lists the accesses of the statements and of the verdict, and their
owners are lets, ranges, temporaries and parameters of the name that is accessed. On
every path, each read gets a value that was put there by the owner it is meant for,
exactly if the clause passes the check. It passes if its lets and ranges bind different
names, which are not parameters, and neither these nor the parameters look like
temporaries. -/
theorem Clause.lower_hygienic_iff (target : Target) (names : List String) {c : Clause}
    {mode : Mode} {v : Verdict} {ctx : Context}
    (hlower : (c.lower target mode).exec (Context.start names) = (.ok v, ctx)) :
    (c.accesses target.library names mode).map Owner.forget =
        Stmt.accessesOfAll ctx.block ++ .ofReads v.code.reads ∧
      (c.accesses target.library names mode).Owned (fun n o => o.Names c.binders names n) ∧
      ((∀ es, (c.accesses target.library names mode).Path es →
          Hygienic es (Store.ofParameters names)) ↔
        c.isHygienic target.library names mode = true) ∧
      (c.binders.Nodup → (∀ x ∈ c.binders, x ∉ names ∧ ¬ IsTemp x) → (∀ x ∈ names, ¬ IsTemp x) →
        c.isHygienic target.library names mode = true) := by
  obtain ⟨stmts, k, hemits, rfl⟩ := (Clause.exec_lower_eq_ok_iff target c mode v _ ctx).1 hlower
  have hlists : (c.trace target.library { parameters := names } 0 0 mode).Lists stmts v.code k :=
    hemits.lists_trace (.start names) 0
  refine ⟨?_, c.accesses_owned target.library names mode, ?_, fun hnodup hbound hnames =>
    Clause.isHygienic_of_nodup hnodup hbound hnames target.library mode⟩
  · rw [Clause.accesses, Accesses.map_append, Accesses.map_ofReads, hlists.statements,
      hlists.verdict]
    rfl
  · rw [Accesses.hygienic_iff, Accesses.startsWell_ofParameters_iff, Clause.isHygienic,
      Bool.and_eq_true]

/-- A let for each of two numbers. -/
def twoLets (first second : String) : Clause :=
  .logic .dummy (equation first "1") .and (equation second "2")
where
  equation (name number : String) : Clause :=
    .letIn .dummy name (.constant {} number)
      (.compare .dummy (.identifier {} name) .eq (.constant {} number))

theorem Clause.lower_hygienic_iff_twoLets :
    (∃ v ctx, ((twoLets "x" "y").lower {} .boolean).exec (Context.start ["Config"]) =
        (.ok v, ctx) ∧
      ∀ es, ((twoLets "x" "y").accesses {} ["Config"] .boolean).Path es →
        Hygienic es (Store.ofParameters ["Config"])) ∧
    (∃ v ctx, ((twoLets "x" "x").lower {} .boolean).exec (Context.start ["Config"]) =
        (.ok v, ctx) ∧
      ¬ ∀ es, ((twoLets "x" "x").accesses {} ["Config"] .boolean).Path es →
        Hygienic es (Store.ofParameters ["Config"])) := by
  refine ⟨⟨_, _, rfl, ?_⟩, ⟨_, _, rfl, ?_⟩⟩
  · exact (Clause.lower_hygienic_iff {} ["Config"] rfl).2.2.1.2 (by decide)
  · intro h
    have hcheck := (Clause.lower_hygienic_iff {} ["Config"] rfl).2.2.1.1 h
    revert hcheck
    decide

end StatContract
