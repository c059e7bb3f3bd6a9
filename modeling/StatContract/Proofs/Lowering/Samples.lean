import StatContract.Spec.Nodes
import StatContract.Proofs.Lowering.Emission
import Mathlib.Data.List.Forall2
import Mathlib.Data.List.Induction

/-!
# Samples of the output

A checker gets the outputs of all trials. In the body of a probability over trials only the sample
of one trial is meant, and the code takes it from the outputs by the index of the loop over the
trials.

`Clause.outputUses` lists where a clause speaks of the output, and `Stmt.outputReads` where code
reads it and by which index. The main result is `Clause.lower_indexes_output_iff`: the reads are
those of the clause in the same order, and they have the right index exactly if no use of the clause
is of the two kinds that are treated wrongly. The samples of tests are never taken by an index, even
in the body of a probability. And in such a body, the name of the output is taken by the index even
where it is the name of a let or of a range.
-/

namespace StatContract

/-! ## Reads of the code -/

/-- A read of the output by code. -/
structure OutputRead where
  /-- The loops around, each with what it runs through, innermost first. -/
  loops : List (String × Code)
  /-- The variable that says which entry is read, if it is only one. -/
  index : Option String

namespace Code

/-- The variable by which an entry of the output is taken. -/
def outputItem? : Code → Option String
  | item (name n) (name index) => if n = outputName then some index else none
  | _ => none

/-- The expression is the name of a function, or a function of a module. -/
def isCallee : Code → Bool
  | name _ => true
  | attr (name _) field => field != "get"
  | _ => false

mutual

/-- The reads of the output in an expression inside of loops. The names of functions and of modules
are not read. -/
def outputReads (loops : List (String × Code)) : Code → List OutputRead
  | verbatim _ | quoted _ => []
  | name n => if n = outputName then [⟨loops, none⟩] else []
  | paren inner =>
    match inner.outputItem? with
    | some index => [⟨loops, some index⟩]
    | none => inner.outputReads loops
  | not inner | attr inner _ | keyword _ inner => inner.outputReads loops
  | binary lhs _ rhs | item lhs rhs => lhs.outputReads loops ++ rhs.outputReads loops
  | choice yes condition no =>
    yes.outputReads loops ++ condition.outputReads loops ++ no.outputReads loops
  | call function args =>
    (if function.isCallee then [] else function.outputReads loops) ++ outputReadsOfAll loops args
  | list items => outputReadsOfAll loops items
  | dict entries => outputReadsOfEntries loops entries
  | comprehension element _ source => source.outputReads loops ++ element.outputReads loops

/-- The reads of the output in several expressions. -/
def outputReadsOfAll (loops : List (String × Code)) : List Code → List OutputRead
  | [] => []
  | c :: cs => c.outputReads loops ++ outputReadsOfAll loops cs

/-- The reads of the output in the values of a dictionary. -/
def outputReadsOfEntries (loops : List (String × Code)) : List (String × Code) → List OutputRead
  | [] => []
  | (_, c) :: rest => c.outputReads loops ++ outputReadsOfEntries loops rest

end

section

variable (loops : List (String × Code))

@[simp] theorem outputReads_verbatim (text : String) : (verbatim text).outputReads loops = [] := rfl

@[simp] theorem outputReads_nat (n : Nat) : (nat n).outputReads loops = [] := rfl

@[simp] theorem outputReads_output : (name outputName).outputReads loops = [⟨loops, none⟩] := rfl

@[simp] theorem outputReads_temp (k : Nat) : (name (tempName k)).outputReads loops = [] := by
  have hne : tempName k ≠ outputName := fun h => not_isTemp_of_head (by decide) ⟨k, h.symm⟩
  rw [outputReads, if_neg hne]

@[simp] theorem outputReads_trialCount (trials : Trials) :
    (name (Lower.trialCount trials)).outputReads loops = [] := by
  cases trials <;> rfl

@[simp] theorem outputReads_binary (lhs : Code) (op : CodeOp) (rhs : Code) :
    (binary lhs op rhs).outputReads loops = lhs.outputReads loops ++ rhs.outputReads loops := rfl

@[simp] theorem outputReads_group (lhs : Code) (op : CodeOp) (rhs : Code) :
    (group lhs op rhs).outputReads loops = lhs.outputReads loops ++ rhs.outputReads loops := rfl

@[simp] theorem outputReads_item (container key : Code) :
    (item container key).outputReads loops =
      container.outputReads loops ++ key.outputReads loops := rfl

@[simp] theorem outputReads_list (items : List Code) :
    (list items).outputReads loops = outputReadsOfAll loops items := rfl

@[simp] theorem outputReads_comprehension (element : Code) (var : String) (source : Code) :
    (comprehension element var source).outputReads loops =
      source.outputReads loops ++ element.outputReads loops := rfl

@[simp] theorem outputReads_apply (f : String) (args : List Code) :
    (apply f args).outputReads loops = outputReadsOfAll loops args := rfl

@[simp] theorem outputReads_getOrZero (container key : Code) :
    (getOrZero container key).outputReads loops =
      container.outputReads loops ++ key.outputReads loops := by
  have hcallee : (attr container "get").isCallee = false := by
    cases container <;> rfl
  simp [getOrZero, outputReads, outputReadsOfAll, hcallee]

@[simp] theorem outputReads_indicator (condition : Code) :
    (indicator condition).outputReads loops = condition.outputReads loops := by
  simp [indicator, outputReads]

@[simp] theorem outputReadsOfAll_nil : outputReadsOfAll loops [] = [] := rfl

@[simp] theorem outputReadsOfAll_cons (c : Code) (cs : List Code) :
    outputReadsOfAll loops (c :: cs) = c.outputReads loops ++ outputReadsOfAll loops cs := rfl

end

end Code

namespace Stmt

mutual

/-- The reads of the output in a statement inside of loops. A variable that is assigned is not
read. -/
def outputReads (loops : List (String × Code)) : Stmt → List OutputRead
  | assign (.name _) value => value.outputReads loops
  | assign target value | update target _ value | append target value =>
    target.outputReads loops ++ value.outputReads loops
  | eval value | ret value | breakUnless value => value.outputReads loops
  | forIn var source body =>
    source.outputReads loops ++ outputReadsOfAll ((var, source) :: loops) body
  | ifTrue condition body => condition.outputReads loops ++ outputReadsOfAll loops body
  | define _ _ body => outputReadsOfAll loops body
  | attempt body _ handler => outputReadsOfAll loops body ++ outputReadsOfAll loops handler

/-- The reads of the output in a block inside of loops. -/
def outputReadsOfAll (loops : List (String × Code)) : List Stmt → List OutputRead
  | [] => []
  | s :: rest => s.outputReads loops ++ outputReadsOfAll loops rest

end

theorem outputReadsOfAll_append (loops : List (String × Code)) (a b : List Stmt) :
    outputReadsOfAll loops (a ++ b) = outputReadsOfAll loops a ++ outputReadsOfAll loops b := by
  induction a with
  | nil => rfl
  | cons s a ih => simp only [List.cons_append, outputReadsOfAll, ih, List.append_assoc]

end Stmt

/-! ## Uses of the clause -/

/-- Where something stands in a clause. -/
structure Position where
  /-- The trials of the innermost probability around, with the number of ranges in between. -/
  trial : Option (Trials × Nat) := none
  /-- A let or a range around has the name of the output. -/
  isShadowed : Bool := false

namespace Position

/-- The position in the scope of a name. -/
def bind (p : Position) (name : String) : Position :=
  { p with isShadowed := p.isShadowed || name == outputName }

/-- The position in the loop for a range. -/
def loop (p : Position) (var : String) : Position :=
  { p.bind var with trial := p.trial.map fun t => (t.1, t.2 + 1) }

/-- The position in the body of a probability. -/
def sample (p : Position) (trials : Trials) : Position := { p with trial := some (trials, 0) }

/-- The position in the loops for ranges. -/
def enter (p : Position) : List Range → Position
  | [] => p
  | .mk _ var _ _ :: rest => (p.loop var).enter rest

end Position

/-- A use of the output by a clause. -/
structure OutputUse where
  position : Position
  /-- The output is the sample of a test, and not just named. -/
  isSample : Bool := false

/-- The node is the name of the output. -/
def Node.isOutput : Node → Bool
  | .term t => t.isIdentifier outputName
  | _ => false

/-- How often the output is named in nodes. -/
def Node.countOutput (nodes : List Node) : Nat := nodes.countP isOutput

theorem Node.countOutput_cons {n : Node} (h : n.isOutput = false) (ns : List Node) :
    countOutput (n :: ns) = countOutput ns :=
  List.countP_cons_of_neg (by simp [h])

theorem Node.countOutput_append (ms ns : List Node) :
    countOutput (ms ++ ns) = countOutput ms + countOutput ns :=
  List.countP_append

/-- The uses of the output in a term. -/
def Term.outputUses (p : Position) (t : Term) : List OutputUse :=
  List.replicate (Node.countOutput t.nodes) ⟨p, false⟩

/-- The uses of two terms at the same position are alike. -/
theorem Term.outputUses_append_comm (p : Position) (t t' : Term) :
    t.outputUses p ++ t'.outputUses p = t'.outputUses p ++ t.outputUses p := by
  simp [Term.outputUses, Nat.add_comm]

/-- The uses of the output for what the loops of ranges run through. -/
def Range.sourceUses (p : Position) : List Range → List OutputUse
  | [] => []
  | .mk _ var collection _ :: rest => collection.outputUses p ++ sourceUses (p.loop var) rest

/-- The uses of the output for how often the loops of ranges run. -/
def Range.countUses (p : Position) : List Range → List OutputUse
  | [] => []
  | .mk _ var collection _ :: rest => collection.outputUses p ++ countUses (p.bind var) rest

/-- The uses of the output by a clause. -/
structure OutputUses where
  /-- For the statements. -/
  statements : List OutputUse
  /-- For the verdict. -/
  verdict : List OutputUse

/-- All uses, those for the verdict last. -/
def OutputUses.all (uses : OutputUses) : List OutputUse := uses.statements ++ uses.verdict

/-- The uses of the output by a clause at a position. -/
def Clause.outputUses : Clause → Position → OutputUses
  | .forAll _ ranges body, p =>
    ⟨Range.sourceUses p ranges ++ (body.outputUses (p.enter ranges)).all, []⟩
  | .letIn _ name value body, p =>
    let uses := body.outputUses (p.bind name)
    { uses with statements := value.outputUses p ++ uses.statements }
  | .membership _ item collection, p => ⟨[], item.outputUses p ++ collection.outputUses p⟩
  | .approx _ _ rhs, p => ⟨⟨p, true⟩ :: rhs.outputUses p, []⟩
  | .compare _ (.probability _ trials body) _ rhs, p =>
    ⟨(body.outputUses (p.sample trials)).all, rhs.outputUses p⟩
  | .compare _ (.probabilityOverItems _ ranges body) _ rhs, p =>
    ⟨Range.sourceUses p ranges ++ (body.outputUses (p.enter ranges)).all,
      Range.countUses p ranges ++ rhs.outputUses p⟩
  | .compare _ (.expectation ..) _ rhs, p => ⟨⟨p, true⟩ :: rhs.outputUses p, []⟩
  | .compare _ (.expectationOverItems _ ranges body) _ rhs, p =>
    ⟨Range.sourceUses p ranges ++ body.outputUses (p.enter ranges) ++ rhs.outputUses p, []⟩
  | .compare _ lhs _ rhs, p => ⟨[], lhs.outputUses p ++ rhs.outputUses p⟩
  | .logic _ lhs _ rhs, p =>
    let a := lhs.outputUses p
    let b := rhs.outputUses p
    ⟨a.statements ++ b.statements, a.verdict ++ b.verdict⟩
  | .not _ inner, p => inner.outputUses p

theorem Clause.outputUses_compare {span : Span} {lhs rhs : Term} {op : CmpOp} {p : Position}
    (hplain : lhs.isStatistic = false) :
    (Clause.compare span lhs op rhs).outputUses p = ⟨[], lhs.outputUses p ++ rhs.outputUses p⟩ := by
  cases lhs <;> first | rfl | cases hplain

/-- The variable of the loop over the trials, among the loops around. -/
inductive TrialIndex (loops : List (String × Code)) :
    Option (Trials × Nat) → Option String → Prop where
  | outside : TrialIndex loops none none
  | inside {trials depth index}
      (h : loops[depth]? = some (index, .range (.name (Lower.trialCount trials)))) :
      TrialIndex loops (some (trials, depth)) (some index)

namespace OutputUse

/-- The read that the code has for a use. -/
def Written (u : OutputUse) (r : OutputRead) : Prop :=
  if u.isSample then r.index = none else TrialIndex r.loops u.position.trial r.index

/-- The read that the code should have for a use: in the body of a probability the sample of the
trial, unless the name stands for something else. -/
def Due (u : OutputUse) (r : OutputRead) : Prop :=
  if u.position.isShadowed then r.index = none else TrialIndex r.loops u.position.trial r.index

/-- In the body of a probability, what is not the sample of a test is the output. -/
def isFaithful (u : OutputUse) : Bool :=
  u.position.trial.isNone || u.isSample == u.position.isShadowed

end OutputUse

/-- The position has an index among the loops exactly if it is in the body of a probability. -/
theorem TrialIndex.eq_none_iff {loops : List (String × Code)} {trial : Option (Trials × Nat)}
    {index : Option String} (h : TrialIndex loops trial index) : index = none ↔ trial = none := by
  cases h <;> simp

/-- There is no index exactly outside of all bodies. -/
theorem TrialIndex.none_iff {loops : List (String × Code)} {trial : Option (Trials × Nat)} :
    TrialIndex loops trial none ↔ trial = none := by
  constructor
  · intro h
    exact h.eq_none_iff.1 rfl
  · rintro rfl
    exact .outside

/-- In one more loop the index is the same. -/
theorem TrialIndex.cons {loops : List (String × Code)} {trial : Option (Trials × Nat)}
    {index : Option String} (h : TrialIndex loops trial index) (loop : String × Code) :
    TrialIndex (loop :: loops) (trial.map fun t => (t.1, t.2 + 1)) index := by
  cases h with
  | outside => exact .outside
  | inside hindex => exact .inside hindex

/-- What is written for a use is what is due exactly if the use is faithful. -/
theorem OutputUse.Written.due_iff {u : OutputUse} {r : OutputRead} (h : u.Written r) :
    u.Due r ↔ u.isFaithful = true := by
  obtain ⟨⟨trial, shadowed⟩, sample⟩ := u
  simp only [Written, Due, isFaithful] at h ⊢
  cases sample <;> cases shadowed
  · simpa using h
  · simpa using TrialIndex.eq_none_iff h
  · rw [if_pos rfl] at h
    rw [h]
    simpa using TrialIndex.none_iff
  · simpa using h

/-- What is written for uses is what is due exactly if all of them are faithful. -/
theorem OutputUse.forall₂_due_iff {us : List OutputUse} {rs : List OutputRead}
    (h : List.Forall₂ Written us rs) :
    List.Forall₂ Due us rs ↔ ∀ u ∈ us, u.isFaithful = true := by
  induction h with
  | nil => simp
  | cons hhead htail ih => rw [List.forall₂_cons, List.forall_mem_cons, hhead.due_iff, ih]

/-! ## The reads are those of the clause -/

/-- The loops of ranges inside of others, innermost first. -/
def Loop.inside (around : List (String × Code)) : List Loop → List (String × Code)
  | [] => around
  | loop :: loops => inside ((loop.var, loop.source) :: around) loops

/-- The position is inside of the loops, and lowering has the index of its trial. -/
structure Position.Fits (p : Position) (loops : List (String × Code)) (ctx : Context) : Prop where
  visible : ctx.isVisible outputName = true
  trial : TrialIndex loops p.trial ctx.trial

namespace Position.Fits

variable {p : Position} {loops : List (String × Code)} {ctx : Context}

theorem withTemps (h : p.Fits loops ctx) (k : Nat) : p.Fits loops (ctx.withTemps k) :=
  ⟨h.visible, h.trial⟩

theorem push (h : p.Fits loops ctx) : p.Fits loops ctx.push :=
  ⟨by rw [Context.isVisible_push, h.visible], h.trial⟩

theorem bind (h : p.Fits loops ctx) (name : String) :
    (p.bind name).Fits loops (ctx.declare name) where
  visible := (Context.isVisible_declare_iff _ _ _).2 (.inr h.visible)
  trial := by
    rw [Context.trial_declare]
    exact h.trial

theorem loop (h : p.Fits loops ctx) (var : String) (source : Code) :
    (p.loop var).Fits ((var, source) :: loops) (ctx.declare var) where
  visible := (h.bind var).visible
  trial := by
    rw [Context.trial_declare]
    exact h.trial.cons (var, source)

theorem sample (h : p.Fits loops ctx) (trials : Trials) (index : String) :
    (p.sample trials).Fits ((index, .range (.name (Lower.trialCount trials))) :: loops)
      (ctx.withTrial index) :=
  ⟨h.visible, .inside rfl⟩

end Position.Fits

/-- The name of the output is read as the trial says, and no other name reads the output. -/
theorem Context.outputReads_resolve {ctx : Context} (hvisible : ctx.isVisible outputName = true)
    (loops : List (String × Code)) (name : String) :
    (ctx.resolve name).code.outputReads loops =
      if name = outputName then [⟨loops, ctx.trial⟩] else [] := by
  by_cases hname : name = outputName
  · rw [hname, resolve, hvisible]
    cases ctx.trial <;> rfl
  · have hcode : (ctx.resolve name).code = .name name ∨
        (ctx.resolve name).code = .entry (.name "Config") name := by
      rw [resolve]
      split
      · split <;> simp [Reference.code]
      · exact .inr rfl
    rw [if_neg hname]
    rcases hcode with hcode | hcode
    · rw [hcode, Code.outputReads, if_neg hname]
    · rw [hcode]
      rfl

mutual

/-- A term reads the output as often as it names it, each time in the same way. -/
theorem Term.outputReads_of_lower {ctx : Context} (hvisible : ctx.isVisible outputName = true)
    (loops : List (String × Code)) : ∀ {t : Term} {c : Code}, t.lower ctx = .ok c →
      c.outputReads loops = List.replicate (Node.countOutput t.nodes) ⟨loops, ctx.trial⟩
  | .constant .., _, h => by
      cases h
      rfl
  | .probability .., _, h | .probabilityOverItems .., _, h | .expectation .., _, h
  | .expectationOverItems .., _, h => nomatch h
  | .lookup note collection key, _, h => by
      rw [Term.lower] at h
      obtain ⟨c, hc, h⟩ := except_bind_eq_ok_iff.1 h
      obtain ⟨k, hk, h⟩ := except_bind_eq_ok_iff.1 h
      obtain ⟨ty, hty, h⟩ := except_bind_eq_ok_iff.1 h
      have hcollection := Term.outputReads_of_lower hvisible loops hc
      have hkey := Term.outputReads_of_lower hvisible loops hk
      rw [Term.nodes, Node.countOutput_cons rfl, Node.countOutput_append]
      cases ty with
      | scalar | matrix => cases h
      | sequence | map =>
          cases h
          simp [hcollection, hkey]
  | .identifier _ name, _, h => by
      cases h
      rw [Context.outputReads_resolve hvisible]
      by_cases hname : name = outputName <;>
        simp [hname, Term.nodes, Node.countOutput, Node.isOutput, Term.isIdentifier,
          Term.asIdentifier]
  | .tuple note elements, _, h => by
      rw [Term.lower] at h
      obtain ⟨items, hitems, h⟩ := except_bind_eq_ok_iff.1 h
      cases h
      rw [Term.nodes, Node.countOutput_cons rfl, Code.outputReads_list,
        Term.outputReadsOfAll_of_lower hvisible loops hitems]
  | .binary note lhs op rhs, _, h => by
      obtain ⟨a, b, ha, hb, hcode⟩ := Term.exists_of_lower_binary h
      have hlhs := Term.outputReads_of_lower hvisible loops ha
      have hrhs := Term.outputReads_of_lower hvisible loops hb
      rw [Term.nodes, Node.countOutput_cons rfl, Node.countOutput_append]
      rcases hcode with rfl | ⟨f, rfl⟩ <;> simp [hlhs, hrhs]
  | .sizeOf note collection, _, h => by
      rw [Term.lower] at h
      obtain ⟨c, hc, h⟩ := except_bind_eq_ok_iff.1 h
      cases h
      rw [Term.nodes, Node.countOutput_cons rfl]
      simp [Code.len, Term.outputReads_of_lower hvisible loops hc]
  | .call note name args, _, h => by
      rw [Term.lower] at h
      obtain ⟨cs, hargs, h⟩ := except_bind_eq_ok_iff.1 h
      cases h
      rw [Term.nodes, Node.countOutput_cons rfl, Code.outputReads_apply,
        Term.outputReadsOfAll_of_lower hvisible loops hargs]

theorem Term.outputReadsOfAll_of_lower {ctx : Context}
    (hvisible : ctx.isVisible outputName = true) (loops : List (String × Code)) :
    ∀ {ts : List Term} {cs : List Code}, Term.lowerList ctx ts = .ok cs →
      Code.outputReadsOfAll loops cs =
        List.replicate (Node.countOutput (Term.nodesOfAll ts)) ⟨loops, ctx.trial⟩
  | [], _, h => by
      cases h
      rfl
  | t :: rest, _, h => by
      rw [Term.lowerList] at h
      obtain ⟨c, hc, h⟩ := except_bind_eq_ok_iff.1 h
      obtain ⟨cs, hcs, h⟩ := except_bind_eq_ok_iff.1 h
      cases h
      rw [Code.outputReadsOfAll, Term.outputReads_of_lower hvisible loops hc,
        Term.outputReadsOfAll_of_lower hvisible loops hcs, Term.nodesOfAll,
        Node.countOutput_append, List.replicate_append_replicate]

end

/-- The reads of the output in a term are written for its uses. -/
theorem Position.Fits.term {p : Position} {loops : List (String × Code)} {ctx : Context}
    (h : p.Fits loops ctx) {t : Term} {c : Code} (hc : t.lower ctx = .ok c) :
    List.Forall₂ OutputUse.Written (t.outputUses p) (c.outputReads loops) := by
  rw [Term.outputUses, Term.outputReads_of_lower h.visible loops hc]
  induction Node.countOutput t.nodes with
  | zero => exact .nil
  | succ n ih => exact .cons h.trial ih

namespace Loop

variable (around : List (String × Code))

@[simp] theorem outputReads_sourceOf (mode : RangeMode) (c : Code) :
    (sourceOf mode c).outputReads around = c.outputReads around := by
  cases mode <;> simp [sourceOf, Code.range, Code.len]

@[simp] theorem outputReads_count (loop : Loop) :
    loop.count.outputReads around = loop.collection.outputReads around := by
  cases hmode : loop.mode <;> simp [count, hmode, Code.len]

theorem outputReads_countAll (loops : List Loop) :
    (countAll loops).outputReads around =
      loops.flatMap fun loop => loop.collection.outputReads around := by
  induction loops using List.reverseRecOn with
  | nil => rfl
  | append_singleton loops loop ih =>
      rw [countAll_concat, Code.outputReads_binary, ih, outputReads_count, List.flatMap_append,
        List.flatMap_singleton]

end Loop

namespace Range.Opens

variable {ctx inner : Context} {ranges : List Range} {loops : List Loop} {p : Position}
  {around : List (String × Code)}

theorem fits_enter (h : Range.Opens ctx ranges loops inner) (hp : p.Fits around ctx) :
    (p.enter ranges).Fits (Loop.inside around loops) inner := by
  induction h generalizing p around with
  | nil => exact hp
  | cons hcollection hrest ih => exact ih (hp.loop _ _)

/-- The reads for how often the loops run are written for the ranges. -/
theorem counts_written (h : Range.Opens ctx ranges loops inner) (hp : p.Fits around ctx) :
    List.Forall₂ OutputUse.Written (Range.countUses p ranges)
      ((Loop.countAll loops).outputReads around) := by
  rw [Loop.outputReads_countAll]
  induction h generalizing p with
  | nil => exact .nil
  | cons hcollection hrest ih =>
      exact List.rel_append (hp.term hcollection) (ih (hp.bind _))

/-- The reads of nested loops are written for the ranges and for what is inside. -/
theorem nest_written (h : Range.Opens ctx ranges loops inner) (hp : p.Fits around ctx)
    (condition : Option Nat) {stmts : List Stmt} {uses : List OutputUse}
    (huses : List.Forall₂ OutputUse.Written uses
      (Stmt.outputReadsOfAll (Loop.inside around loops) stmts)) :
    List.Forall₂ OutputUse.Written (Range.sourceUses p ranges ++ uses)
      (Stmt.outputReadsOfAll around (Loop.nest (condition.map tempName) loops stmts)) := by
  induction h generalizing p around with
  | nil => exact huses
  | @cons ctx inner span var collection mode rest c loops hcollection hrest ih =>
      have hsource : List.Forall₂ OutputUse.Written (collection.outputUses p)
          ((Loop.sourceOf mode c).outputReads around) := by
        rw [Loop.outputReads_sourceOf]
        exact hp.term hcollection
      have hend : ∀ loops : List (String × Code), Stmt.outputReadsOfAll loops
          ((condition.map tempName).toList.map fun name => .breakUnless (.name name)) = [] := by
        intro loops
        cases condition <;> simp [Stmt.outputReadsOfAll, Stmt.outputReads]
      rw [Range.sourceUses, Loop.nest, Stmt.outputReadsOfAll, Stmt.outputReadsOfAll,
        Stmt.outputReads, Stmt.outputReadsOfAll_append, hend, List.append_nil, List.append_nil,
        List.append_assoc]
      exact List.rel_append hsource (ih (hp.loop var _) huses)

end Range.Opens

section

variable (loops : List (String × Code))

@[simp] theorem Stmt.outputReads_set (name : String) (value : Code) :
    (Stmt.set name value).outputReads loops = value.outputReads loops := rfl

@[simp] theorem Verdict.outputReads_ofCondition (mode : Mode) (c : Code) :
    (Verdict.ofCondition mode c).code.outputReads loops = c.outputReads loops := by
  cases mode with
  | boolean => rfl
  | probability => exact Code.outputReads_indicator loops c

@[simp] theorem Target.outputReads_ofPValue (target : Target) (mode : Mode) (c : Code) :
    (target.ofPValue mode c).code.outputReads loops = c.outputReads loops := by
  cases mode with
  | boolean => exact List.append_nil _
  | probability => rfl

@[simp] theorem Verdict.outputReads_ofLogic (mode : Mode) (op : LogicOp) (a b : Verdict) :
    (Verdict.ofLogic mode op a b).code.outputReads loops =
      a.code.outputReads loops ++ b.code.outputReads loops := by
  cases mode <;> cases op <;> simp [ofLogic, Verdict.code]

@[simp] theorem Verdict.outputReads_ofNot (mode : Mode) (v : Verdict) :
    (Verdict.ofNot mode v).code.outputReads loops = v.code.outputReads loops := by
  cases mode <;> rfl

@[simp] theorem Library.outputReads_binomialTest (lib : Library) (count trials probability : Code)
    (alternative : String) :
    (lib.binomialTest count trials probability alternative).outputReads loops =
      count.outputReads loops ++ (trials.outputReads loops ++ probability.outputReads loops) := by
  simp [binomialTest, function, Code.outputReads, Code.isCallee]

@[simp] theorem Library.outputReads_tTest (lib : Library) (samples expected : Code) :
    (lib.tTest samples expected).outputReads loops =
      samples.outputReads loops ++ expected.outputReads loops := by
  simp [tTest, function, Code.outputReads, Code.isCallee]

@[simp] theorem Library.outputReads_wilcoxonPValue (lib : Library) (differences : Code) :
    (lib.wilcoxonPValue differences).outputReads loops = differences.outputReads loops := by
  simp [wilcoxonPValue, function, Code.outputReads, Code.isCallee]

@[simp] theorem Library.outputReads_combinePValues (lib : Library) (pvalues : Code) :
    (lib.combinePValues pvalues).outputReads loops = pvalues.outputReads loops := by
  simp [combinePValues, function, Code.nat, Code.outputReads, Code.isCallee]

theorem Target.outputReads_tTestVerdict {target : Target} {k : Nat} {op : CmpOp} {mode : Mode}
    {v : Verdict} (h : target.tTestVerdict? (tempName k) op mode = some v) :
    v.code.outputReads loops = [] := by
  cases mode <;> cases op <;> cases h <;> rfl

end

/-- The uses of a clause, with the reads of its statements and of its verdict. -/
structure OutputUses.Written (uses : OutputUses) (loops : List (String × Code))
    (stmts : List Stmt) (verdict : Code) : Prop where
  statements : List.Forall₂ OutputUse.Written uses.statements (Stmt.outputReadsOfAll loops stmts)
  verdict : List.Forall₂ OutputUse.Written uses.verdict (verdict.outputReads loops)

/-- A last statement that reads what the verdict reads completes the uses. -/
theorem OutputUses.Written.all {uses : OutputUses} {loops : List (String × Code)}
    {stmts : List Stmt} {verdict : Code} (h : uses.Written loops stmts verdict) {last : Stmt}
    (hlast : last.outputReads loops = verdict.outputReads loops) :
    List.Forall₂ OutputUse.Written uses.all (Stmt.outputReadsOfAll loops (stmts ++ [last])) := by
  rw [OutputUses.all, Stmt.outputReadsOfAll_append, Stmt.outputReadsOfAll, Stmt.outputReadsOfAll,
    hlast, List.append_nil]
  exact List.rel_append h.statements h.verdict

/-- What lowering emits for a clause reads the output for the uses of the clause. -/
theorem Clause.Emits.outputUses_written {target : Target} {ctx : Context} {c : Clause}
    {mode : Mode} {stmts : List Stmt} {v : Verdict} {k : Nat}
    (h : c.Emits target ctx mode stmts v k) {p : Position} {around : List (String × Code)}
    (hp : p.Fits around ctx) : (c.outputUses p).Written around stmts v.code := by
  induction h generalizing p around with
  | @forAll ctx inner span ranges body mode loops stmts holds k hdomain hranges hbody ih =>
      have hp' := (hp.withTemps (ctx.temps + 1)).push
      refine ⟨hranges.nest_written hp' (some ctx.temps) ((ih (hranges.fits_enter hp')).all ?_), ?_⟩
      · simp
      · simp [Clause.outputUses]
  | @forAllTests ctx inner span ranges body mode loops stmts q k hdomain hranges hbody ih =>
      have hp' := (hp.withTemps (ctx.temps + 2)).push
      -- The last statement in the loops reads what the verdict of the body reads.
      have hlast : (Stmt.append (.name (tempName (ctx.temps + 1))) q.code).outputReads
          (Loop.inside around loops) = q.code.outputReads (Loop.inside around loops) := by
        simp [Stmt.outputReads]
      have hnest := hranges.nest_written hp' none ((ih (hranges.fits_enter hp')).all hlast)
      refine ⟨?_, ?_⟩
      · simpa [Clause.outputUses, Stmt.outputReadsOfAll, Stmt.outputReadsOfAll_append] using hnest
      · simp [Clause.outputUses]
  | @letIn ctx span name value body mode v stmts verdict k hvalue hbody ih =>
      obtain ⟨hstatements, hverdict⟩ := ih (hp.push.bind name)
      exact ⟨List.rel_append (hp.term hvalue) hstatements, hverdict⟩
  | @membershipList ctx span item collection mode i c itemTy τ hitem hitemTy hcollection hty =>
      refine ⟨.nil, ?_⟩
      have huses := List.rel_append (hp.term hitem) (hp.term hcollection)
      cases hsequence : itemTy.isSequence <;>
        simpa [Clause.outputUses, hsequence] using huses
  | @membershipMap ctx span item collection mode i c itemTy κ τ hitem hitemTy hcollection hty =>
      refine ⟨.nil, ?_⟩
      -- The code of a search in a map has the collection before the item.
      have huses := List.rel_append (hp.term hcollection) (hp.term hitem)
      rw [Clause.outputUses, Term.outputUses_append_comm]
      cases hsequence : itemTy.isSequence <;> simpa [hsequence] using huses
  | @approx ctx span lhs rhs mode expected hlhs hrhs =>
      refine ⟨?_, ?_⟩
      · simpa [Clause.outputUses, Stmt.outputReadsOfAll, OutputUse.Written] using hp.term hrhs
      · simp [Clause.outputUses]
  | @probability ctx span note trials body op rhs mode alternative stmts hit q k halternative hbody
      hrhs ih =>
      have hp' := (hp.withTemps (ctx.temps + 2)).sample trials (tempName (ctx.temps + 1))
      have hlast : ∀ loops, (Stmt.update (.name (tempName ctx.temps)) .add
          (.indicator hit.code)).outputReads loops = hit.code.outputReads loops := by
        simp [Stmt.outputReads]
      refine ⟨?_, ?_⟩
      · simpa [Clause.outputUses, Stmt.outputReadsOfAll, Stmt.outputReads, Code.range] using
          (ih hp').all (hlast _)
      · simpa [Clause.outputUses] using hp.term hrhs
  | @probabilityOverItems ctx inner span note ranges body op rhs mode alternative loops stmts hit q
      k halternative hranges hbody hrhs ih =>
      have hp' := (hp.withTemps (ctx.temps + 1)).push
      refine ⟨hranges.nest_written hp' none ((ih (hranges.fits_enter hp')).all ?_), ?_⟩
      · simp [Stmt.outputReads]
      · simpa [Clause.outputUses] using List.rel_append (hranges.counts_written hp') (hp.term hrhs)
  | @expectation ctx span note trials body op rhs mode expected verdict hbody hrhs hverdict =>
      refine ⟨?_, ?_⟩
      · simpa [Clause.outputUses, Stmt.outputReadsOfAll, OutputUse.Written] using hp.term hrhs
      · simp [Clause.outputUses, Target.outputReads_tTestVerdict _ hverdict]
  | @expectationOverItems ctx inner span note ranges body op rhs mode loops value expected verdict
      hranges hbody hrhs hverdict =>
      have hp' := (hp.withTemps (ctx.temps + 1)).push
      have hvalue : List.Forall₂ OutputUse.Written (body.outputUses (p.enter ranges))
          (Stmt.outputReadsOfAll (Loop.inside around loops)
            [.append (.name (tempName ctx.temps)) value]) := by
        simpa [Stmt.outputReadsOfAll, Stmt.outputReads] using
          (hranges.fits_enter hp').term hbody
      have hnest := List.rel_append (hranges.nest_written hp' none hvalue) (hp.term hrhs)
      refine ⟨?_, ?_⟩
      · simpa [Clause.outputUses, Stmt.outputReadsOfAll, Stmt.outputReadsOfAll_append] using hnest
      · simp [Clause.outputUses, Target.outputReads_tTestVerdict _ hverdict]
  | @compare ctx span lhs op rhs mode a b hplain hlhs hrhs =>
      rw [Clause.outputUses_compare hplain]
      refine ⟨.nil, ?_⟩
      simpa using List.rel_append (hp.term hlhs) (hp.term hrhs)
  | @logic ctx span lhs op rhs mode stmts₁ a k₁ stmts₂ b k₂ hlhs hrhs ihl ihr =>
      obtain ⟨hstatements₁, hverdict₁⟩ := ihl hp
      obtain ⟨hstatements₂, hverdict₂⟩ := ihr (hp.withTemps k₁)
      refine ⟨?_, ?_⟩
      · rw [Stmt.outputReadsOfAll_append]
        exact List.rel_append hstatements₁ hstatements₂
      · rw [Verdict.outputReads_ofLogic]
        exact List.rel_append hverdict₁ hverdict₂
  | @not ctx span inner mode stmts v k hinner ih =>
      obtain ⟨hstatements, hverdict⟩ := ih hp
      refine ⟨hstatements, ?_⟩
      rw [Verdict.outputReads_ofNot]
      exact hverdict

/-- Where the output is taken by the index of a trial. If lowering succeeds where the output is
visible, then the code reads the output for the uses of the clause, in the same order: names in the
body of a probability by the index of the innermost loop over trials, other names and all samples of
tests as a whole. The reads are as they should be exactly if the uses are faithful, that is, if in
the body of a probability every sample of a test is shadowed and every name is not. -/
theorem Clause.lower_indexes_output_iff {target : Target} {c : Clause} {mode : Mode} {v : Verdict}
    {ctx ctx' : Context} (hlower : (c.lower target mode).exec ctx = (.ok v, ctx'))
    (hvisible : ctx.isVisible outputName = true) (htrial : ctx.trial = none) :
    ∃ stmts, ctx'.block = ctx.block ++ stmts ∧
      List.Forall₂ OutputUse.Written (c.outputUses {}).all
        (Stmt.outputReadsOfAll [] stmts ++ v.code.outputReads []) ∧
      (List.Forall₂ OutputUse.Due (c.outputUses {}).all
          (Stmt.outputReadsOfAll [] stmts ++ v.code.outputReads []) ↔
        ∀ u ∈ (c.outputUses {}).all, u.isFaithful = true) := by
  obtain ⟨stmts, k, hemits, rfl⟩ := (Clause.exec_lower_eq_ok_iff target c mode v ctx ctx').1 hlower
  have hfits : Position.Fits {} [] ctx.bare :=
    ⟨hvisible, by rw [Context.bare, htrial]; exact .outside⟩
  obtain ⟨hstatements, hverdict⟩ := hemits.outputUses_written hfits
  have hwritten := List.rel_append hstatements hverdict
  exact ⟨stmts, rfl, hwritten, OutputUse.forall₂_due_iff hwritten⟩

/-- A clause holds in a share of the runs. -/
def shareOfRuns (body : Clause) : Clause :=
  .compare .dummy (.probability {} .runs body) .ge (.constant {} "0.9")

/-- The output is positive in a share of the runs. -/
def positiveInRuns : Clause :=
  shareOfRuns (.compare .dummy (.identifier {} "Output") .gt (.constant {} "0"))

/-- The output is about five in a share of the runs. -/
def aboutFiveInRuns : Clause :=
  shareOfRuns (.approx .dummy (.identifier {} "Output") (.constant {} "5"))

/-- A number with the name of the output is positive in a share of the runs. -/
def namesakeInRuns : Clause :=
  shareOfRuns (.letIn .dummy "Output" (.constant {} "1")
    (.compare .dummy (.identifier {} "Output") .gt (.constant {} "0")))

/-- That the output is positive is asked of the sample of each run. That it is about five is asked
of all samples each time, and of a number with its name an entry is taken. -/
theorem Clause.lower_indexes_output_positiveInRuns :
    (∃ v ctx stmts,
      (positiveInRuns.lower {} .boolean).exec (Context.start ["Output", "Runs"]) = (.ok v, ctx) ∧
      ctx.block = stmts ∧ List.Forall₂ OutputUse.Due (positiveInRuns.outputUses {}).all
        (Stmt.outputReadsOfAll [] stmts ++ v.code.outputReads [])) ∧
    (∃ v ctx stmts,
      (aboutFiveInRuns.lower {} .boolean).exec (Context.start ["Output", "Runs"]) = (.ok v, ctx) ∧
      ctx.block = stmts ∧ ¬ List.Forall₂ OutputUse.Due (aboutFiveInRuns.outputUses {}).all
        (Stmt.outputReadsOfAll [] stmts ++ v.code.outputReads [])) ∧
    ∃ v ctx stmts,
      (namesakeInRuns.lower {} .boolean).exec (Context.start ["Output", "Runs"]) = (.ok v, ctx) ∧
      ctx.block = stmts ∧ ¬ List.Forall₂ OutputUse.Due (namesakeInRuns.outputUses {}).all
        (Stmt.outputReadsOfAll [] stmts ++ v.code.outputReads []) := by
  have hvisible : (Context.start ["Output", "Runs"]).isVisible outputName = true := by decide
  refine ⟨?_, ?_, ?_⟩
  · obtain ⟨stmts, hblock, -, hdue⟩ :=
      Clause.lower_indexes_output_iff (c := positiveInRuns) rfl hvisible rfl
    exact ⟨_, _, stmts, rfl, hblock, hdue.2 (by decide)⟩
  · obtain ⟨stmts, hblock, -, hdue⟩ :=
      Clause.lower_indexes_output_iff (c := aboutFiveInRuns) rfl hvisible rfl
    exact ⟨_, _, stmts, rfl, hblock, mt hdue.1 (by decide)⟩
  · obtain ⟨stmts, hblock, -, hdue⟩ :=
      Clause.lower_indexes_output_iff (c := namesakeInRuns) rfl hvisible rfl
    exact ⟨_, _, stmts, rfl, hblock, mt hdue.1 (by decide)⟩

end StatContract
