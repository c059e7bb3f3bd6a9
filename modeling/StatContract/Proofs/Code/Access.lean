import StatContract.Proofs.Code.Execution

/-!
# Accesses to variables

Which variables a piece of code reads and assigns, in which order, and how the
accesses are repeated by loops. An access carries a tag. The code itself has
none; with an `Owner` as the tag, an access tells on whose behalf a variable is
assigned, or whose value is meant to be read.

A path is one way through the loops. On a path it is known who has assigned each
variable last, so each read can be compared with what it is meant to read.
`Accesses.isClean` makes this comparison for all paths at once, from the owners
that may be the last to assign a variable and the reads that may come before any
assignment. The main result, `Accesses.hygienic_iff`, is that the comparison is
exact.
-/

namespace StatContract

/-- A read of a variable. The variables of comprehensions around it come first,
innermost first, and hide variables of the function. -/
structure Use (α : Type) where
  name : String
  tag : α
  locals : List (String × α) := []
  deriving DecidableEq, Repr

namespace Use

variable {α β : Type}

/-- The read inside a comprehension. -/
def within (var : String) (tag : α) (r : Use α) : Use α :=
  { r with locals := r.locals ++ [(var, tag)] }

/-- The read with other tags. -/
def map (f : α → β) (r : Use α) : Use β :=
  ⟨r.name, f r.tag, r.locals.map fun p => (p.1, f p.2)⟩

@[simp] theorem map_within (f : α → β) (var : String) (tag : α) (r : Use α) :
    (r.within var tag).map f = (r.map f).within var (f tag) := by
  simp [within, map]

end Use

/-- The accesses of a piece of code in order. A loop runs its body any number of
times. -/
inductive Accesses (α : Type) where
  | done
  | read (r : Use α) (rest : Accesses α)
  | write (name : String) (tag : α) (rest : Accesses α)
  | loop (body rest : Accesses α)
  deriving DecidableEq, Repr

namespace Accesses

variable {α β : Type}

/-- One piece of code after another. -/
protected def append : Accesses α → Accesses α → Accesses α
  | done, b => b
  | read r rest, b => read r (rest.append b)
  | write name tag rest, b => write name tag (rest.append b)
  | loop body rest, b => loop body (rest.append b)

instance : Append (Accesses α) := ⟨Accesses.append⟩

/-- Reads in order. -/
def ofReads : List (Use α) → Accesses α
  | [] => done
  | r :: rs => read r (ofReads rs)

/-- The accesses with other tags. -/
def map (f : α → β) : Accesses α → Accesses β
  | done => done
  | read r rest => read (r.map f) (rest.map f)
  | write name tag rest => write name (f tag) (rest.map f)
  | loop body rest => loop (body.map f) (rest.map f)

@[simp] theorem done_append (b : Accesses α) : done ++ b = b := rfl

@[simp] theorem read_append (r : Use α) (a b : Accesses α) :
    read r a ++ b = read r (a ++ b) := rfl

@[simp] theorem write_append (name : String) (tag : α) (a b : Accesses α) :
    write name tag a ++ b = write name tag (a ++ b) := rfl

@[simp] theorem loop_append (body a b : Accesses α) :
    loop body a ++ b = loop body (a ++ b) := rfl

@[simp] theorem append_done (a : Accesses α) : a ++ done = a := by
  induction a with
  | done => rfl
  | read r rest ih => rw [read_append, ih]
  | write name tag rest ih => rw [write_append, ih]
  | loop body rest _ ih => rw [loop_append, ih]

@[simp] theorem append_assoc (a b c : Accesses α) : a ++ b ++ c = a ++ (b ++ c) := by
  induction a with
  | done => rfl
  | read r rest ih => simp only [read_append, ih]
  | write name tag rest ih => simp only [write_append, ih]
  | loop body rest _ ih => simp only [loop_append, ih]

@[simp] theorem ofReads_nil : ofReads ([] : List (Use α)) = done := rfl

@[simp] theorem ofReads_cons (r : Use α) (rs : List (Use α)) :
    ofReads (r :: rs) = read r (ofReads rs) := rfl

@[simp] theorem map_done (f : α → β) : (done : Accesses α).map f = done := rfl

@[simp] theorem map_read (f : α → β) (r : Use α) (rest : Accesses α) :
    (read r rest).map f = read (r.map f) (rest.map f) := rfl

@[simp] theorem map_write (f : α → β) (name : String) (tag : α) (rest : Accesses α) :
    (write name tag rest).map f = write name (f tag) (rest.map f) := rfl

@[simp] theorem map_loop (f : α → β) (body rest : Accesses α) :
    (loop body rest).map f = loop (body.map f) (rest.map f) := rfl

@[simp] theorem map_append (f : α → β) (a b : Accesses α) :
    (a ++ b).map f = a.map f ++ b.map f := by
  induction a with
  | done => rfl
  | read r rest ih => simp only [read_append, map_read, ih]
  | write name tag rest ih => simp only [write_append, map_write, ih]
  | loop body rest _ ih => simp only [loop_append, map_loop, ih]

@[simp] theorem map_ofReads (f : α → β) (rs : List (Use α)) :
    (ofReads rs).map f = ofReads (rs.map (Use.map f)) := by
  induction rs with
  | nil => rfl
  | cons r rs ih => rw [ofReads, map_read, ih]; rfl

end Accesses

namespace Code

mutual

/-- The variables that an expression reads. Text that is taken over as it is
reads none. -/
def reads : Code → List (Use Unit)
  | verbatim _ | quoted _ => []
  | name n => [⟨n, (), []⟩]
  | paren inner | not inner | attr inner _ | keyword _ inner => inner.reads
  | binary lhs _ rhs | item lhs rhs => lhs.reads ++ rhs.reads
  | choice yes condition no => yes.reads ++ condition.reads ++ no.reads
  | call function args => function.reads ++ readsOfAll args
  | list items => readsOfAll items
  | dict entries => readsOfEntries entries
  | comprehension element var source =>
    source.reads ++ element.reads.map (Use.within var ())

/-- The variables that several expressions read. -/
def readsOfAll : List Code → List (Use Unit)
  | [] => []
  | c :: cs => c.reads ++ readsOfAll cs

/-- The variables that the values of a dictionary read. -/
def readsOfEntries : List (String × Code) → List (Use Unit)
  | [] => []
  | (_, c) :: rest => c.reads ++ readsOfEntries rest

end

end Code

namespace Stmt

mutual

/-- The accesses of a statement. As in `Stmt.run`, only the statements that
lowering a clause can write have any. Loops are left at the end of their body
only, which is no different from coming to their end. -/
def accesses : Stmt → Accesses Unit
  | assign (.name n) value => .ofReads value.reads ++ .write n () .done
  | update (.name n) _ value => .ofReads (⟨n, (), []⟩ :: value.reads) ++ .write n () .done
  | append list value => .ofReads (list.reads ++ value.reads)
  | forIn var source body => .ofReads source.reads ++ .loop (.write var () (accessesOfAll body)) .done
  | breakUnless condition => .ofReads condition.reads
  | _ => .done

/-- The accesses of the statements of a block. -/
def accessesOfAll : List Stmt → Accesses Unit
  | [] => .done
  | s :: rest => s.accesses ++ accessesOfAll rest

end

@[simp] theorem accessesOfAll_append (a b : List Stmt) :
    accessesOfAll (a ++ b) = accessesOfAll a ++ accessesOfAll b := by
  induction a with
  | nil => rfl
  | cons s a ih => simp only [List.cons_append, accessesOfAll, ih, Accesses.append_assoc]

end Stmt

/-- Where the value of a variable comes from. -/
inductive Owner where
  /-- From outside of the function: a module or a built-in function. -/
  | unbound
  /-- From a parameter of the function. -/
  | parameter
  /-- From a let or a range, by its place among all of them. -/
  | binder (i : Nat)
  /-- From a temporary, by its number. -/
  | temp (k : Nat)
  deriving DecidableEq, Repr

/-- Whether a read for a certain owner is right to get a value of an owner.
Nothing is asked about what comes from outside. -/
def Owner.accepts (meant actual : Owner) : Bool := meant == .unbound || actual == meant

/-- The owner of the value that a read gets. -/
def Use.actual? (r : Use Owner) (σ : Store Owner) : Option Owner :=
  (r.locals.lookup r.name).or (σ r.name)

/-- One access. -/
inductive Event (α : Type) where
  | read (r : Use α)
  | write (name : String) (tag : α)

/-- The owners of the values of the variables after some accesses. -/
def Event.runAll : List (Event Owner) → Store Owner → Store Owner
  | [], σ => σ
  | .read _ :: es, σ => runAll es σ
  | .write name o :: es, σ => runAll es (σ.set name o)

/-- Each read gets a value of the owner that it is meant for, if the variable
has a value at all. -/
def Hygienic : List (Event Owner) → Store Owner → Prop
  | [], _ => True
  | .read r :: es, σ => (∀ o, r.actual? σ = some o → r.tag.accepts o = true) ∧ Hygienic es σ
  | .write name o :: es, σ => Hygienic es (σ.set name o)

theorem Event.runAll_append (es es' : List (Event Owner)) (σ : Store Owner) :
    runAll (es ++ es') σ = runAll es' (runAll es σ) := by
  induction es generalizing σ with
  | nil => rfl
  | cons e es ih =>
      cases e with
      | read r => exact ih σ
      | write name o => exact ih (σ.set name o)

theorem hygienic_append_iff (es es' : List (Event Owner)) (σ : Store Owner) :
    Hygienic (es ++ es') σ ↔ Hygienic es σ ∧ Hygienic es' (Event.runAll es σ) := by
  induction es generalizing σ with
  | nil => simp [Hygienic, Event.runAll]
  | cons e es ih =>
      cases e with
      | read r => simp only [List.cons_append, Hygienic, ih, Event.runAll, and_assoc]
      | write name o => simp only [List.cons_append, Hygienic, ih, Event.runAll]

namespace Accesses

variable {α : Type}

/-- One way through the loops. -/
inductive Path : Accesses α → List (Event α) → Prop where
  | done : Path done []
  | read {r rest es} (hrest : Path rest es) : Path (read r rest) (.read r :: es)
  | write {name tag rest es} (hrest : Path rest es) :
      Path (write name tag rest) (.write name tag :: es)
  | leave {body rest es} (hrest : Path rest es) : Path (loop body rest) es
  | enter {body rest es es'} (hbody : Path body es) (hrest : Path (loop body rest) es') :
      Path (loop body rest) (es ++ es')

/-- The variables that are assigned on every path. -/
def assigned : Accesses α → List String
  | done => []
  | read _ rest | loop _ rest => rest.assigned
  | write name _ rest => name :: rest.assigned

/-- The owners that are the last to assign a variable, on some path. -/
def lasts : Accesses Owner → List (String × Owner)
  | done => []
  | read _ rest => rest.lasts
  | write name o rest => [(name, o)].filter (fun p => !rest.assigned.contains p.1) ++ rest.lasts
  | loop body rest => body.lasts.filter (fun p => !rest.assigned.contains p.1) ++ rest.lasts

/-- The reads before which the variable is not assigned, on some path. -/
def exposed : Accesses α → List (String × α)
  | done => []
  | read r rest =>
    if (r.locals.lookup r.name).isSome then rest.exposed else (r.name, r.tag) :: rest.exposed
  | write name _ rest => rest.exposed.filter fun p => p.1 != name
  | loop body rest => body.exposed ++ rest.exposed

/-- Whether reads are right to get any of the values. -/
def fits (values reads : List (String × Owner)) : Bool :=
  values.all fun v => reads.all fun r => v.1 != r.1 || r.2.accepts v.2

/-- Whether no assignment is seen by a read that is not meant for it, on any
path. The values from a round of a loop are compared with the reads of the next
round and of what comes after the loop. -/
def isClean : Accesses Owner → Bool
  | done => true
  | read r rest => (r.locals.lookup r.name).all r.tag.accepts && rest.isClean
  | write name o rest => fits [(name, o)] rest.exposed && rest.isClean
  | loop body rest => fits body.lasts (body.exposed ++ rest.exposed) && body.isClean && rest.isClean

theorem fits_eq_true_iff (values reads : List (String × Owner)) :
    fits values reads = true ↔
      ∀ n o m, (n, o) ∈ values → (n, m) ∈ reads → m.accepts o = true := by
  simp only [fits, List.all_eq_true, Bool.or_eq_true, bne_iff_ne, Prod.forall]
  constructor
  · intro h n o m ho hm
    exact (h n o ho n m hm).resolve_left (not_not_intro rfl)
  · intro h n o ho n' m hm
    by_cases hn : n = n'
    · subst hn
      exact .inr (h n o m ho hm)
    · exact .inl hn

theorem exposed_read_of_local {r : Use α} {o : α} (h : r.locals.lookup r.name = some o)
    (rest : Accesses α) : (read r rest).exposed = rest.exposed := by
  simp [exposed, h]

theorem exposed_read_of_global {r : Use α} (h : r.locals.lookup r.name = none)
    (rest : Accesses α) : (read r rest).exposed = (r.name, r.tag) :: rest.exposed := by
  simp [exposed, h]

theorem mem_exposed_write_iff {name n : String} {o m : α} {rest : Accesses α} :
    (n, m) ∈ (write name o rest).exposed ↔ (n, m) ∈ rest.exposed ∧ n ≠ name := by
  simp [exposed]

/-- A variable has the value from before, unless it is assigned on every path, or
the value of an owner that can be the last. -/
theorem Path.runAll_eq {a : Accesses Owner} {es : List (Event Owner)} (h : a.Path es)
    (σ : Store Owner) (n : String) :
    (Event.runAll es σ n = σ n ∧ n ∉ a.assigned) ∨
      ∃ o, (n, o) ∈ a.lasts ∧ Event.runAll es σ n = some o := by
  induction h generalizing σ with
  | done => exact .inl ⟨rfl, List.not_mem_nil⟩
  | read _ ih => exact ih σ
  | @write name o rest es _ ih =>
      rcases ih (σ.set name o) with ⟨hrun, hn⟩ | ⟨o', ho', hrun⟩
      · by_cases hname : n = name
        · subst hname
          refine .inr ⟨o, ?_, hrun.trans (Store.set_self σ n o)⟩
          simp [lasts, hn]
        · refine .inl ⟨hrun.trans (Store.set_of_ne σ o hname), ?_⟩
          simp [assigned, hname, hn]
      · exact .inr ⟨o', List.mem_append_right _ ho', hrun⟩
  | leave _ ih =>
      rcases ih σ with ⟨hrun, hn⟩ | ⟨o, ho, hrun⟩
      · exact .inl ⟨hrun, hn⟩
      · exact .inr ⟨o, List.mem_append_right _ ho, hrun⟩
  | @enter body rest es es' _ _ ihbody ihrest =>
      rw [Event.runAll_append]
      rcases ihrest (Event.runAll es σ) with ⟨hrun, hn⟩ | hlast
      · rcases ihbody σ with ⟨hrun', -⟩ | ⟨o, ho, hrun'⟩
        · exact .inl ⟨hrun.trans hrun', hn⟩
        · refine .inr ⟨o, ?_, hrun.trans hrun'⟩
          have hn : n ∉ rest.assigned := hn
          simp [lasts, ho, hn]
      · exact .inr hlast

theorem exists_path (a : Accesses Owner) : ∃ es, a.Path es := by
  induction a with
  | done => exact ⟨[], .done⟩
  | read r rest ih =>
      obtain ⟨es, h⟩ := ih
      exact ⟨_, .read h⟩
  | write name o rest ih =>
      obtain ⟨es, h⟩ := ih
      exact ⟨_, .write h⟩
  | loop body rest _ ih =>
      obtain ⟨es, h⟩ := ih
      exact ⟨es, .leave h⟩

/-- A variable that is not assigned on every path can keep its value. -/
theorem exists_path_of_not_assigned {n : String} (a : Accesses Owner) (hn : n ∉ a.assigned) :
    ∃ es, a.Path es ∧ ∀ σ, Event.runAll es σ n = σ n := by
  induction a with
  | done => exact ⟨[], .done, fun _ => rfl⟩
  | read r rest ih =>
      obtain ⟨es, h, hrun⟩ := ih hn
      exact ⟨_, .read h, hrun⟩
  | write name o rest ih =>
      rw [assigned, List.mem_cons, not_or] at hn
      obtain ⟨es, h, hrun⟩ := ih hn.2
      exact ⟨_, .write h, fun σ => (hrun _).trans (Store.set_of_ne σ o hn.1)⟩
  | loop body rest _ ih =>
      obtain ⟨es, h, hrun⟩ := ih hn
      exact ⟨es, .leave h, hrun⟩

/-- Each owner that can be the last is the last on a path. -/
theorem exists_path_of_mem_lasts {n : String} {o : Owner} (a : Accesses Owner)
    (h : (n, o) ∈ a.lasts) : ∃ es, a.Path es ∧ ∀ σ, Event.runAll es σ n = some o := by
  induction a with
  | done => cases h
  | read r rest ih =>
      obtain ⟨es, hpath, hrun⟩ := ih h
      exact ⟨_, .read hpath, hrun⟩
  | write name o' rest ih =>
      rcases List.mem_append.1 h with h | h
      · obtain ⟨⟨rfl, rfl⟩, hn⟩ : (n = name ∧ o = o') ∧ n ∉ rest.assigned := by simpa using h
        obtain ⟨es, hpath, hrun⟩ := exists_path_of_not_assigned rest hn
        exact ⟨_, .write hpath, fun σ => (hrun _).trans (Store.set_self σ n o)⟩
      · obtain ⟨es, hpath, hrun⟩ := ih h
        exact ⟨_, .write hpath, fun σ => hrun _⟩
  | loop body rest ihbody ih =>
      rcases List.mem_append.1 h with h | h
      · obtain ⟨hbody, hn⟩ : (n, o) ∈ body.lasts ∧ n ∉ rest.assigned := by simpa using h
        obtain ⟨es, hpath, hrun⟩ := ihbody hbody
        obtain ⟨es', hpath', hrun'⟩ := exists_path_of_not_assigned rest hn
        refine ⟨_, .enter hpath (.leave hpath'), fun σ => ?_⟩
        rw [Event.runAll_append, hrun', hrun]
      · obtain ⟨es, hpath, hrun⟩ := ih h
        exact ⟨es, .leave hpath, hrun⟩

/-- The reads that come first get values of the owners they are meant for. -/
def StartsWell (a : Accesses Owner) (σ : Store Owner) : Prop :=
  ∀ n o m, σ n = some o → (n, m) ∈ a.exposed → m.accepts o = true

/-- Clean accesses are hygienic on every path. -/
theorem Path.hygienic {a : Accesses Owner} {es : List (Event Owner)} (h : a.Path es)
    (hclean : a.isClean = true) {σ : Store Owner} (hstart : a.StartsWell σ) : Hygienic es σ := by
  induction h generalizing σ with
  | done => trivial
  | @read r rest es _ ih =>
      rw [isClean, Bool.and_eq_true] at hclean
      cases hlocal : r.locals.lookup r.name with
      | some o =>
          rw [StartsWell, exposed_read_of_local hlocal] at hstart
          refine ⟨?_, ih hclean.2 hstart⟩
          intro o' ho'
          rw [Use.actual?, hlocal] at ho'
          cases ho'
          simpa [hlocal] using hclean.1
      | none =>
          rw [StartsWell, exposed_read_of_global hlocal] at hstart
          refine ⟨?_, ih hclean.2 fun n o m ho hm =>
            hstart n o m ho (List.mem_cons_of_mem _ hm)⟩
          intro o ho
          rw [Use.actual?, hlocal] at ho
          exact hstart r.name o r.tag ho List.mem_cons_self
  | @write name o rest es _ ih =>
      rw [isClean, Bool.and_eq_true, fits_eq_true_iff] at hclean
      refine ih hclean.2 fun n o' m ho' hm => ?_
      by_cases hn : n = name
      · subst hn
        rw [Store.set_self] at ho'
        cases ho'
        exact hclean.1 n o m List.mem_cons_self hm
      · rw [Store.set_of_ne σ o hn] at ho'
        exact hstart n o' m ho' (mem_exposed_write_iff.2 ⟨hm, hn⟩)
  | leave _ ih =>
      rw [isClean, Bool.and_eq_true, Bool.and_eq_true] at hclean
      exact ih hclean.2 fun n o m ho hm => hstart n o m ho (List.mem_append_right _ hm)
  | @enter body rest es es' hbody _ ihbody ihrest =>
      have hclean' := hclean
      rw [isClean, Bool.and_eq_true, Bool.and_eq_true, fits_eq_true_iff] at hclean'
      refine (hygienic_append_iff es es' σ).2 ⟨?_, ihrest hclean ?_⟩
      · exact ihbody hclean'.1.2 fun n o m ho hm => hstart n o m ho (List.mem_append_left _ hm)
      · intro n o m ho hm
        -- After a round a name has its old owner, or the last one that the round has given it.
        rcases hbody.runAll_eq σ n with ⟨hrun, -⟩ | ⟨o', ho', hrun⟩
        · exact hstart n o m (hrun ▸ ho) hm
        · rw [hrun] at ho
          cases ho
          exact hclean'.1.1 n o m ho' hm

/-- What is hygienic on every path is clean. -/
theorem isClean_of_hygienic (a : Accesses Owner) (σ : Store Owner)
    (h : ∀ es, a.Path es → Hygienic es σ) : a.isClean = true ∧ a.StartsWell σ := by
  induction a generalizing σ with
  | done => exact ⟨rfl, fun _ _ _ _ hm => nomatch hm⟩
  | read r rest ih =>
      obtain ⟨hclean, hstart⟩ := ih σ fun es hes => (h _ (.read hes)).2
      obtain ⟨es, hes⟩ := rest.exists_path
      have hread := (h _ (.read hes)).1
      cases hlocal : r.locals.lookup r.name with
      | some o =>
          have haccepts : r.tag.accepts o = true := hread o (by rw [Use.actual?, hlocal]; rfl)
          refine ⟨by simp [isClean, hlocal, haccepts, hclean], ?_⟩
          rw [StartsWell, exposed_read_of_local hlocal]
          exact hstart
      | none =>
          refine ⟨by simp [isClean, hlocal, hclean], ?_⟩
          intro n o m ho hm
          rw [exposed_read_of_global hlocal, List.mem_cons] at hm
          rcases hm with hm | hm
          · cases hm
            exact hread o (by rw [Use.actual?, hlocal]; exact ho)
          · exact hstart n o m ho hm
  | write name o rest ih =>
      obtain ⟨hclean, hstart⟩ := ih (σ.set name o) fun es hes => h _ (.write hes)
      refine ⟨?_, ?_⟩
      · rw [isClean, Bool.and_eq_true, fits_eq_true_iff]
        refine ⟨?_, hclean⟩
        intro n o' m ho' hm
        obtain ⟨rfl, rfl⟩ : n = name ∧ o' = o := by simpa using ho'
        exact hstart n o' m (Store.set_self σ n o') hm
      · intro n o' m ho' hm
        obtain ⟨hm, hn⟩ := mem_exposed_write_iff.1 hm
        exact hstart n o' m ((Store.set_of_ne σ o hn).trans ho') hm
  | loop body rest ihbody ih =>
      -- From any store that comes up at the head of the loop, the body and what
      -- comes after the loop are hygienic.
      have hhead : ∀ σ', (∀ es, (loop body rest).Path es → Hygienic es σ') →
          (body.isClean = true ∧ body.StartsWell σ') ∧
            (rest.isClean = true ∧ rest.StartsWell σ') := by
        intro σ' h'
        refine ⟨ihbody σ' ?_, ih σ' fun es hes => h' es (.leave hes)⟩
        intro es hes
        obtain ⟨es', hes'⟩ := rest.exists_path
        exact ((hygienic_append_iff es es' σ').1 (h' _ (.enter hes (.leave hes')))).1
      obtain ⟨⟨hbody, hbodyStart⟩, hrest, hrestStart⟩ := hhead σ h
      refine ⟨?_, ?_⟩
      · rw [isClean, Bool.and_eq_true, Bool.and_eq_true, fits_eq_true_iff]
        refine ⟨⟨?_, hbody⟩, hrest⟩
        intro n o m ho hm
        obtain ⟨es, hes, hrun⟩ := exists_path_of_mem_lasts body ho
        obtain ⟨⟨-, hbodyNext⟩, -, hrestNext⟩ := hhead (Event.runAll es σ) fun es' hes' =>
          ((hygienic_append_iff es es' σ).1 (h _ (.enter hes hes'))).2
        rcases List.mem_append.1 hm with hm | hm
        · exact hbodyNext n o m (hrun σ) hm
        · exact hrestNext n o m (hrun σ) hm
      · intro n o m ho hm
        rcases List.mem_append.1 hm with hm | hm
        · exact hbodyStart n o m ho hm
        · exact hrestStart n o m ho hm

/-- The comparison of last assignments with exposed reads is exact: it succeeds if
and only if the reads on every path get what they are meant for. -/
theorem hygienic_iff (a : Accesses Owner) (σ : Store Owner) :
    (∀ es, a.Path es → Hygienic es σ) ↔ a.isClean = true ∧ a.StartsWell σ := by
  constructor
  · exact a.isClean_of_hygienic σ
  · rintro ⟨hclean, hstart⟩ es hes
    exact hes.hygienic hclean hstart

end Accesses

/-- The read is meant for an owner that is possible for the name, or for what
comes from outside, and so is each comprehension around it. -/
def Use.Owned (P : String → Owner → Prop) (r : Use Owner) : Prop :=
  (r.tag = .unbound ∨ P r.name r.tag) ∧ ∀ p ∈ r.locals, P p.1 p.2

namespace Accesses

variable {P : String → Owner → Prop}

/-- All accesses are for owners that are possible for the name. -/
def Owned (P : String → Owner → Prop) : Accesses Owner → Prop
  | done => True
  | read r rest => r.Owned P ∧ rest.Owned P
  | write name o rest => P name o ∧ rest.Owned P
  | loop body rest => body.Owned P ∧ rest.Owned P

@[simp] theorem owned_append_iff (a b : Accesses Owner) :
    (a ++ b).Owned P ↔ a.Owned P ∧ b.Owned P := by
  induction a with
  | done => simp [Owned]
  | read r rest ih => simp only [read_append, Owned, ih, and_assoc]
  | write name o rest ih => simp only [write_append, Owned, ih, and_assoc]
  | loop body rest _ ih => simp only [loop_append, Owned, ih, and_assoc]

@[simp] theorem owned_ofReads_iff (rs : List (Use Owner)) :
    (ofReads rs).Owned P ↔ ∀ r ∈ rs, r.Owned P := by
  induction rs with
  | nil => simp [Owned]
  | cons r rs ih => rw [ofReads_cons, Owned, ih, List.forall_mem_cons]

theorem Owned.of_mem_lasts {n : String} {o : Owner} {a : Accesses Owner} (h : a.Owned P)
    (ho : (n, o) ∈ a.lasts) : P n o := by
  induction a with
  | done => cases ho
  | read r rest ih => exact ih h.2 ho
  | write name o' rest ih =>
      rcases List.mem_append.1 ho with ho | ho
      · obtain ⟨⟨rfl, rfl⟩, -⟩ : (n = name ∧ o = o') ∧ n ∉ rest.assigned := by simpa using ho
        exact h.1
      · exact ih h.2 ho
  | loop body rest ihbody ih =>
      rcases List.mem_append.1 ho with ho | ho
      · exact ihbody h.1 (List.mem_filter.1 ho).1
      · exact ih h.2 ho

theorem Owned.of_mem_exposed {n : String} {m : Owner} {a : Accesses Owner} (h : a.Owned P)
    (hm : (n, m) ∈ a.exposed) : m = .unbound ∨ P n m := by
  induction a with
  | done => cases hm
  | read r rest ih =>
      cases hlocal : r.locals.lookup r.name with
      | some o =>
          rw [exposed_read_of_local hlocal] at hm
          exact ih h.2 hm
      | none =>
          rw [exposed_read_of_global hlocal, List.mem_cons] at hm
          rcases hm with hm | hm
          · cases hm
            exact h.1.1
          · exact ih h.2 hm
  | write name o rest ih => exact ih h.2 (mem_exposed_write_iff.1 hm).1
  | loop body rest ihbody ih =>
      rcases List.mem_append.1 hm with hm | hm
      · exact ihbody h.1 hm
      · exact ih h.2 hm

/-- If only one owner is possible for each name, then a read for an owner gets
what it is meant for. -/
theorem accepts_of_unique (hP : ∀ n o m, P n o → P n m → o = m) {n : String} {o m : Owner}
    (ho : P n o) (hm : m = .unbound ∨ P n m) : m.accepts o = true := by
  rcases hm with rfl | hm
  · rfl
  · rw [hP n o m ho hm]
    simp [Owner.accepts]

/-- Accesses are clean if only one owner is possible for each name. -/
theorem Owned.isClean (hP : ∀ n o m, P n o → P n m → o = m) {a : Accesses Owner}
    (h : a.Owned P) : a.isClean = true := by
  induction a with
  | done => rfl
  | read r rest ih =>
      rw [Accesses.isClean, Bool.and_eq_true]
      refine ⟨?_, ih h.2⟩
      cases hlocal : r.locals.lookup r.name with
      | none => rfl
      | some o =>
          have hmem : (r.name, o) ∈ r.locals := by
            obtain ⟨before, after, heq, -⟩ := List.lookup_eq_some_iff.1 hlocal
            simp [heq]
          exact accepts_of_unique hP (h.1.2 _ hmem) h.1.1
  | write name o rest ih =>
      rw [Accesses.isClean, Bool.and_eq_true, fits_eq_true_iff]
      refine ⟨?_, ih h.2⟩
      intro n o' m ho' hm
      obtain ⟨rfl, rfl⟩ : n = name ∧ o' = o := by simpa using ho'
      exact accepts_of_unique hP h.1 (h.2.of_mem_exposed hm)
  | loop body rest ihbody ih =>
      rw [Accesses.isClean, Bool.and_eq_true, Bool.and_eq_true, fits_eq_true_iff]
      refine ⟨⟨?_, ihbody h.1⟩, ih h.2⟩
      intro n o m ho hm
      refine accepts_of_unique hP (h.1.of_mem_lasts ho) ?_
      rcases List.mem_append.1 hm with hm | hm
      · exact h.1.of_mem_exposed hm
      · exact h.2.of_mem_exposed hm

end Accesses

end StatContract
