import StatContract.Proofs.Code.Access

/-!
# Assignment before use

On a path, a read finds a value if the variable has been assigned before, or if it is the variable
of a comprehension around the read. `Event.Assigned` says this for all reads of certain variables.
It holds on all paths if no such variable is exposed (`Accesses.Path.assigned`), which is found
piece by piece: what one piece of code exposes may be assigned in the pieces before it, but loops
may run zero times and assign nothing.

Paths leave loops at the end of a round. `Stmt.inPlace` is the condition on code under which there
are no other paths, and loops have bodies.
-/

namespace StatContract

variable {α : Type} {P : String → Prop} {known more : List String}

/-- A read of a variable of a certain kind gets that of a comprehension, or one of those that have
a value. -/
def Use.Finds (P : String → Prop) (known : List String) (r : Use α) : Prop :=
  P r.name → (r.locals.lookup r.name).isSome = true ∨ r.name ∈ known

theorem Use.Finds.mono {r : Use α} (h : r.Finds P known) (hsub : known ⊆ more) :
    r.Finds P more :=
  fun hP => (h hP).imp_right fun hmem => hsub hmem

theorem Use.Finds.of_not {r : Use α} (h : ¬P r.name) : r.Finds P known := fun hP => absurd hP h

theorem Use.Finds.of_mem {r : Use α} (h : r.name ∈ known) : r.Finds P known := fun _ => .inr h

theorem Use.Finds.within {r : Use α} (h : r.Finds P known) (var : String) (tag : α) :
    (r.within var tag).Finds P known := by
  intro hP
  refine (h hP).imp_left fun hlocal => ?_
  obtain ⟨o, ho⟩ := Option.isSome_iff_exists.1 hlocal
  simp [Use.within, List.lookup_append, ho]

namespace Event

/-- Each read of a variable of a certain kind comes after an assignment to it, or gets that of a
comprehension. The variables of the list have values from the start. -/
def Assigned (P : String → Prop) : List String → List (Event α) → Prop
  | _, [] => True
  | known, .read r :: es => r.Finds P known ∧ Assigned P known es
  | known, .write name _ :: es => Assigned P (name :: known) es

theorem Assigned.mono {es : List (Event α)} (h : Assigned P known es) (hsub : known ⊆ more) :
    Assigned P more es := by
  induction es generalizing known more with
  | nil => trivial
  | cons e es ih =>
      cases e with
      | read r => exact ⟨h.1.mono hsub, ih h.2 hsub⟩
      | write name _ => exact ih h (List.cons_subset_cons name hsub)

theorem Assigned.append {es es' : List (Event α)} (h : Assigned P known es)
    (h' : Assigned P known es') : Assigned P known (es ++ es') := by
  induction es generalizing known with
  | nil => exact h'
  | cons e es ih =>
      cases e with
      | read r => exact ⟨h.1, ih h.2 h'⟩
      | write name _ => exact ih h (h'.mono (List.subset_cons_self name known))

end Event

namespace Accesses

variable {a b body rest : Accesses α} {es : List (Event α)}

/-- The variables of a certain kind that are exposed on some path are among those of the list. -/
def Closed (P : String → Prop) (known : List String) (a : Accesses α) : Prop :=
  ∀ p ∈ a.exposed, P p.1 → p.1 ∈ known

theorem closed_done : (done : Accesses α).Closed P known := List.forall_mem_nil _

theorem Closed.mono (h : a.Closed P known) (hsub : known ⊆ more) : a.Closed P more :=
  fun p hp hP => hsub (h p hp hP)

/-- What is not exposed is assigned before it is read, on every path. -/
theorem Path.assigned (h : a.Path es) (hclosed : a.Closed P known) :
    Event.Assigned P known es := by
  induction h generalizing known with
  | done => trivial
  | @read r rest es _ ih =>
      cases hlocal : r.locals.lookup r.name with
      | some o =>
          rw [Closed, exposed_read_of_local hlocal] at hclosed
          exact ⟨fun _ => .inl (by rw [hlocal]; rfl), ih hclosed⟩
      | none =>
          rw [Closed, exposed_read_of_global hlocal, List.forall_mem_cons] at hclosed
          exact ⟨fun hP => .inr (hclosed.1 hP), ih hclosed.2⟩
  | @write name tag rest es _ ih =>
      refine ih fun p hp hP => ?_
      by_cases hname : p.1 = name
      · rw [hname]
        exact List.mem_cons_self
      · exact List.mem_cons_of_mem _ (hclosed p (mem_exposed_write_iff.2 ⟨hp, hname⟩) hP)
  | leave _ ih => exact ih fun p hp => hclosed p (List.mem_append_right _ hp)
  | enter _ _ ihbody ihrest =>
      exact (ihbody fun p hp => hclosed p (List.mem_append_left _ hp)).append (ihrest hclosed)

@[simp] theorem assigned_append (a b : Accesses α) :
    (a ++ b).assigned = a.assigned ++ b.assigned := by
  induction a with
  | done => rfl
  | read r rest ih => exact ih
  | write name tag rest ih => exact congrArg (name :: ·) ih
  | loop body rest _ ih => exact ih

@[simp] theorem assigned_ofReads (rs : List (Use α)) : (ofReads rs).assigned = [] := by
  induction rs with
  | nil => rfl
  | cons r rs ih => exact ih

theorem closed_ofReads_iff (rs : List (Use α)) :
    (ofReads rs).Closed P known ↔ ∀ r ∈ rs, r.Finds P known := by
  induction rs with
  | nil => simp [Closed, exposed]
  | cons r rs ih =>
      rw [List.forall_mem_cons, ← ih, ofReads_cons]
      cases hlocal : r.locals.lookup r.name with
      | some o => simp [Closed, exposed_read_of_local hlocal, Use.Finds, hlocal]
      | none => simp [Closed, exposed_read_of_global hlocal, Use.Finds, hlocal]

theorem Closed.write {name : String} (h : rest.Closed P (name :: known)) (tag : α) :
    (write name tag rest).Closed P known := by
  rintro ⟨n, o⟩ hp hP
  obtain ⟨hp, hne⟩ := mem_exposed_write_iff.1 hp
  exact (List.mem_cons.1 (h (n, o) hp hP)).resolve_left hne

theorem Closed.loop (hbody : body.Closed P known) (hrest : rest.Closed P known) :
    (loop body rest).Closed P known :=
  fun p hp => (List.mem_append.1 hp).elim (hbody p) (hrest p)

/-- The second of two pieces of code may use what the first assigns. -/
theorem Closed.append (ha : a.Closed P known) (hb : b.Closed P (a.assigned ++ known)) :
    (a ++ b).Closed P known := by
  induction a generalizing known with
  | done => exact hb
  | read r rest ih =>
      cases hlocal : r.locals.lookup r.name with
      | some o =>
          rw [Closed, exposed_read_of_local hlocal] at ha
          rw [read_append, Closed, exposed_read_of_local hlocal]
          exact ih ha hb
      | none =>
          rw [Closed, exposed_read_of_global hlocal, List.forall_mem_cons] at ha
          rw [read_append, Closed, exposed_read_of_global hlocal, List.forall_mem_cons]
          exact ⟨ha.1, ih ha.2 hb⟩
  | write name tag rest ih =>
      refine Closed.write (ih ?_ (hb.mono ?_)) tag
      · intro p hp hP
        by_cases hname : p.1 = name
        · rw [hname]
          exact List.mem_cons_self
        · exact List.mem_cons_of_mem _ (ha p (mem_exposed_write_iff.2 ⟨hp, hname⟩) hP)
      · exact List.perm_middle.symm.subset
  | loop body rest _ ih =>
      refine Closed.loop (fun p hp => ha p (List.mem_append_left _ hp)) (ih ?_ hb)
      exact fun p hp => ha p (List.mem_append_right _ hp)

end Accesses

namespace Stmt

variable {a b body : List Stmt} {name var : String} {value source list : Code}

theorem closed_nil : (accessesOfAll []).Closed P known := Accesses.closed_done

theorem closed_append (ha : (accessesOfAll a).Closed P known)
    (hb : (accessesOfAll b).Closed P ((accessesOfAll a).assigned ++ known)) :
    (accessesOfAll (a ++ b)).Closed P known := by
  rw [accessesOfAll_append]
  exact ha.append hb

theorem closed_set_cons (hvalue : ∀ r ∈ value.reads, r.Finds P known)
    (hb : (accessesOfAll b).Closed P (name :: known)) :
    (accessesOfAll (set name value :: b)).Closed P known := by
  refine Accesses.Closed.append ?_ ?_
  · refine Accesses.Closed.append ((Accesses.closed_ofReads_iff _).2 hvalue) ?_
    exact Accesses.Closed.write Accesses.closed_done ()
  · simpa [accesses, set, Accesses.assigned] using hb

theorem closed_set (hvalue : ∀ r ∈ value.reads, r.Finds P known) :
    (accessesOfAll [set name value]).Closed P known :=
  closed_set_cons hvalue closed_nil

theorem closed_update (hname : name ∈ known) (hvalue : ∀ r ∈ value.reads, r.Finds P known)
    (op : ArithOp) : (accessesOfAll [update (.name name) op value]).Closed P known := by
  have hreads : ∀ r ∈ (⟨name, (), []⟩ : Use Unit) :: value.reads, r.Finds P known :=
    List.forall_mem_cons.2 ⟨.of_mem hname, hvalue⟩
  simp only [accessesOfAll, accesses, Accesses.append_done]
  refine Accesses.Closed.append ((Accesses.closed_ofReads_iff _).2 hreads) ?_
  exact Accesses.Closed.write Accesses.closed_done ()

theorem closed_extend (hname : name ∈ known) (hvalue : ∀ r ∈ value.reads, r.Finds P known) :
    (accessesOfAll [append (.name name) value]).Closed P known := by
  simp only [accessesOfAll, accesses, Accesses.append_done, Accesses.closed_ofReads_iff, Code.reads]
  exact List.forall_mem_cons.2 ⟨.of_mem hname, hvalue⟩

theorem closed_breakUnless (hname : name ∈ known) :
    (accessesOfAll [breakUnless (.name name)]).Closed P known := by
  simp only [accessesOfAll, accesses, Accesses.append_done, Accesses.closed_ofReads_iff, Code.reads]
  exact List.forall_mem_singleton.2 (.of_mem hname)

/-- A loop assigns its variable at the start of each round. -/
theorem closed_forIn (hsource : ∀ r ∈ source.reads, r.Finds P known)
    (hbody : (accessesOfAll body).Closed P (var :: known)) :
    (accessesOfAll [forIn var source body]).Closed P known := by
  simp only [accessesOfAll, accesses, Accesses.append_done]
  refine Accesses.Closed.append ((Accesses.closed_ofReads_iff _).2 hsource) ?_
  rw [Accesses.assigned_ofReads]
  exact Accesses.Closed.loop (hbody.write ()) Accesses.closed_done

theorem assigned_set_cons (name : String) (value : Code) (b : List Stmt) :
    (accessesOfAll (set name value :: b)).assigned = name :: (accessesOfAll b).assigned := by
  simp [accessesOfAll, accesses, set, Accesses.assigned]

mutual

/-- Whether loops have bodies, and are left early at the end of a round only: a statement may
leave a loop if it is the last one of the body. Other statements must be such that their accesses
are listed. -/
def inPlace (last : Bool) : Stmt → Bool
  | assign (.name _) _ | update (.name _) _ _ | append _ _ => true
  | forIn _ _ body => !body.isEmpty && inPlaceAll true body
  | breakUnless _ => last
  | _ => false

/-- Whether the statements of a block, the body of a loop or not, are in place. -/
def inPlaceAll (loop : Bool) : List Stmt → Bool
  | [] => true
  | s :: rest => s.inPlace (loop && rest.isEmpty) && inPlaceAll loop rest

end

theorem inPlaceAll_forIn (h : inPlaceAll true body = true) (hne : body ≠ []) (var : String)
    (source : Code) : inPlaceAll false [forIn var source body] = true := by
  simp [inPlaceAll, inPlace, h, hne]

theorem inPlace_of_false {s : Stmt} (h : s.inPlace false = true) (last : Bool) :
    s.inPlace last = true := by
  cases s with
  | assign target _ | update target _ _ =>
      cases target with
      | name => simp only [inPlace]
      | _ => simp [inPlace] at h
  | append => simp only [inPlace]
  | forIn => simpa only [inPlace] using h
  | _ => simp [inPlace] at h

/-- Statements that leave nothing may stand in front of others. -/
theorem inPlaceAll_append {loop : Bool} (ha : inPlaceAll false a = true)
    (hb : inPlaceAll loop b = true) : inPlaceAll loop (a ++ b) = true := by
  induction a with
  | nil => exact hb
  | cons s a ih =>
      rw [inPlaceAll, Bool.false_and, Bool.and_eq_true] at ha
      rw [List.cons_append, inPlaceAll, Bool.and_eq_true]
      exact ⟨inPlace_of_false ha.1 _, ih ha.2⟩

end Stmt

end StatContract
