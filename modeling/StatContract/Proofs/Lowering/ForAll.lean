import StatContract.Proofs.Code.Access
import StatContract.Proofs.Code.Record
import StatContract.Proofs.Lowering.Meaning

/-!
# Running a quantifier

Nested loops that leave at the first failure, or that collect what their body
gives, go through the tuples of a nested iteration. `Loop.visits` is that iteration
by itself: the turns of all loops and the tuples that are reached, in order, with
every collection evaluated where the variables of the ranges before it are bound
and nothing else has changed. `Course` says how far along it a run went, which
moves it made and how it ended. `Loop.course_nest` is the step from the code to the
iteration, by induction on the loops, and `Clause.forAll_goes_in_turn` the result
for a lowered quantifier.
-/

namespace StatContract

variable {V α β : Type}

/-- A stage of a nested iteration. -/
inductive Visit (V : Type) where
  /-- A turn of one of the loops begins. -/
  | enter (place : List V)
  /-- All variables have their items. -/
  | reach (place : List V)
  /-- The next collection has no items to go through. -/
  | stuck (place : List V)

/-- The stages of the iteration over nested loops, in order. -/
def Loop.visits (I : Interpretation V) : List Loop → List V → Store V → List (Visit V)
  | [], place, _ => [.reach place]
  | loop :: loops, place, ρ =>
    match (I.eval ρ loop.source).bind I.items with
    | none => [.stuck place]
    | some vs => vs.flatMap fun v =>
      .enter (place ++ [v]) :: visits I loops (place ++ [v]) (ρ.set loop.var v)

/-- The names in an expression. -/
def Code.names (c : Code) : List String := c.reads.map Use.name

namespace Loop

/-- The names that the collections of nested loops take from outside. -/
def needs : List Loop → List String
  | [] => []
  | loop :: loops => loop.source.names ++ (needs loops).filter (· ≠ loop.var)

/-- What stands at the end of each of the nested loops. -/
def exits (condition : Option String) : List Stmt :=
  condition.toList.map fun name => .breakUnless (.name name)

/-- No loop inside another changes a name that the collections inside it take from
outside. -/
def Apart : List Loop → Prop
  | [] => True
  | loop :: loops => (∀ x ∈ needs loops, x ≠ loop.var → x ∉ loops.map var) ∧ Apart loops

theorem mem_names_of_mem_needs {loops : List Loop} {x : String} (h : x ∈ needs loops) :
    ∃ loop ∈ loops, x ∈ loop.source.names := by
  induction loops with
  | nil => cases h
  | cons loop loops ih =>
      rcases List.mem_append.1 h with h | h
      · exact ⟨loop, List.mem_cons_self, h⟩
      · obtain ⟨other, hother, hx⟩ := ih (List.mem_filter.1 h).1
        exact ⟨other, List.mem_cons_of_mem loop hother, hx⟩

theorem isBreak_nest {inner : List Stmt} (h : ∀ s ∈ inner, s.isBreak = false)
    (condition : Option String) (loops : List Loop) :
    ∀ s ∈ nest condition loops inner, s.isBreak = false := by
  cases loops with
  | nil => exact h
  | cons loop loops => simp [nest, Stmt.isBreak]

theorem mem_assigned_nest {condition : Option String} {loops : List Loop} {inner : List Stmt}
    {x : String} : x ∈ Stmt.assignedOfAll (nest condition loops inner) ↔
      x ∈ loops.map var ∨ x ∈ Stmt.assignedOfAll inner := by
  induction loops with
  | nil => simp [nest]
  | cons loop loops ih =>
      have hexits : Stmt.assignedOfAll (exits condition) = [] := by
        cases condition <;> rfl
      rw [exits] at hexits
      simp only [nest, Stmt.assignedOfAll, Stmt.assigned, Stmt.assignedOfAll_append, hexits,
        List.append_nil, List.mem_cons, ih, List.map_cons]
      exact or_assoc.symm

end Loop

namespace Move

/-- The move belongs to a loop down to a depth, or is about one of the names. -/
def isOwn (depth : Nat) (names : List String) : Move V → Bool
  | turn place | leave place => place.length ≤ depth
  | write _ name _ | append _ name _ => names.contains name

/-- Leaving the loops at a tuple below a place, innermost first. -/
def leaves (place : List V) : List V → List (Move V)
  | [] => []
  | v :: vs => leaves (place ++ [v]) vs ++ [.leave (place ++ [v])]

theorem Inside.isOwn_eq_false {depth : Nat} {names names' : List String} {m : Move V}
    (h : m.Inside depth names') (hnames : ∀ n ∈ names', n ∉ names) :
    m.isOwn depth names = false := by
  cases m with
  | turn | leave => simpa [isOwn, Inside] using h
  | write _ name | append _ name => simpa [isOwn] using hnames name h

end Move

/-- The moves of a run that belong to nested loops of a depth and to some names. -/
def Recorded.own (depth : Nat) (names : List String) (x : Recorded V α) : List (Move V) :=
  x.moves.filter (·.isOwn depth names)

namespace Recorded

variable {depth : Nat} {names : List String}

theorem own_bind (x : Recorded V α) (f : α → Recorded V β) :
    (x >>= f).own depth names =
      x.own depth names ++ x.result.elim [] fun a => (f a).own depth names := by
  cases hx : x.result with
  | none => simp [bind_of_none hx, own]
  | some a => simp [bind_of_some hx, own]

theorem own_bind_pure (x : Recorded V α) (f : α → β) :
    (x >>= fun a => pure (f a)).own depth names = x.own depth names := by
  rw [own_bind]
  cases x.result <;> exact List.append_nil _

theorem result_bind_pure (x : Recorded V α) (f : α → β) :
    (x >>= fun a => pure (f a)).result = x.result.map f := by
  rw [result_bind]
  cases x.result <;> rfl

@[simp] theorem own_pure (a : α) : (pure a : Recorded V α).own depth names = [] := rfl

end Recorded

/-- The stages have been visited: the turns have begun, and each tuple gave a value,
which has been noted. -/
inductive Visit.Made (note : List V → V → Move V) (gives : List V → Option V → Prop) :
    List (Visit V) → List V → List (Move V) → Prop where
  | nil : Made note gives [] [] []
  | enter {place visits values moves} (hrest : Made note gives visits values moves) :
      Made note gives (.enter place :: visits) values (.turn place :: moves)
  | reach {place v visits values moves} (hv : gives place (some v))
      (hrest : Made note gives visits values moves) :
      Made note gives (.reach place :: visits) (v :: values) (note place v :: moves)

theorem Visit.Made.append {note : List V → V → Move V} {gives : List V → Option V → Prop}
    {a b : List (Visit V)} {vs ws : List V} {ms ns : List (Move V)} (ha : Made note gives a vs ms)
    (hb : Made note gives b ws ns) : Made note gives (a ++ b) (vs ++ ws) (ms ++ ns) := by
  induction ha with
  | nil => exact hb
  | enter _ ih => exact .enter ih
  | reach hv _ ih => exact .reach hv ih

/-- How a run goes along the stages of an iteration below a place. The values before
the run and those it gives are in `Good` states as long as they pass. -/
inductive Course (note : List V → V → Move V) (gives : List V → Option V → Prop)
    (passes : V → Bool) (Good : List V → Store V → Prop) (Failed : V → Store V → Prop)
    (place : List V) (before : List V) (visits : List (Visit V)) :
    List (Move V) → Option (Flow × Store V) → Prop where
  /-- All stages are visited, and all values pass. -/
  | complete {values moves σ} (hmade : Visit.Made note gives visits values moves)
      (hpass : ∀ v ∈ values, passes v = true) (hgood : Good (before ++ values) σ) :
      Course note gives passes Good Failed place before visits moves (some (.next, σ))
  /-- The value at a tuple is the first that does not pass. All loops are left there. -/
  | fail {visited p tuple rest values moves v σ} (hp : p = place ++ tuple)
      (hvisits : visits = visited ++ .reach p :: rest)
      (hmade : Visit.Made note gives visited values moves)
      (hpass : ∀ v ∈ values, passes v = true) (hv : gives p (some v)) (hfail : passes v = false)
      (hfailed : Failed v σ) :
      Course note gives passes Good Failed place before visits
        (moves ++ note p v :: Move.leaves place tuple) (some (.next, σ))
  /-- A collection has no items to go through, or a tuple gives no value. -/
  | raise {visited stage rest values moves} (hvisits : visits = visited ++ stage :: rest)
      (hmade : Visit.Made note gives visited values moves)
      (hpass : ∀ v ∈ values, passes v = true)
      (hstage : (∃ p, stage = .stuck p) ∨ ∃ p, stage = .reach p ∧ gives p none) :
      Course note gives passes Good Failed place before visits moves none

/-- The store has the innermost values of bound names, some names aside. -/
def Store.Shows (σ : Store V) (env : List (String × V)) (aside : List String) : Prop :=
  ∀ x v, env.lookup x = some v → x ∉ aside → σ x = some v

/-- The tuple of an environment, outermost item first. -/
def placeOf (env : List (String × V)) : List V := (env.map Prod.snd).reverse

theorem placeOf_cons (x : String) (v : V) (env : List (String × V)) :
    placeOf ((x, v) :: env) = placeOf env ++ [v] := by
  simp [placeOf]

/-- What the innermost block of nested loops over some variables does. -/
structure Loop.Conducts (I : Interpretation V) (vars names : List String)
    (condition : Option String) (inner : List Stmt) (note : List V → V → Move V)
    (gives : List V → Option V → Prop) (passes : V → Bool) (Good : List V → Store V → Prop)
    (Failed : V → Store V → Prop) : Prop where
  disjoint : ∀ x ∈ vars, x ∉ names
  good_set : ∀ {before σ x v}, x ∉ names → Good before σ → Good before (σ.set x v)
  run : ∀ {before env σ}, (env.map Prod.fst).reverse = vars → Good before σ →
    σ.Shows env (Stmt.assignedOfAll inner) →
    ((Stmt.recordAll I inner (placeOf env) σ).own vars.length names = [] ∧
      (Stmt.recordAll I inner (placeOf env) σ).result = none ∧ gives (placeOf env) none) ∨
    ∃ v σ',
      (Stmt.recordAll I inner (placeOf env) σ).own vars.length names = [note (placeOf env) v] ∧
      (Stmt.recordAll I inner (placeOf env) σ).result = some (.next, σ') ∧
      gives (placeOf env) (some v) ∧ (passes v = true → Good (before ++ [v]) σ') ∧
      (passes v = false → Failed v σ')
  go_on : ∀ {before σ} place, Good before σ →
    Stmt.recordAll I (exits condition) place σ = pure (.next, σ)
  stop : ∀ {v σ} place, Failed v σ →
    Stmt.recordAll I (exits condition) place σ = ⟨[.leave place], some (.leave, σ)⟩

/-- What holds before every turn of a loop around loops: the collections inside still
find what they need, and the loops outside their items. -/
structure Loop.Ready (loop : Loop) (loops : List Loop) (inner : List Stmt)
    (env : List (String × V)) (ρ σ : Store V) : Prop where
  needs : ∀ x ∈ needs loops, x ≠ loop.var → σ x = ρ x
  shows : σ.Shows env (Stmt.assignedOfAll inner ++ (loop :: loops).map Loop.var)

namespace Loop.Ready

variable {loop : Loop} {loops : List Loop} {inner : List Stmt} {env : List (String × V)}
  {ρ σ σ' : Store V}

theorem needs_set (h : Ready loop loops inner env ρ σ) (v : V) :
    ∀ x ∈ Loop.needs loops, σ.set loop.var v x = ρ.set loop.var v x := by
  intro x hx
  by_cases hvar : x = loop.var
  · rw [hvar, Store.set_self, Store.set_self]
  · rw [σ.set_of_ne v hvar, ρ.set_of_ne v hvar, h.needs x hx hvar]

theorem shows_set (h : Ready loop loops inner env ρ σ) (v : V) :
    (σ.set loop.var v).Shows ((loop.var, v) :: env)
      (Stmt.assignedOfAll inner ++ loops.map Loop.var) := by
  intro x w hlookup hx
  by_cases hvar : x = loop.var
  · subst hvar
    rw [List.lookup_cons_self] at hlookup
    rw [Store.set_self, hlookup]
  · rw [List.lookup_cons, beq_false_of_ne hvar] at hlookup
    rw [σ.set_of_ne v hvar]
    apply h.shows x w hlookup
    simpa [hvar] using hx

/-- A turn leaves things ready for the next one. -/
theorem of_run {I : Interpretation V} {condition : Option String} {f : Flow} {v : V}
    (h : Ready loop loops inner env ρ σ) (hapart : Apart (loop :: loops))
    (hchanged : ∀ x ∈ Stmt.assignedOfAll inner, x ∉ Loop.needs loops)
    (hrun : Stmt.runAll I (Loop.nest condition loops inner) (σ.set loop.var v) = some (f, σ')) :
    Ready loop loops inner env ρ σ' := by
  have hkeep : ∀ x, x ∉ Stmt.assignedOfAll inner → x ∉ (loop :: loops).map Loop.var →
      σ' x = σ x := by
    intro x hinner hvars
    rw [List.map_cons, List.mem_cons, not_or] at hvars
    have hnest : x ∉ Stmt.assignedOfAll (Loop.nest condition loops inner) := by
      rw [mem_assigned_nest, not_or]
      exact ⟨hvars.2, hinner⟩
    rw [Stmt.eq_of_runAll hnest hrun, σ.set_of_ne v hvars.1]
  constructor
  · intro x hx hvar
    have hvars : x ∉ (loop :: loops).map Loop.var :=
      List.not_mem_cons_of_ne_of_not_mem hvar (hapart.1 x hx hvar)
    rw [hkeep x (fun hinner => hchanged x hinner hx) hvars, h.needs x hx hvar]
  · intro x w hlookup hx
    have haside := hx
    rw [List.mem_append, not_or] at haside
    rw [hkeep x haside.1 haside.2, h.shows x w hlookup hx]

end Loop.Ready

section Nest

variable {I : Interpretation V} {vars names : List String} {condition : Option String}
  {inner : List Stmt} {note : List V → V → Move V} {gives : List V → Option V → Prop}
  {passes : V → Bool} {Good : List V → Store V → Prop} {Failed : V → Store V → Prop}

/-- Stages that have been visited and passed may come before a course. -/
theorem Course.after {place before values : List V} {visited visits : List (Visit V)}
    {moves moves' : List (Move V)} {result : Option (Flow × Store V)}
    (hmade : Visit.Made note gives visited values moves) (hpass : ∀ v ∈ values, passes v = true)
    (h : Course note gives passes Good Failed place (before ++ values) visits moves' result) :
    Course note gives passes Good Failed place before (visited ++ visits) (moves ++ moves')
      result := by
  have hall {values' : List V} (h : ∀ v ∈ values', passes v = true) :
      ∀ v ∈ values ++ values', passes v = true := by
    intro v hv
    exact (List.mem_append.1 hv).elim (hpass v) (h v)
  cases h with
  | complete hmade' hpass' hgood =>
      rw [List.append_assoc] at hgood
      exact .complete (hmade.append hmade') (hall hpass') hgood
  | fail hp hvisits hmade' hpass' hv hfail hfailed =>
      rw [hvisits, ← List.append_assoc, ← List.append_assoc]
      exact .fail hp rfl (hmade.append hmade') (hall hpass') hv hfail hfailed
  | raise hvisits hmade' hpass' hstage =>
      rw [hvisits, ← List.append_assoc]
      exact .raise rfl (hmade.append hmade') (hall hpass') hstage

/-- A loop around a block that goes along stages goes along the stages of its turns. -/
theorem Loop.course_turns
    (hinner : Loop.Conducts I vars names condition inner note gives passes Good Failed)
    {block : List Stmt} {var : String} {place : List V} {stages : V → List (Visit V)}
    (Inv : Store V → Prop) (hdepth : place.length < vars.length)
    (hblock : ∀ {v before σ}, Inv σ → Good before σ →
      Course note gives passes Good Failed (place ++ [v]) before (stages v)
        ((Stmt.recordAll I block (place ++ [v]) (σ.set var v)).own vars.length names)
        (Stmt.recordAll I block (place ++ [v]) (σ.set var v)).result)
    (hkeep : ∀ {v σ f σ'}, Inv σ →
      (Stmt.recordAll I block (place ++ [v]) (σ.set var v)).result = some (f, σ') → Inv σ')
    (vs : List V) {before : List V} {σ : Store V} (hinv : Inv σ) (hgood : Good before σ) :
    Course note gives passes Good Failed place before
      (vs.flatMap fun v => .enter (place ++ [v]) :: stages v)
      ((recordLoop (fun place σ => Stmt.recordAll I (block ++ exits condition) place σ)
        var place vs σ).own vars.length names)
      ((recordLoop (fun place σ => Stmt.recordAll I (block ++ exits condition) place σ)
        var place vs σ).result.map (Flow.next, ·)) := by
  induction vs generalizing before σ with
  | nil => exact .complete .nil nofun (by rwa [List.append_nil])
  | cons v vs ih =>
      have hturn : (Recorded.note (.turn (place ++ [v]))).own vars.length names =
          [.turn (place ++ [v])] := by
        simp [Recorded.own, Move.isOwn, Nat.succ_le_of_lt hdepth]
      have hcourse := hblock (v := v) hinv hgood
      have hinv' : ∀ f σ', (Stmt.recordAll I block (place ++ [v]) (σ.set var v)).result =
          some (f, σ') → Inv σ' := fun f σ' => hkeep hinv
      rw [recordLoop, List.flatMap_cons, Stmt.recordAll_append]
      -- Of the block in the turn only its course matters from here on.
      generalize Stmt.recordAll I block (place ++ [v]) (σ.set var v) = x at hcourse hinv' ⊢
      generalize hown : x.own vars.length names = own at hcourse
      generalize hresult : x.result = result at hcourse
      cases hcourse with
      | complete hmade hpass hgood' =>
          simp only [Recorded.own_bind, Recorded.result_bind, Recorded.result_note, hturn, hown,
            hresult, hinner.go_on _ hgood', Recorded.own_pure, Recorded.result_pure,
            Option.elim_some, Option.bind_some, List.append_nil]
          rw [← List.append_assoc]
          exact Course.after hmade.enter hpass (ih (hinv' _ _ hresult) hgood')
      | @fail visited p tuple rest values moves w σ' hp hvisits hmade hpass hv hfail hfailed =>
          -- This loop is left as well, after the loops inside of it.
          have hleave : Recorded.own vars.length names
              (⟨[.leave (place ++ [v])], some (Flow.leave, σ')⟩ : Recorded V (Flow × Store V)) =
                [.leave (place ++ [v])] := by
            simp [Recorded.own, Move.isOwn, Nat.succ_le_of_lt hdepth]
          simp only [Recorded.own_bind, Recorded.result_bind, Recorded.result_note, hturn, hown,
            hresult, hinner.stop _ hfailed, hleave, Recorded.own_pure, Recorded.result_pure,
            Option.elim_some, Option.bind_some, List.append_nil]
          have hplace : p = place ++ v :: tuple := by rw [hp, List.append_assoc]; rfl
          have hmoves : [.turn (place ++ [v])] ++ (moves ++ note p w ::
              Move.leaves (place ++ [v]) tuple ++ [.leave (place ++ [v])]) =
              (.turn (place ++ [v]) :: moves) ++ note p w :: Move.leaves place (v :: tuple) := by
            simp [Move.leaves]
          rw [hmoves, hvisits, List.cons_append, List.append_assoc]
          exact .fail hplace rfl hmade.enter hpass hv hfail hfailed
      | raise hvisits hmade hpass hstage =>
          simp only [Recorded.own_bind, Recorded.result_bind, Recorded.result_note, hturn, hown,
            hresult, Option.elim_some, Option.elim_none, Option.bind_some, Option.bind_none,
            List.append_nil]
          rw [hvisits, List.cons_append, List.append_assoc]
          exact .raise rfl hmade.enter hpass hstage

/-- Nested loops go along the stages of the iteration. -/
theorem Loop.course_nest
    (hinner : Loop.Conducts I vars names condition inner note gives passes Good Failed)
    {loops : List Loop} {env : List (String × V)} {before : List V} {ρ σ : Store V}
    (hvars : (env.map Prod.fst).reverse ++ loops.map Loop.var = vars)
    (hlocal : ∀ loop ∈ loops, ∀ σ σ' : Store V, (∀ x ∈ loop.source.names, σ x = σ' x) →
      I.eval σ loop.source = I.eval σ' loop.source)
    (hapart : Apart loops)
    (hchanged : ∀ x ∈ Stmt.assignedOfAll inner, ∀ loop ∈ loops, x ∉ loop.source.names)
    (hρ : ∀ x ∈ needs loops, σ x = ρ x)
    (hshows : σ.Shows env (Stmt.assignedOfAll inner ++ loops.map Loop.var))
    (hgood : Good before σ) :
    Course note gives passes Good Failed (placeOf env) before
      (Loop.visits I loops (placeOf env) ρ)
      ((Stmt.recordAll I (Loop.nest condition loops inner) (placeOf env) σ).own vars.length names)
      (Stmt.recordAll I (Loop.nest condition loops inner) (placeOf env) σ).result := by
  -- `ρ` is the store of the iteration and `σ` that of the run. They need to agree only on what
  -- the collections still to come take from outside.
  induction loops generalizing env before ρ σ with
  | nil =>
      rw [List.map_nil, List.append_nil] at hvars hshows
      rw [Loop.nest, Loop.visits]
      rcases hinner.run hvars hgood hshows with ⟨hown, hresult, hgives⟩ |
        ⟨v, σ', hown, hresult, hgives, hpass, hfail⟩
      · rw [hown, hresult]
        exact .raise rfl .nil (List.forall_mem_nil _) (.inr ⟨_, rfl, hgives⟩)
      · rw [hown, hresult]
        cases hv : passes v with
        | true =>
            exact .complete (.reach hgives .nil) (by simpa using hv) (hpass hv)
        | false =>
            exact .fail (List.append_nil _).symm rfl .nil (List.forall_mem_nil _) hgives hv
              (hfail hv)
  | cons loop loops ih =>
      have hvar : loop.var ∈ vars := by simp [← hvars]
      have hsource : I.eval σ loop.source = I.eval ρ loop.source :=
        hlocal loop List.mem_cons_self σ ρ fun x hx => hρ x (List.mem_append_left _ hx)
      rw [Loop.nest, Loop.visits, ← hsource]
      cases hitems : (I.eval σ loop.source).bind I.items with
      | none =>
          rw [Stmt.recordAll_forIn_of_none hitems]
          exact .raise rfl .nil (List.forall_mem_nil _) (.inl ⟨_, rfl⟩)
      | some vs =>
          have hdepth : (placeOf env).length < vars.length := by
            simp [placeOf, ← hvars]
          have hloops : ∀ x ∈ Stmt.assignedOfAll inner, ∀ l ∈ loops, x ∉ l.source.names :=
            fun x hx l hl => hchanged x hx l (List.mem_cons_of_mem loop hl)
          have hneeds : ∀ x ∈ Stmt.assignedOfAll inner, x ∉ needs loops := by
            intro x hx hmem
            obtain ⟨l, hl, hsource⟩ := mem_names_of_mem_needs hmem
            exact hloops x hx l hl hsource
          have hready : Ready loop loops inner env ρ σ := by
            refine ⟨fun x hx hvar => hρ x (List.mem_append_right _ ?_), hshows⟩
            exact List.mem_filter.2 ⟨hx, by simpa using hvar⟩
          rw [Stmt.recordAll_forIn_of_some hitems, Recorded.own_bind_pure,
            Recorded.result_bind_pure]
          -- What every turn of this loop starts from is `Ready`; inside of a turn there is one loop
          -- less.
          refine Loop.course_turns hinner (Ready loop loops inner env ρ) hdepth ?_ ?_ vs hready
            hgood
          · intro v before σ hready hgood
            rw [← placeOf_cons loop.var]
            refine ih ?_ (fun l hl => hlocal l (List.mem_cons_of_mem loop hl)) hapart.2 hloops
              (hready.needs_set v) (hready.shows_set v) ?_
            · simpa using hvars
            · exact hinner.good_set (hinner.disjoint _ hvar) hgood
          · intro v σ f σ' hready hresult
            rw [Stmt.result_recordAll] at hresult
            exact hready.of_run hapart hneeds hresult

/-- What a block makes of an expression after it. -/
def Stmt.outcome (I : Interpretation V) (stmts : List Stmt) (c : Code) (σ : Store V) :
    Option V := do
  let (_, σ') ← runAll I stmts σ
  I.eval σ' c

/-- Some run of a block for a tuple, with the variables at the items of the tuple as far as
the block itself does not change them, has this outcome. -/
def Stmt.Gives (I : Interpretation V) (vars : List String) (stmts : List Stmt) (c : Code)
    (tuple : List V) (v : Option V) : Prop :=
  ∃ σ : Store V, σ.Shows (vars.zip tuple).reverse (assignedOfAll stmts) ∧
    outcome I stmts c σ = v

/-- A block makes no moves of its own loops around it, nor about names that it leaves alone. -/
theorem Stmt.own_recordAll_eq_nil {stmts : List Stmt} (hbreak : ∀ s ∈ stmts, s.isBreak = false)
    (hnames : ∀ n ∈ assignedOfAll stmts, n ∉ names) (place : List V) (σ : Store V) :
    (recordAll I stmts place σ).own place.length names = [] := by
  refine List.filter_eq_nil_iff.2 fun m hm => ?_
  have hinside := inside_recordAll (.inr ⟨rfl, hbreak⟩) hm
  rw [hinside.isOwn_eq_false hnames]
  nofun

theorem zip_placeOf (env : List (String × V)) :
    ((env.map Prod.fst).reverse.zip (placeOf env)).reverse = env := by
  rw [placeOf, ← List.map_reverse, ← List.map_reverse, List.zip_map', List.map_id',
    List.reverse_reverse]

/-- A block whose value is noted by a statement after it conducts nested loops. -/
theorem Loop.Conducts.of_body {stmts : List Stmt} {c : Code} {last : Stmt}
    (hvars : ∀ x ∈ vars, x ∉ names) (hbreak : ∀ s ∈ stmts, s.isBreak = false)
    (hstmts : ∀ n ∈ Stmt.assignedOfAll stmts, n ∉ names)
    (hassigned : ∀ n ∈ last.assigned, n ∈ names)
    (hnote : ∀ place v, (note place v).isOwn vars.length names = true)
    (hgood : ∀ {before σ σ'}, (∀ n ∈ names, σ' n = σ n) → Good before σ → Good before σ')
    (hlast : ∀ {before σ} place, Good before σ →
      (I.eval σ c = none ∧ Stmt.recordAll I [last] place σ = ⟨[], none⟩) ∨
      ∃ v σ', I.eval σ c = some v ∧
        Stmt.recordAll I [last] place σ = ⟨[note place v], some (.next, σ')⟩ ∧
        (passes v = true → Good (before ++ [v]) σ') ∧ (passes v = false → Failed v σ'))
    (hgo : ∀ {before σ} place, Good before σ →
      Stmt.recordAll I (exits condition) place σ = pure (.next, σ))
    (hstop : ∀ {v σ} place, Failed v σ →
      Stmt.recordAll I (exits condition) place σ = ⟨[.leave place], some (.leave, σ)⟩) :
    Loop.Conducts I vars names condition (stmts ++ [last]) note (Stmt.Gives I vars stmts c) passes
      Good Failed where
  disjoint := hvars
  good_set := by
    intro before σ x v hx hσ
    refine hgood (fun n hn => ?_) hσ
    exact σ.set_of_ne v fun heq => hx (heq ▸ hn)
  run := by
    intro before env σ henv hσ hshows
    have hlength : (placeOf env).length = vars.length := by simp [placeOf, ← henv]
    have hown := Stmt.own_recordAll_eq_nil (I := I) hbreak hstmts (placeOf env) σ
    -- The statement after the block changes own variables only, and no loop variable is one of
    -- them.
    have hshows' : σ.Shows (vars.zip (placeOf env)).reverse (Stmt.assignedOfAll stmts) := by
      rw [← henv, zip_placeOf]
      intro x v hlookup hx
      obtain ⟨inner, outer, heq, -⟩ := List.lookup_eq_some_iff.1 hlookup
      have hxvars : x ∈ vars := by simp [← henv, heq]
      have hxlast : x ∉ last.assigned := fun hmem => hvars x hxvars (hassigned x hmem)
      apply hshows x v hlookup
      simp [Stmt.assignedOfAll, hx, hxlast]
    rw [hlength] at hown
    rw [Stmt.recordAll_append, Recorded.own_bind, Recorded.result_bind, hown,
      Stmt.result_recordAll]
    cases hrun : Stmt.runAll I stmts σ with
    | none => exact .inl ⟨rfl, rfl, σ, hshows', by rw [Stmt.outcome, hrun]; rfl⟩
    | some ending =>
        obtain ⟨f, σ₁⟩ := ending
        obtain rfl := Stmt.flow_of_runAll hbreak hrun
        have houtcome : Stmt.outcome I stmts c σ = I.eval σ₁ c := by rw [Stmt.outcome, hrun]; rfl
        have hσ₁ : Good before σ₁ :=
          hgood (fun n hn => Stmt.eq_of_runAll (fun h => hstmts n h hn) hrun) hσ
        rcases hlast (placeOf env) hσ₁ with ⟨hc, hrecord⟩ | ⟨v, σ', hc, hrecord, hpass, hfail⟩
        · left
          simp only [Option.elim_some, Option.bind_some, hrecord]
          exact ⟨rfl, trivial, σ, hshows', by rw [houtcome, hc]⟩
        · right
          simp only [Option.elim_some, Option.bind_some, hrecord]
          refine ⟨v, σ', ?_, rfl, ⟨σ, hshows', by rw [houtcome, hc]⟩, hpass, hfail⟩
          exact List.filter_cons_of_pos (hnote _ v)
  go_on := hgo
  stop := hstop

end Nest

namespace Interpretation

/-- The value of an expression depends on the names in it only. -/
def ReadsOnly (I : Interpretation V) (c : Code) : Prop :=
  ∀ σ σ' : Store V, (∀ x ∈ c.names, σ x = σ' x) → I.eval σ c = I.eval σ' c

/-- Conjunctions are evaluated from the left, as far as needed. -/
structure Conjoins (I : Interpretation V) (yes : V) : Prop where
  eval_yes : ∀ σ, I.eval σ .yes = some yes
  truth_yes : I.truth yes = true
  eval_name : ∀ σ n, I.eval σ (.name n) = σ n
  eval_and : ∀ {σ a v} b, I.eval σ a = some v →
    I.eval σ (.binary a (.logic .and) b) = if I.truth v then I.eval σ b else some v

/-- Lists can be built up from the empty one. -/
structure Collects (I : Interpretation V) (ofList : List V → V) : Prop where
  eval_nil : ∀ σ, I.eval σ (.list []) = some (ofList [])
  append_ofList : ∀ vs v, I.append (ofList vs) v = some (ofList (vs ++ [v]))

end Interpretation

/-- The names of loops are kept apart: their body changes neither own variables nor names
in the collections, and the loops themselves change no own variables and none of the names
that their collections take from outside. -/
structure Loop.NamesApart (own : List String) (loops : List Loop) (stmts : List Stmt) : Prop where
  body_own : ∀ x ∈ Stmt.assignedOfAll stmts, x ∉ own
  body_sources : ∀ x ∈ Stmt.assignedOfAll stmts, ∀ loop ∈ loops, x ∉ loop.source.names
  vars_own : ∀ loop ∈ loops, loop.var ∉ own
  sources_own : ∀ loop ∈ loops, ∀ x ∈ loop.source.names, x ∉ own
  apart : Apart loops

section Bodies

variable {I : Interpretation V} {vars : List String} {stmts : List Stmt}

theorem Loop.conducts_conjunction {yes : V} (hI : I.Conjoins yes) {r : String}
    (hvars : r ∉ vars) (hbreak : ∀ s ∈ stmts, s.isBreak = false)
    (hstmts : r ∉ Stmt.assignedOfAll stmts) (c : Code) :
    Loop.Conducts I vars [r] (some r)
      (stmts ++ [.set r (.binary (.name r) (.logic .and) c)]) (.write · r ·)
      (Stmt.Gives I vars stmts c) I.truth (fun _ σ => ∃ v, σ r = some v ∧ I.truth v = true)
      (fun v σ => σ r = some v ∧ I.truth v = false) := by
  have hexit : ∀ {σ : Store V} {v : V} (place : List V), σ r = some v →
      Stmt.recordAll I (exits (some r)) place σ =
        if I.truth v then pure (.next, σ) else ⟨[.leave place], some (.leave, σ)⟩ := by
    intro σ v place hv
    change Stmt.recordAll I [.breakUnless (.name r)] place σ = _
    rw [Stmt.recordAll_singleton, Stmt.record_breakUnless place ((hI.eval_name σ r).trans hv)]
  refine .of_body ?_ hbreak ?_ ?_ ?_ ?_ ?_ ?_ ?_
  · intro x hx hmem
    exact hvars (List.mem_singleton.1 hmem ▸ hx)
  · intro n hn hmem
    exact hstmts (List.mem_singleton.1 hmem ▸ hn)
  · intro n hn
    exact hn
  · intro place v
    simp [Move.isOwn]
  · rintro before σ σ' hsame ⟨v, hv, htrue⟩
    exact ⟨v, (hsame r List.mem_cons_self).trans hv, htrue⟩
  · rintro before σ place ⟨v, hv, htrue⟩
    -- The conjunction has held so far, so it takes the value of the condition.
    have heval : I.eval σ (.binary (.name r) (.logic .and) c) = I.eval σ c := by
      rw [hI.eval_and c ((hI.eval_name σ r).trans hv), if_pos htrue]
    rw [Stmt.recordAll_singleton]
    cases hc : I.eval σ c with
    | none => exact .inl ⟨rfl, Stmt.record_set_of_none place (heval.trans hc)⟩
    | some w =>
        refine .inr ⟨w, _, rfl, Stmt.record_set_of_some place (heval.trans hc), ?_, ?_⟩
        · exact fun htrue => ⟨w, Store.set_self σ r w, htrue⟩
        · exact fun hfalse => ⟨Store.set_self σ r w, hfalse⟩
  · rintro before σ place ⟨v, hv, htrue⟩
    rw [hexit place hv, if_pos htrue]
  · rintro v σ place ⟨hv, hfalse⟩
    rw [hexit place hv, hfalse, if_neg (by decide)]

theorem Loop.conducts_collection {ofList : List V → V} (hI : I.Collects ofList) {r list : String}
    (hvars : ∀ x ∈ vars, x ∉ [r, list]) (hbreak : ∀ s ∈ stmts, s.isBreak = false)
    (hstmts : ∀ x ∈ Stmt.assignedOfAll stmts, x ∉ [r, list]) (c : Code) :
    Loop.Conducts I vars [r, list] none (stmts ++ [.append (.name list) c]) (.append · list ·)
      (Stmt.Gives I vars stmts c) (fun _ => true) (fun vs σ => σ list = some (ofList vs))
      (fun _ _ => False) := by
  refine .of_body hvars hbreak hstmts ?_ ?_ ?_ ?_ ?_ ?_
  · intro n hn
    exact List.mem_cons_of_mem r hn
  · intro place v
    simp [Move.isOwn]
  · intro before σ σ' hsame hlist
    exact (hsame list (by simp)).trans hlist
  · intro before σ place hlist
    rw [Stmt.recordAll_singleton]
    cases hc : I.eval σ c with
    | none => exact .inl ⟨rfl, Stmt.record_append_of_none place hlist hc⟩
    | some w =>
        have hstep := Stmt.record_append_of_some place hlist hc (hI.append_ofList before w)
        exact .inr ⟨w, _, rfl, hstep, fun _ => Store.set_self σ list _, nofun⟩
  · intro before σ place _
    rfl
  · nofun

variable {loops : List Loop} {ρ σ : Store V}

/-- From a store that differs from that of the iteration in own variables only, loops whose
names are kept apart go along the whole iteration. -/
theorem Loop.course_of_conducts {own : List String} {condition : Option String} {last : Stmt}
    {note : List V → V → Move V} {gives : List V → Option V → Prop} {passes : V → Bool}
    {Good : List V → Store V → Prop} {Failed : V → Store V → Prop}
    (hconducts : Loop.Conducts I (loops.map Loop.var) own condition (stmts ++ [last]) note gives
      passes Good Failed)
    (hlast : ∀ n ∈ last.assigned, n ∈ own) (hreads : ∀ loop ∈ loops, I.ReadsOnly loop.source)
    (hapart : Loop.NamesApart own loops stmts) (hσ : ∀ x, x ∉ own → σ x = ρ x)
    (hgood : Good [] σ) :
    Course note gives passes Good Failed [] [] (Loop.visits I loops [] ρ)
      ((Stmt.recordAll I (Loop.nest condition loops (stmts ++ [last])) [] σ).own loops.length own)
      (Stmt.runAll I (Loop.nest condition loops (stmts ++ [last])) σ) := by
  have hchanged : ∀ x ∈ Stmt.assignedOfAll (stmts ++ [last]), ∀ loop ∈ loops,
      x ∉ loop.source.names := by
    intro x hx loop hloop hsource
    rw [Stmt.assignedOfAll_append, List.mem_append] at hx
    rcases hx with hx | hx
    · exact hapart.body_sources x hx loop hloop hsource
    · rw [Stmt.assignedOfAll, Stmt.assignedOfAll, List.append_nil] at hx
      exact hapart.sources_own loop hloop x hsource (hlast x hx)
  have hneeds : ∀ x ∈ Loop.needs loops, σ x = ρ x := by
    intro x hx
    obtain ⟨loop, hloop, hsource⟩ := Loop.mem_names_of_mem_needs hx
    exact hσ x (hapart.sources_own loop hloop x hsource)
  have hshows : σ.Shows [] (Stmt.assignedOfAll (stmts ++ [last]) ++ loops.map Loop.var) := nofun
  have hcourse := Loop.course_nest hconducts rfl hreads hapart.apart hchanged hneeds hshows hgood
  rw [List.length_map, Stmt.result_recordAll] at hcourse
  exact hcourse

/-- The code of a running conjunction tests the tuples of the iteration in turn. -/
theorem Loop.course_conjunction {yes : V} (hI : I.Conjoins yes)
    (hreads : ∀ loop ∈ loops, I.ReadsOnly loop.source) {r : String}
    (hapart : Loop.NamesApart [r] loops stmts) (hbreak : ∀ s ∈ stmts, s.isBreak = false)
    (c : Code) {code : List Stmt} (hcode : code = .set r .yes :: Loop.nest (some r) loops
      (stmts ++ [.set r (.binary (.name r) (.logic .and) c)])) (σ : Store V) :
    ∃ moves, (Stmt.recordAll I code [] σ).own loops.length [r] = .write [] r yes :: moves ∧
      Course (.write · r ·) (Stmt.Gives I (loops.map Loop.var) stmts c) I.truth
        (fun _ σ => ∃ v, σ r = some v ∧ I.truth v = true)
        (fun v σ => σ r = some v ∧ I.truth v = false) [] [] (Loop.visits I loops [] σ) moves
        (Stmt.runAll I code σ) := by
  have hvars : r ∉ loops.map Loop.var := by
    intro hmem
    obtain ⟨loop, hloop, rfl⟩ := List.mem_map.1 hmem
    exact hapart.vars_own loop hloop List.mem_cons_self
  have hstmts : r ∉ Stmt.assignedOfAll stmts := fun h => hapart.body_own r h List.mem_cons_self
  have hσ : ∀ x, x ∉ [r] → σ.set r yes x = σ x :=
    fun x hx => σ.set_of_ne yes (List.ne_of_not_mem_cons hx)
  have hcourse := Loop.course_of_conducts (Loop.conducts_conjunction hI hvars hbreak hstmts c)
    (fun n hn => hn) hreads hapart hσ ⟨yes, Store.set_self σ r yes, hI.truth_yes⟩
  rw [hcode, Stmt.runAll_cons_of_next (Stmt.run_set (hI.eval_yes σ))]
  refine ⟨_, ?_, hcourse⟩
  rw [Stmt.recordAll, Recorded.own_bind, Stmt.record_set_of_some [] (hI.eval_yes σ)]
  simp [Recorded.own, Move.isOwn]

theorem Stmt.record_append_set {b : List Stmt} (hb : ∀ s ∈ b, s.isBreak = false) (depth : Nat)
    {names : List String} {r : String} (hr : r ∈ names) (c : Code) (place : List V)
    (σ : Store V) :
    (recordAll I (b ++ [.set r c]) place σ).own depth names =
        (recordAll I b place σ).own depth names ++
          ((runAll I b σ).bind fun ending => I.eval ending.2 c).toList.map (.write place r) ∧
      runAll I (b ++ [.set r c]) σ = (runAll I b σ).bind fun ending =>
        (I.eval ending.2 c).map fun v => (.next, ending.2.set r v) := by
  rw [← result_recordAll (b ++ [Stmt.set r c]) place, recordAll_append, Recorded.own_bind,
    Recorded.result_bind, result_recordAll]
  cases hrun : runAll I b σ with
  | none => exact ⟨rfl, rfl⟩
  | some ending =>
      obtain ⟨f, σ'⟩ := ending
      obtain rfl := flow_of_runAll hb hrun
      simp only [Option.elim_some, Option.bind_some, recordAll_singleton]
      cases hc : I.eval σ' c with
      | none => simp [record_set_of_none place hc, Recorded.own]
      | some v => simp [record_set_of_some place hc, Recorded.own, Move.isOwn, hr]

/-- The code of a collection takes the tuples of the iteration in turn, and combines the
values of all of them. -/
theorem Loop.course_collection {ofList : List V → V} (hI : I.Collects ofList)
    (hreads : ∀ loop ∈ loops, I.ReadsOnly loop.source) {r list : String}
    (hapart : Loop.NamesApart [r, list] loops stmts) (hbreak : ∀ s ∈ stmts, s.isBreak = false)
    (c combined : Code) {code : List Stmt} (hcode : code = .set list (.list []) ::
      Loop.nest none loops (stmts ++ [.append (.name list) c]) ++ [.set r combined])
    (σ : Store V) :
    ∃ moves result,
      Course (.append · list ·) (Stmt.Gives I (loops.map Loop.var) stmts c) (fun _ => true)
        (fun vs σ => σ list = some (ofList vs)) (fun _ _ => False) [] []
        (Loop.visits I loops [] σ) moves result ∧
      (Stmt.recordAll I code [] σ).own loops.length [r, list] =
        .write [] list (ofList []) :: moves ++
          (result.bind fun ending => I.eval ending.2 combined).toList.map (.write [] r) ∧
      Stmt.runAll I code σ = result.bind fun ending =>
        (I.eval ending.2 combined).map fun v => (.next, ending.2.set r v) := by
  have hvars : ∀ x ∈ loops.map Loop.var, x ∉ [r, list] := by
    intro x hx
    obtain ⟨loop, hloop, rfl⟩ := List.mem_map.1 hx
    exact hapart.vars_own loop hloop
  have hσ : ∀ x, x ∉ [r, list] → σ.set list (ofList []) x = σ x := by
    intro x hx
    exact σ.set_of_ne _ fun heq => hx (heq ▸ List.mem_cons_of_mem r List.mem_cons_self)
  have hcourse := Loop.course_of_conducts
    (Loop.conducts_collection hI hvars hbreak hapart.body_own c)
    (fun n hn => List.mem_cons_of_mem r hn) hreads hapart hσ (Store.set_self σ list _)
  refine ⟨_, _, hcourse, ?_⟩
  have hnest : ∀ s ∈ Loop.nest none loops (stmts ++ [.append (.name list) c]),
      s.isBreak = false :=
    Loop.isBreak_nest (List.forall_mem_append.2 ⟨hbreak, List.forall_mem_singleton.2 rfl⟩) _ _
  have hr : r ∈ [r, list] := List.mem_cons_self
  obtain ⟨hown, hrun⟩ := Stmt.record_append_set hnest loops.length hr combined []
    (σ.set list (ofList []))
  rw [hcode, List.cons_append, Stmt.runAll_cons_of_next (Stmt.run_set (hI.eval_nil σ)),
    Stmt.recordAll, Recorded.own_bind, Stmt.record_set_of_some [] (hI.eval_nil σ)]
  refine ⟨?_, hrun⟩
  simp only [Option.elim_some, hown]
  simp [Recorded.own, Move.isOwn]

end Bodies

/-- Only in loops do lowered clauses leave anything. -/
theorem Clause.Emits.isBreak_eq_false {target : Target} {ctx : Context} {c : Clause}
    {mode : Mode} {stmts : List Stmt} {v : Verdict} {k : Nat}
    (h : c.Emits target ctx mode stmts v k) : ∀ s ∈ stmts, s.isBreak = false := by
  have hsnoc {a : List Stmt} (ha : ∀ s ∈ a, s.isBreak = false) {last : Stmt}
      (hlast : last.isBreak = false) : ∀ s ∈ a ++ [last], s.isBreak = false :=
    List.forall_mem_append.2 ⟨ha, List.forall_mem_singleton.2 hlast⟩
  induction h with
  | forAll _ _ _ ih | probabilityOverItems _ _ _ _ ih =>
      exact List.forall_mem_cons.2 ⟨rfl, Loop.isBreak_nest (hsnoc ih rfl) _ _⟩
  | forAllTests _ _ _ ih =>
      exact hsnoc (List.forall_mem_cons.2 ⟨rfl, Loop.isBreak_nest (hsnoc ih rfl) _ _⟩) rfl
  | letIn _ _ ih => exact List.forall_mem_cons.2 ⟨rfl, ih⟩
  | membershipList | membershipMap | compare => nofun
  | approx | expectation => exact List.forall_mem_singleton.2 rfl
  | probability => exact List.forall_mem_cons.2 ⟨rfl, List.forall_mem_singleton.2 rfl⟩
  | expectationOverItems =>
      refine hsnoc (List.forall_mem_cons.2 ⟨rfl, ?_⟩) rfl
      exact Loop.isBreak_nest (List.forall_mem_singleton.2 rfl) _ _
  | logic _ _ ih₁ ih₂ => exact List.forall_mem_append.2 ⟨ih₁, ih₂⟩
  | not _ ih => exact ih

/-- A lowered quantifier goes through the tuples of its nested iteration in turn, if its
names are kept apart. Unless its body tests over runs, it sets its result at each tuple to
the condition of the body, up to the first that is false, where it leaves all loops. If the
body tests over runs, it adds one p-value to its list at every tuple, and then sets its
result to what the whole list combines to. -/
theorem Clause.forAll_goes_in_turn {target : Target} {mode : Mode} {ctx ctx' : Context}
    {span : Span} {ranges : List Range} {body : Clause} {v : Verdict}
    (h : ((Clause.forAll span ranges body).lower target mode).exec ctx = (.ok v, ctx')) :
    (body.domain ≠ .overRuns → ∃ r loops inner stmts holds k code,
      r = tempName ctx.temps ∧ v = .ofCondition mode (.name r) ∧ ctx' = ctx.extend k code ∧
      Range.Opens (ctx.bare.withTemps (ctx.temps + 1)).push ranges loops inner ∧
      body.Emits target inner .boolean stmts holds k ∧
      ∀ {V : Type} (I : Interpretation V) (yes : V) (σ : Store V), I.Conjoins yes →
        (∀ loop ∈ loops, I.ReadsOnly loop.source) → Loop.NamesApart [r] loops stmts →
        ∃ moves, (Stmt.recordAll I code [] σ).own loops.length [r] = .write [] r yes :: moves ∧
          Course (.write · r ·) (Stmt.Gives I (loops.map Loop.var) stmts holds.code) I.truth
            (fun _ σ => ∃ v, σ r = some v ∧ I.truth v = true)
            (fun v σ => σ r = some v ∧ I.truth v = false) [] [] (Loop.visits I loops [] σ) moves
            (Stmt.runAll I code σ)) ∧
    (body.domain = .overRuns → ∃ r list loops inner stmts p k code,
      r = tempName ctx.temps ∧ list = tempName (ctx.temps + 1) ∧
      v = target.ofPValue mode (.name r) ∧ ctx' = ctx.extend k code ∧
      Range.Opens (ctx.bare.withTemps (ctx.temps + 2)).push ranges loops inner ∧
      body.Emits target inner .probability stmts p k ∧
      ∀ {V : Type} (I : Interpretation V) (ofList : List V → V) (σ : Store V),
        I.Collects ofList → (∀ loop ∈ loops, I.ReadsOnly loop.source) →
        Loop.NamesApart [r, list] loops stmts →
        ∃ moves result,
          Course (.append · list ·) (Stmt.Gives I (loops.map Loop.var) stmts p.code)
            (fun _ => true) (fun vs σ => σ list = some (ofList vs)) (fun _ _ => False) [] []
            (Loop.visits I loops [] σ) moves result ∧
          (Stmt.recordAll I code [] σ).own loops.length [r, list] =
            .write [] list (ofList []) :: moves ++ (result.bind fun ending =>
              I.eval ending.2 (target.library.combinePValues (.name list))).toList.map
                (.write [] r) ∧
          Stmt.runAll I code σ = result.bind fun ending =>
            (I.eval ending.2 (target.library.combinePValues (.name list))).map fun v =>
              (.next, ending.2.set r v)) := by
  obtain ⟨code, k, hemits, rfl⟩ := (Clause.exec_lower_eq_ok_iff _ _ _ _ _ _).1 h
  cases hemits with
  | @forAll _ inner _ _ _ _ loops stmts holds _ hdomain hranges hbody =>
      refine ⟨fun _ => ?_, fun htests => absurd htests hdomain⟩
      refine ⟨_, loops, inner, stmts, holds, k, _, rfl, rfl, rfl, hranges, hbody, ?_⟩
      intro V I yes σ hI hreads hapart
      exact Loop.course_conjunction hI hreads hapart hbody.isBreak_eq_false holds.code rfl σ
  | @forAllTests _ inner _ _ _ _ loops stmts p _ hdomain hranges hbody =>
      refine ⟨fun hnot => absurd hdomain hnot, fun _ => ?_⟩
      refine ⟨_, _, loops, inner, stmts, p, k, _, rfl, rfl, rfl, rfl, hranges, hbody, ?_⟩
      intro V I ofList σ hI hreads hapart
      exact Loop.course_collection hI hreads hapart hbody.isBreak_eq_false p.code _ rfl σ

/-- A clause for all elements of all rows of the input. -/
def forEachElement (body : Clause) : Clause :=
  .forAll .dummy [.mk .dummy "row" (.identifier {} "Input") .elements,
    .mk .dummy "x" (.identifier {} "row") .elements] body

def threeRows : Store Value := fun name =>
  if name = "Input" then some (.list [.list [.int 1], .list [], .list [.int 2, .int 0]]) else none

/-- The iteration over the elements of the three rows. -/
def threeRowsVisits : List (Visit Value) :=
  [.enter [.list [.int 1]], .enter [.list [.int 1], .int 1], .reach [.list [.int 1], .int 1],
    .enter [.list []], .enter [.list [.int 2, .int 0]],
    .enter [.list [.int 2, .int 0], .int 2], .reach [.list [.int 2, .int 0], .int 2],
    .enter [.list [.int 2, .int 0], .int 0], .reach [.list [.int 2, .int 0], .int 0]]

theorem Value.conjoins_interpretation (order : SetOrder) :
    (Value.interpretation order).Conjoins (.bool true) where
  eval_yes := fun σ => rfl
  truth_yes := rfl
  eval_name := fun σ n => rfl
  eval_and := by
    intro σ a v b h
    change (Code.binary a (.logic .and) b).eval order σ = _
    rw [Code.eval, show a.eval order σ = some v from h]
    rfl

/-- A meaning of the generated code in which all tests give the p-value 1. -/
def Value.certainTests : Interpretation Value :=
  { Value.interpretation .lastSeen with
    eval := fun σ c =>
      match c with
      | .name n => σ n
      | .list [] => some (.list [])
      | _ => some (.int 1) }

theorem Value.collects_certainTests : Value.certainTests.Collects .list where
  eval_nil := fun _ => rfl
  append_ofList := fun _ _ => rfl

/-- The code that finds whether all elements are positive. -/
def allPositiveCode : List Stmt :=
  [.set "t0" .yes,
    .forIn "row" (.name "Input")
      [.forIn "x" (.name "row")
        [.set "t0" (.binary (.name "t0") (.logic .and)
            (.group (.name "x") (.compare .gt) (.verbatim "0"))),
          .breakUnless (.name "t0")],
        .breakUnless (.name "t0")]]

/-- The code that tests whether the output is around all elements. -/
def aroundAllCode : List Stmt :=
  [.set "t1" (.list []),
    .forIn "row" (.name "Input")
      [.forIn "x" (.name "row")
        [.set "t2" (.comprehension (.binary (.name "t3") (.arith .sub) (.name "x")) "t3"
            (.name "Output")),
          .append (.name "t1") ((Target.library {}).wilcoxonPValue (.name "t2"))]],
    .set "t0" ((Target.library {}).combinePValues (.name "t1"))]

theorem Clause.forAll_goes_in_turn_threeRows :
    (((forEachElement (.compare .dummy (.identifier {} "x") .gt (.constant {} "0"))).lower {}
      .boolean).exec (Context.start ["Input"]) =
        (.ok (.boolean (.name "t0")), (Context.start ["Input"]).extend 1 allPositiveCode) ∧
    ∃ moves gives,
      (Stmt.recordAll (Value.interpretation .lastSeen) allPositiveCode [] threeRows).own 2 ["t0"] =
        .write [] "t0" (.bool true) :: moves ∧
      Course (.write · "t0" ·) gives Value.truth
        (fun _ σ => ∃ v, σ "t0" = some v ∧ v.truth = true)
        (fun v σ => σ "t0" = some v ∧ v.truth = false) [] [] threeRowsVisits moves
        (Stmt.runAll (Value.interpretation .lastSeen) allPositiveCode threeRows)) ∧
    ((forEachElement (.approx .dummy (.identifier {} "Output") (.identifier {} "x"))).lower {}
      .probability).exec (Context.start ["Input", "Output"]) =
        (.ok (.probability (.name "t0")),
          (Context.start ["Input", "Output"]).extend 4 aroundAllCode) ∧
    ∃ moves gives result,
      Course (.append · "t1" ·) gives (fun _ => true)
        (fun vs σ => σ "t1" = some (.list vs)) (fun _ _ => False) [] [] threeRowsVisits moves
        result ∧
      Stmt.runAll Value.certainTests aroundAllCode threeRows =
        result.map fun ending => (.next, ending.2.set "t0" (.int 1)) := by
  have hlower₁ : ((forEachElement (.compare .dummy (.identifier {} "x") .gt
      (.constant {} "0"))).lower {} .boolean).exec (Context.start ["Input"]) =
        (.ok (.boolean (.name "t0")), (Context.start ["Input"]).extend 1 allPositiveCode) := rfl
  have hlower₂ : ((forEachElement (.approx .dummy (.identifier {} "Output")
      (.identifier {} "x"))).lower {} .probability).exec (Context.start ["Input", "Output"]) =
        (.ok (.probability (.name "t0")),
          (Context.start ["Input", "Output"]).extend 4 aroundAllCode) := rfl
  have hreads {V : Type} (I : Interpretation V) (hI : ∀ σ n, I.eval σ (.name n) = σ n)
      (n : String) : I.ReadsOnly (.name n) := by
    intro σ σ' h
    rw [hI, hI, h n List.mem_cons_self]
  constructor
  · obtain ⟨r, loops, inner, stmts, holds, k, code, rfl, -, hctx, hopens, hemits, hcourse⟩ :=
      (Clause.forAll_goes_in_turn hlower₁).1 (by decide)
    obtain rfl : allPositiveCode = code := congrArg Context.block hctx
    cases hopens with | cons h₁ hopens => ?_
    cases hopens with | cons h₂ hopens => ?_
    cases hopens
    cases h₁
    cases h₂
    cases hemits
    obtain ⟨moves, hown, hmoves⟩ := hcourse (Value.interpretation .lastSeen) (.bool true)
      threeRows (Value.conjoins_interpretation _)
      (List.forall_mem_cons.2 ⟨hreads _ (fun _ _ => rfl) "Input",
        List.forall_mem_singleton.2 (hreads _ (fun _ _ => rfl) "row")⟩)
      ⟨nofun, nofun, by decide, by decide, by decide, by decide, trivial⟩
    exact ⟨hlower₁, moves, _, hown, hmoves⟩
  · obtain ⟨r, list, loops, inner, stmts, p, k, code, rfl, rfl, -, hctx, hopens, hemits,
      hcourse⟩ := (Clause.forAll_goes_in_turn hlower₂).2 (by decide)
    obtain rfl : aroundAllCode = code := congrArg Context.block hctx
    cases hopens with | cons h₁ hopens => ?_
    cases hopens with | cons h₂ hopens => ?_
    cases hopens
    cases h₁
    cases h₂
    cases hemits with | approx _ hvalue => ?_
    cases hvalue
    obtain ⟨moves, result, hmoves, -, hrun⟩ := hcourse Value.certainTests .list threeRows
      Value.collects_certainTests
      (List.forall_mem_cons.2 ⟨hreads _ (fun _ _ => rfl) "Input",
        List.forall_mem_singleton.2 (hreads _ (fun _ _ => rfl) "row")⟩)
      ⟨by decide, by decide, by decide, by decide, by decide, by decide, trivial⟩
    refine ⟨hlower₂, moves, _, result, hmoves, ?_⟩
    rw [hrun]
    cases result <;> rfl

end StatContract
