import StatContract.Proofs.Code.Execution

/-!
# Recorded runs

A recorded run notes what happens on the way, besides the outcome: which turns of
which loops begin, which variables get a value, which lists grow, and which loops
are left early. Each of these moves comes with its place, the items that the loops
around it are at. A run that fails still has the moves up to there.

`Stmt.result_recordAll` says that recording changes nothing, and
`Stmt.within_recordAll` which moves a block can make.
-/

namespace StatContract

variable {V α β : Type}

/-- What is noted of a run. -/
inductive Move (V : Type) where
  /-- A turn of a loop begins; the last item of the place is the one it is for. -/
  | turn (place : List V)
  | write (place : List V) (name : String) (v : V)
  /-- A list gets one more element. -/
  | append (place : List V) (name : String) (v : V)
  /-- A loop is left early, in the turn that the place says. -/
  | leave (place : List V)

/-- The move belongs to a loop below a depth, or is about one of the names. -/
def Move.Inside (depth : Nat) (names : List String) : Move V → Prop
  | turn place | leave place => depth < place.length
  | write _ name _ | append _ name _ => name ∈ names

theorem Move.Inside.mono {depth : Nat} {names names' : List String} {m : Move V}
    (h : m.Inside depth names) (hnames : ∀ n ∈ names, n ∈ names') : m.Inside depth names' := by
  cases m with
  | turn | leave => exact h
  | write _ name | append _ name => exact hnames name h

/-- The moves of a run, and its result if it has one. -/
structure Recorded (V α : Type) where
  moves : List (Move V)
  result : Option α

namespace Recorded

/-- Notes a move. -/
def note (m : Move V) : Recorded V Unit := ⟨[m], some ()⟩

instance : Monad (Recorded V) where
  pure a := ⟨[], some a⟩
  bind x f :=
    match x with
    | ⟨moves, none⟩ => ⟨moves, none⟩
    | ⟨moves, some a⟩ => ⟨moves ++ (f a).moves, (f a).result⟩

instance : MonadLift Option (Recorded V) := ⟨fun r => ⟨[], r⟩⟩

instance : LawfulMonad (Recorded V) := by
  refine LawfulMonad.mk' _ ?_ ?_ ?_
  · rintro α ⟨moves, _ | a⟩
    · rfl
    · exact congrArg (Recorded.mk · (some a)) (List.append_nil moves)
  · exact fun a f => rfl
  · rintro α β γ ⟨moves, _ | a⟩ f g
    · rfl
    · rcases h : f a with ⟨moves', _ | b⟩ <;> simp [bind, h, List.append_assoc]

@[simp] theorem moves_pure (a : α) : (pure a : Recorded V α).moves = [] := rfl

@[simp] theorem result_pure (a : α) : (pure a : Recorded V α).result = some a := rfl

@[simp] theorem moves_note (m : Move V) : (note m).moves = [m] := rfl

@[simp] theorem result_note (m : Move V) : (note m).result = some () := rfl

@[simp] theorem moves_lift (r : Option α) : (liftM r : Recorded V α).moves = [] := rfl

@[simp] theorem result_lift (r : Option α) : (liftM r : Recorded V α).result = r := rfl

theorem lift_some_bind (a : α) (f : α → Recorded V β) :
    ((liftM (some a) : Recorded V α) >>= f) = f a := rfl

theorem result_bind (x : Recorded V α) (f : α → Recorded V β) :
    (x >>= f).result = x.result.bind fun a => (f a).result := by
  obtain ⟨moves, _ | a⟩ := x <;> rfl

theorem bind_of_none {x : Recorded V α} (h : x.result = none) (f : α → Recorded V β) :
    x >>= f = ⟨x.moves, none⟩ := by
  obtain ⟨moves, result⟩ := x
  cases h
  rfl

theorem bind_of_some {x : Recorded V α} {a : α} (h : x.result = some a)
    (f : α → Recorded V β) : x >>= f = ⟨x.moves ++ (f a).moves, (f a).result⟩ := by
  obtain ⟨moves, result⟩ := x
  cases h
  rfl

theorem mem_moves_bind_iff {x : Recorded V α} {f : α → Recorded V β} {m : Move V} :
    m ∈ (x >>= f).moves ↔ m ∈ x.moves ∨ ∃ a, x.result = some a ∧ m ∈ (f a).moves := by
  cases hx : x.result with
  | none => simp [bind_of_none hx]
  | some a => simp [bind_of_some hx]

end Recorded

open Recorded

/-- What a loop body keeps, the loop keeps, its own variable aside. -/
theorem eq_of_runLoop {run : Store V → Option (Flow × Store V)} {x var : String} (hx : x ≠ var)
    (h : ∀ {σ σ' f}, run σ = some (f, σ') → σ' x = σ x) {vs : List V} {σ σ' : Store V}
    (hloop : runLoop run var vs σ = some σ') : σ' x = σ x := by
  induction vs generalizing σ with
  | nil =>
      cases hloop
      rfl
  | cons v vs ih =>
      rw [runLoop] at hloop
      rcases hrun : run (σ.set var v) with _ | ⟨_ | _, σ₁⟩ <;> rw [hrun] at hloop
      · cases hloop
      · rw [ih hloop, h hrun, σ.set_of_ne v hx]
      · cases hloop
        rw [h hrun, σ.set_of_ne v hx]

/-- Records a loop over items. -/
def recordLoop (body : List V → Store V → Recorded V (Flow × Store V)) (var : String)
    (place : List V) : List V → Store V → Recorded V (Store V)
  | [], σ => pure σ
  | v :: vs, σ => do
    note (.turn (place ++ [v]))
    match ← body (place ++ [v]) (σ.set var v) with
    | (.next, σ') => recordLoop body var place vs σ'
    | (.leave, σ') => pure σ'

/-- The moves of a loop are the beginnings of its turns and the moves of its body. -/
theorem forall_moves_recordLoop {body : List V → Store V → Recorded V (Flow × Store V)}
    {var : String} {place : List V} {P : Move V → Prop} (hturn : ∀ v, P (.turn (place ++ [v])))
    (hbody : ∀ v σ, ∀ m ∈ (body (place ++ [v]) σ).moves, P m) (vs : List V) (σ : Store V) :
    ∀ m ∈ (recordLoop body var place vs σ).moves, P m := by
  induction vs generalizing σ with
  | nil => nofun
  | cons v vs ih =>
      intro m hm
      simp only [recordLoop, mem_moves_bind_iff, moves_note, List.mem_singleton] at hm
      rcases hm with rfl | ⟨-, -, hm | ⟨⟨_ | _, σ'⟩, -, hm⟩⟩
      · exact hturn v
      · exact hbody v _ m hm
      · exact ih σ' m hm
      · cases hm

namespace Stmt

mutual

/-- Records the run of a statement at a place. -/
def record (I : Interpretation V) :
    Stmt → List V → Store V → Recorded V (Flow × Store V)
  | assign (.name n) value, place, σ => do
    let v ← I.eval σ value
    note (.write place n v)
    pure (.next, σ.set n v)
  | update (.name n) op value, place, σ => do
    let old ← σ n
    let v ← I.update op old (← I.eval σ value)
    note (.write place n v)
    pure (.next, σ.set n v)
  | append (.name n) value, place, σ => do
    let old ← σ n
    let v ← I.eval σ value
    let list ← I.append old v
    note (.append place n v)
    pure (.next, σ.set n list)
  | forIn var source body, place, σ => do
    let items ← I.items (← I.eval σ source)
    let σ' ← recordLoop (fun place σ => recordAll I body place σ) var place items σ
    pure (.next, σ')
  | breakUnless condition, place, σ => do
    let v ← I.eval σ condition
    if I.truth v then pure (.next, σ)
    else
      note (.leave place)
      pure (.leave, σ)
  | _, _, _ => ⟨[], none⟩

/-- Records the run of a block at a place. -/
def recordAll (I : Interpretation V) :
    List Stmt → List V → Store V → Recorded V (Flow × Store V)
  | [], _, σ => pure (.next, σ)
  | s :: rest, place, σ => do
    match ← s.record I place σ with
    | (.next, σ') => recordAll I rest place σ'
    | (.leave, σ') => pure (.leave, σ')

end

variable {I : Interpretation V}

theorem result_recordLoop {body : List V → Store V → Recorded V (Flow × Store V)}
    {run : Store V → Option (Flow × Store V)} (h : ∀ place σ, (body place σ).result = run σ)
    (var : String) (place vs : List V) (σ : Store V) :
    (recordLoop body var place vs σ).result = runLoop run var vs σ := by
  induction vs generalizing σ with
  | nil => rfl
  | cons v vs ih =>
      rw [recordLoop, runLoop, result_bind, result_bind, h]
      rcases run (σ.set var v) with _ | ⟨_ | _, σ'⟩
      · rfl
      · exact ih σ'
      · rfl

mutual

/-- Recording a statement does not change what it does. -/
theorem result_record : ∀ (s : Stmt) (place : List V) (σ : Store V),
    (s.record I place σ).result = s.run I σ
  | assign target value, place, σ | update target op value, place, σ
  | append target value, place, σ => by
      cases target with
      | name n =>
          simp only [record, run, result_bind, result_lift, result_note, result_pure,
            Option.bind_some]
          rfl
      | _ => rfl
  | forIn var source body, place, σ => by
      have hloop := result_recordLoop (fun place σ => result_recordAll body place σ) var place
      simp only [record, run, result_bind, result_lift, result_pure, hloop]
      rfl
  | breakUnless condition, place, σ => by
      rw [record, run, result_bind, result_lift]
      cases I.eval σ condition with
      | none => rfl
      | some v =>
          change _ = some (if I.truth v = true then Flow.next else Flow.leave, σ)
          simp only [Option.bind_some]
          cases I.truth v <;> rfl
  | eval _, _, _ | ifTrue _ _, _, _ | ret _, _, _ | define _ _ _, _, _ | attempt _ _ _, _, _ => rfl

theorem result_recordAll : ∀ (b : List Stmt) (place : List V) (σ : Store V),
    (recordAll I b place σ).result = runAll I b σ
  | [], place, σ => rfl
  | s :: rest, place, σ => by
      rw [recordAll, runAll, result_bind, result_record s place σ]
      rcases s.run I σ with _ | ⟨_ | _, σ'⟩
      · rfl
      · exact result_recordAll rest place σ'
      · rfl

end

/-- A block after a block is recorded where the first ends, unless it leaves a loop. -/
theorem recordAll_append (a b : List Stmt) (place : List V) (σ : Store V) :
    recordAll I (a ++ b) place σ = (do
      match ← recordAll I a place σ with
      | (.next, σ') => recordAll I b place σ'
      | (.leave, σ') => pure (.leave, σ')) := by
  induction a generalizing σ with
  | nil => rfl
  | cons s a ih =>
      rw [List.cons_append, recordAll, recordAll, bind_assoc]
      congr 1
      funext ⟨f, σ'⟩
      cases f with
      | next => exact ih σ'
      | leave => rfl

section Steps

variable {σ : Store V} {n : String} {value : Code} {v : V} (place : List V)

theorem recordAll_singleton (s : Stmt) : recordAll I [s] place σ = s.record I place σ := by
  rw [recordAll]
  rcases s.record I place σ with ⟨moves, _ | ⟨_ | _, σ'⟩⟩
  · rfl
  · exact congrArg (Recorded.mk · _) (List.append_nil moves)
  · exact congrArg (Recorded.mk · _) (List.append_nil moves)

theorem record_set_of_none (h : I.eval σ value = none) :
    (set n value).record I place σ = ⟨[], none⟩ := by
  rw [set, record, h]
  rfl

theorem record_set_of_some (h : I.eval σ value = some v) :
    (set n value).record I place σ = ⟨[.write place n v], some (.next, σ.set n v)⟩ := by
  rw [set, record, h]
  rfl

theorem record_update_of_none {old : V} {op : ArithOp} (hold : σ n = some old)
    (h : I.eval σ value = none) : (update (.name n) op value).record I place σ = ⟨[], none⟩ := by
  rw [record, hold, h]
  rfl

theorem record_update_of_some {old new : V} {op : ArithOp} (hold : σ n = some old)
    (h : I.eval σ value = some v) (hnew : I.update op old v = some new) :
    (update (.name n) op value).record I place σ =
      ⟨[.write place n new], some (.next, σ.set n new)⟩ := by
  simp only [record, hold, h, lift_some_bind, hnew]
  rfl

theorem record_append_of_none {old : V} (hold : σ n = some old) (h : I.eval σ value = none) :
    (append (.name n) value).record I place σ = ⟨[], none⟩ := by
  rw [record, hold, h]
  rfl

theorem record_append_of_some {old list : V} (hold : σ n = some old)
    (h : I.eval σ value = some v) (hlist : I.append old v = some list) :
    (append (.name n) value).record I place σ =
      ⟨[.append place n v], some (.next, σ.set n list)⟩ := by
  simp only [record, hold, h, lift_some_bind, hlist]
  rfl

theorem record_breakUnless (h : I.eval σ value = some v) :
    (breakUnless value).record I place σ =
      if I.truth v then pure (.next, σ) else ⟨[.leave place], some (.leave, σ)⟩ := by
  rw [record, h]
  rfl

end Steps

theorem recordAll_forIn_of_none {σ : Store V} {source : Code}
    (h : (I.eval σ source).bind I.items = none) (var : String) (body : List Stmt)
    (place : List V) : recordAll I [forIn var source body] place σ = ⟨[], none⟩ := by
  rw [recordAll, record]
  cases hsource : I.eval σ source with
  | none => rfl
  | some v =>
      rw [hsource, Option.bind_some] at h
      rw [lift_some_bind, h]
      rfl

theorem recordAll_forIn_of_some {σ : Store V} {source : Code} {vs : List V}
    (h : (I.eval σ source).bind I.items = some vs) (var : String) (body : List Stmt)
    (place : List V) :
    recordAll I [forIn var source body] place σ = (do
      let σ' ← recordLoop (fun place σ => recordAll I body place σ) var place vs σ
      pure (.next, σ')) := by
  obtain ⟨v, hsource, hitems⟩ := Option.bind_eq_some_iff.1 h
  simp only [recordAll, record, hsource, lift_some_bind, hitems, bind_assoc, pure_bind]

mutual

/-- The variables that a statement can give a value. -/
def assigned : Stmt → List String
  | assign (.name n) _ | update (.name n) _ _ | append (.name n) _ => [n]
  | forIn var _ body => var :: assignedOfAll body
  | _ => []

/-- The variables that a block can give a value. -/
def assignedOfAll : List Stmt → List String
  | [] => []
  | s :: rest => s.assigned ++ assignedOfAll rest

end

@[simp] theorem assignedOfAll_append (a b : List Stmt) :
    assignedOfAll (a ++ b) = assignedOfAll a ++ assignedOfAll b := by
  induction a with
  | nil => rfl
  | cons s a ih => rw [List.cons_append, assignedOfAll, assignedOfAll, ih, List.append_assoc]

/-- Whether a statement leaves a loop. -/
def isBreak : Stmt → Bool
  | breakUnless _ => true
  | _ => false

/-- What a statement can do: it sets a variable, it is a loop, or it decides whether to
leave one. -/
theorem run_cases {s : Stmt} {σ σ' : Store V} {f : Flow} (h : s.run I σ = some (f, σ')) :
    (∃ n v, s.assigned = [n] ∧ f = .next ∧ σ' = σ.set n v) ∨
    (∃ var source body items, s = forIn var source body ∧ f = .next ∧
      runLoop (fun σ => runAll I body σ) var items σ = some σ') ∨
    (s.isBreak = true ∧ σ' = σ) := by
  cases s with
  | assign target value =>
      cases target with
      | name n =>
          rw [run] at h
          obtain ⟨v, -, h⟩ := Option.bind_eq_some_iff.1 h
          cases h
          exact .inl ⟨n, v, rfl, rfl, rfl⟩
      | _ => cases h
  | update target op value | append target value =>
      cases target with
      | name n =>
          rw [run] at h
          obtain ⟨old, -, h⟩ := Option.bind_eq_some_iff.1 h
          obtain ⟨w, -, h⟩ := Option.bind_eq_some_iff.1 h
          obtain ⟨v, -, h⟩ := Option.bind_eq_some_iff.1 h
          cases h
          exact .inl ⟨n, v, rfl, rfl, rfl⟩
      | _ => cases h
  | forIn var source body =>
      rw [run] at h
      obtain ⟨w, -, h⟩ := Option.bind_eq_some_iff.1 h
      obtain ⟨items, -, h⟩ := Option.bind_eq_some_iff.1 h
      obtain ⟨σ₁, hloop, h⟩ := Option.bind_eq_some_iff.1 h
      cases h
      exact .inr (.inl ⟨var, source, body, items, rfl, rfl, hloop⟩)
  | breakUnless condition =>
      rw [run] at h
      obtain ⟨v, -, h⟩ := Option.bind_eq_some_iff.1 h
      cases h
      exact .inr (.inr ⟨rfl, rfl⟩)
  | _ => cases h

theorem flow_of_run {s : Stmt} (hs : s.isBreak = false) {σ σ' : Store V} {f : Flow}
    (h : s.run I σ = some (f, σ')) : f = .next := by
  rcases run_cases h with ⟨n, v, -, hf, -⟩ | ⟨var, source, body, items, -, hf, -⟩ | ⟨hbreak, -⟩
  · exact hf
  · exact hf
  · rw [hs] at hbreak
    cases hbreak

/-- Without a statement that leaves a loop, a block that runs comes to its end. -/
theorem flow_of_runAll {b : List Stmt} (hb : ∀ s ∈ b, s.isBreak = false) {σ σ' : Store V}
    {f : Flow} (h : runAll I b σ = some (f, σ')) : f = .next := by
  induction b generalizing σ with
  | nil =>
      cases h
      rfl
  | cons s rest ih =>
      rw [List.forall_mem_cons] at hb
      rw [runAll] at h
      rcases hs : s.run I σ with _ | ⟨_ | _, σ₁⟩ <;> rw [hs] at h
      · cases h
      · exact ih hb.2 h
      · exact nomatch flow_of_run hb.1 hs

mutual

/-- A variable that a statement does not give a value keeps its value. -/
theorem eq_of_run {x : String} : ∀ {s : Stmt} {σ σ' : Store V} {f : Flow}, x ∉ s.assigned →
    s.run I σ = some (f, σ') → σ' x = σ x
  | forIn var source body, σ, σ', f, hx, h => by
      rw [assigned, List.mem_cons, not_or] at hx
      rw [run] at h
      obtain ⟨w, -, h⟩ := Option.bind_eq_some_iff.1 h
      obtain ⟨items, -, h⟩ := Option.bind_eq_some_iff.1 h
      obtain ⟨σ₁, hloop, h⟩ := Option.bind_eq_some_iff.1 h
      cases h
      exact eq_of_runLoop hx.1 (fun hrun => eq_of_runAll hx.2 hrun) hloop
  | assign _ _, σ, σ', f, hx, h | update _ _ _, σ, σ', f, hx, h | append _ _, σ, σ', f, hx, h
  | eval _, σ, σ', f, hx, h | ifTrue _ _, σ, σ', f, hx, h | breakUnless _, σ, σ', f, hx, h
  | ret _, σ, σ', f, hx, h | define _ _ _, σ, σ', f, hx, h | attempt _ _ _, σ, σ', f, hx, h => by
      rcases run_cases h with ⟨n, v, hn, -, rfl⟩ | ⟨_, _, _, _, hs, -⟩ | ⟨-, rfl⟩
      · rw [hn] at hx
        exact σ.set_of_ne v (List.ne_of_not_mem_cons hx)
      · cases hs
      · rfl

theorem eq_of_runAll {x : String} : ∀ {b : List Stmt} {σ σ' : Store V} {f : Flow},
    x ∉ assignedOfAll b → runAll I b σ = some (f, σ') → σ' x = σ x
  | [], σ, σ', f, _, h => by
      cases h
      rfl
  | s :: rest, σ, σ', f, hx, h => by
      rw [assignedOfAll, List.mem_append, not_or] at hx
      rw [runAll] at h
      rcases hs : s.run I σ with _ | ⟨_ | _, σ₁⟩ <;> rw [hs] at h
      · cases h
      · rw [eq_of_runAll hx.2 h, eq_of_run hx.1 hs]
      · cases h
        exact eq_of_run hx.1 hs

end

mutual

/-- The moves of a statement at a place are deeper than the place, as far as loops are
concerned, and otherwise about the variables that it gives a value. -/
theorem inside_record : ∀ {s : Stmt} {place : List V} {d : Nat} {σ : Store V} {m : Move V},
    d < place.length ∨ d = place.length ∧ s.isBreak = false →
    m ∈ (s.record I place σ).moves → m.Inside d s.assigned
  | assign target value, place, d, σ, m, _, hm => by
      cases target with
      | name n =>
          simp only [record, mem_moves_bind_iff, moves_lift, moves_note, moves_pure,
            List.not_mem_nil, false_or, or_false, and_false, exists_const,
            List.mem_singleton] at hm
          obtain ⟨v, -, rfl⟩ := hm
          exact List.mem_cons_self
      | _ => cases hm
  | update target op value, place, d, σ, m, _, hm | append target value, place, d, σ, m, _, hm => by
      cases target with
      | name n =>
          simp only [record, mem_moves_bind_iff, moves_lift, moves_note, moves_pure,
            List.not_mem_nil, false_or, or_false, and_false, exists_const,
            List.mem_singleton] at hm
          obtain ⟨old, -, w, -, v, -, rfl⟩ := hm
          exact List.mem_cons_self
      | _ => cases hm
  | forIn var source body, place, d, σ, m, hd, hm => by
      have hplace : ∀ v : V, d < (place ++ [v]).length := by
        intro v
        rw [List.length_append, List.length_singleton]
        omega
      simp only [record, mem_moves_bind_iff, moves_lift, moves_pure, List.not_mem_nil, false_or,
        and_false, exists_const, or_false] at hm
      obtain ⟨w, -, items, -, hm⟩ := hm
      refine forall_moves_recordLoop (P := (·.Inside d (forIn var source body).assigned))
        hplace (fun v σ m hm => ?_) items σ m hm
      exact (inside_recordAll (.inl (hplace v)) hm).mono fun n => List.mem_cons_of_mem var
  | breakUnless condition, place, d, σ, m, hd, hm => by
      -- At the place itself nothing leaves, so this statement is deeper.
      have hplace : d < place.length := hd.resolve_right fun h => nomatch h.2
      rw [record, mem_moves_bind_iff] at hm
      obtain hm | ⟨v, -, hm⟩ := hm
      · cases hm
      · split at hm
        · cases hm
        · cases List.mem_singleton.1 hm
          exact hplace
  | eval _, _, _, _, _, _, hm | ifTrue _ _, _, _, _, _, _, hm | ret _, _, _, _, _, _, hm
  | define _ _ _, _, _, _, _, _, hm | attempt _ _ _, _, _, _, _, _, hm => nomatch hm

theorem inside_recordAll : ∀ {b : List Stmt} {place : List V} {d : Nat} {σ : Store V}
    {m : Move V}, d < place.length ∨ d = place.length ∧ (∀ s ∈ b, s.isBreak = false) →
    m ∈ (recordAll I b place σ).moves → m.Inside d (assignedOfAll b)
  | [], _, _, _, _, _, hm => nomatch hm
  | s :: rest, place, d, σ, m, hd, hm => by
      rw [recordAll] at hm
      rcases mem_moves_bind_iff.1 hm with hm | ⟨⟨f, σ'⟩, -, hm⟩
      · have hs : d < place.length ∨ d = place.length ∧ s.isBreak = false :=
          hd.imp_right fun h => ⟨h.1, h.2 s List.mem_cons_self⟩
        exact (inside_record hs hm).mono fun n => List.mem_append_left _
      · cases f with
        | next =>
            have hrest : d < place.length ∨ d = place.length ∧ ∀ s ∈ rest, s.isBreak = false :=
              hd.imp_right fun h => ⟨h.1, fun t ht => h.2 t (List.mem_cons_of_mem s ht)⟩
            exact (inside_recordAll hrest hm).mono fun n => List.mem_append_right _
        | leave => cases hm

end

end Stmt

end StatContract
