import StatContract.Code.Stmt

/-!
# Running statements

What the statements of a lowered clause do to the variables. The meaning of
expressions is left open: an `Interpretation` says what values there are, what
an expression evaluates to, and what counts as true. A run may fail, and then it
has no outcome. All variables live in one store, since the statements form the
body of one function.

Only the statements that lowering a clause can write have a meaning here.
-/

namespace StatContract

variable {V : Type}

/-- The values of the variables. -/
abbrev Store (V : Type) := String → Option V

/-- The store after a variable has been given a value. -/
def Store.set (σ : Store V) (name : String) (v : V) : Store V :=
  fun n => if n = name then some v else σ n

@[simp] theorem Store.set_self (σ : Store V) (name : String) (v : V) :
    σ.set name v name = some v := if_pos rfl

theorem Store.set_of_ne (σ : Store V) {name n : String} (v : V) (h : n ≠ name) :
    σ.set name v n = σ n := if_neg h

/-- What expressions mean. -/
structure Interpretation (V : Type) where
  /-- The value of an expression. -/
  eval : Store V → Code → Option V
  /-- Whether a value counts as true. -/
  truth : V → Bool
  /-- What a loop over a value runs through. -/
  items : V → Option (List V)
  /-- The new value of a variable that is changed in place. -/
  update : ArithOp → V → V → Option V
  /-- A list with one more element. -/
  append : V → V → Option V

/-- How a statement ends: the next one follows, or the innermost loop is left. -/
inductive Flow where
  | next | leave
  deriving DecidableEq, Repr

/-- Runs a loop body for each value in turn, until one of the runs leaves the
loop. -/
def runLoop (body : Store V → Option (Flow × Store V)) (var : String) :
    List V → Store V → Option (Store V)
  | [], σ => some σ
  | v :: vs, σ => do
    match ← body (σ.set var v) with
    | (.next, σ') => runLoop body var vs σ'
    | (.leave, σ') => some σ'

namespace Stmt

mutual

/-- Runs a statement. -/
def run (I : Interpretation V) : Stmt → Store V → Option (Flow × Store V)
  | assign (.name n) value, σ => do
    let v ← I.eval σ value
    some (.next, σ.set n v)
  | update (.name n) op value, σ => do
    let old ← σ n
    let v ← I.update op old (← I.eval σ value)
    some (.next, σ.set n v)
  | append (.name n) value, σ => do
    let old ← σ n
    let v ← I.append old (← I.eval σ value)
    some (.next, σ.set n v)
  | forIn var source body, σ => do
    let items ← I.items (← I.eval σ source)
    let σ' ← runLoop (fun σ => runAll I body σ) var items σ
    some (.next, σ')
  | breakUnless condition, σ => do
    let v ← I.eval σ condition
    some (if I.truth v then .next else .leave, σ)
  | _, _ => none

/-- Runs the statements of a block, up to one that leaves the loop. -/
def runAll (I : Interpretation V) : List Stmt → Store V → Option (Flow × Store V)
  | [], σ => some (.next, σ)
  | s :: rest, σ => do
    match ← s.run I σ with
    | (.next, σ') => runAll I rest σ'
    | (.leave, σ') => some (.leave, σ')

end

variable {I : Interpretation V} {σ σ' : Store V}

@[simp] theorem runAll_nil : runAll I [] σ = some (.next, σ) := rfl

theorem runAll_cons_of_next {s : Stmt} (h : s.run I σ = some (.next, σ')) (rest : List Stmt) :
    runAll I (s :: rest) σ = runAll I rest σ' := by
  rw [runAll, h]
  rfl

/-- A block that runs to its end is followed by what comes after it. -/
theorem runAll_append_of_next {a : List Stmt} (h : runAll I a σ = some (.next, σ'))
    (b : List Stmt) : runAll I (a ++ b) σ = runAll I b σ' := by
  induction a generalizing σ with
  | nil =>
      rw [runAll_nil] at h
      cases h
      rfl
  | cons s a ih =>
      rw [runAll] at h
      rw [List.cons_append, runAll]
      rcases hs : s.run I σ with _ | ⟨_ | _, σ₁⟩
      · simp [hs] at h
      · simp only [hs] at h
        exact ih h
      · simp [hs] at h

theorem run_set {name : String} {value : Code} {v : V} (h : I.eval σ value = some v) :
    (set name value).run I σ = some (.next, σ.set name v) := by
  rw [set, run, h]
  rfl

theorem run_breakUnless {condition : Code} {v : V} (h : I.eval σ condition = some v) :
    (breakUnless condition).run I σ = some (if I.truth v then .next else .leave, σ) := by
  rw [run, h]
  rfl

theorem run_forIn {var : String} {source : Code} {body : List Stmt} {v : V} {items : List V}
    (hv : I.eval σ source = some v) (hitems : I.items v = some items)
    (hloop : runLoop (fun σ => runAll I body σ) var items σ = some σ') :
    (forIn var source body).run I σ = some (.next, σ') := by
  rw [run, hv]
  simp [hitems, hloop]

end Stmt

/-- A loop that tests its values in turn and leaves at the first that fails. If
each run of the body keeps an invariant and leaves the outcome of the test in a
variable, then so does the loop, with the outcome of all tests. -/
theorem runLoop_all {body : Store V → Option (Flow × Store V)} {var result : String}
    {yes no : V} {inv : Store V → Prop} {P : V → Prop} {vs : List V}
    (hbody : ∀ v ∈ vs, ∀ σ, inv σ → σ result = some yes →
      (∃ σ', body (σ.set var v) = some (.next, σ') ∧ inv σ' ∧ σ' result = some yes ∧ P v) ∨
      (∃ σ', body (σ.set var v) = some (.leave, σ') ∧ inv σ' ∧ σ' result = some no ∧ ¬ P v))
    {σ : Store V} (hinv : inv σ) (hyes : σ result = some yes) :
    (∃ σ', runLoop body var vs σ = some σ' ∧ inv σ' ∧ σ' result = some yes ∧ ∀ v ∈ vs, P v) ∨
    (∃ σ', runLoop body var vs σ = some σ' ∧ inv σ' ∧ σ' result = some no ∧
      ¬ ∀ v ∈ vs, P v) := by
  induction vs generalizing σ with
  | nil => exact .inl ⟨σ, rfl, hinv, hyes, nofun⟩
  | cons v vs ih =>
      rcases hbody v List.mem_cons_self σ hinv hyes with
        ⟨σ₁, hrun, hinv₁, hyes₁, hP⟩ | ⟨σ₁, hrun, hinv₁, hno₁, hP⟩
      · have hrest : ∀ w ∈ vs, _ := fun w hw => hbody w (List.mem_cons_of_mem v hw)
        rcases ih hrest hinv₁ hyes₁ with ⟨σ', hloop, h₁, h₂, h₃⟩ | ⟨σ', hloop, h₁, h₂, h₃⟩
        · refine .inl ⟨σ', ?_, h₁, h₂, List.forall_mem_cons.2 ⟨hP, h₃⟩⟩
          rw [runLoop, hrun]
          exact hloop
        · refine .inr ⟨σ', ?_, h₁, h₂, fun h => h₃ (List.forall_mem_cons.1 h).2⟩
          rw [runLoop, hrun]
          exact hloop
      · refine .inr ⟨σ₁, ?_, hinv₁, hno₁, fun h => hP (h v List.mem_cons_self)⟩
        rw [runLoop, hrun]
        rfl

end StatContract
