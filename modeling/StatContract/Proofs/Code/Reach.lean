import StatContract.Proofs.Code.Record

/-!
# Where a run comes to

A run of a block comes to the statements of the block in turn and, inside a loop, to the
statements of its body once for each turn that begins. `Stmt.Reaches` says which statements
a run comes to and what the variables hold there, also if the run fails later. A variable
that the block does not give a value holds at each such place what it held at the start,
`Stmt.Reaches.eq_of_notMem`.
-/

namespace StatContract

variable {V : Type} {I : Interpretation V}

/-- A turn of a loop begins with the given values of the variables. The turns before it
have run to their end. -/
inductive Turn (body : Store V → Option (Flow × Store V)) (var : String) :
    List V → Store V → Store V → Prop where
  | first (v : V) (vs : List V) (σ : Store V) : Turn body var (v :: vs) σ (σ.set var v)
  | later {v : V} {vs : List V} {σ σ₁ τ : Store V} (hrun : body (σ.set var v) = some (.next, σ₁))
      (h : Turn body var vs σ₁ τ) : Turn body var (v :: vs) σ τ

namespace Stmt

/-- The run of a block comes to a statement with the given values of the variables. -/
inductive Reaches (I : Interpretation V) : List Stmt → Store V → Stmt → Store V → Prop where
  | here (s : Stmt) (rest : List Stmt) (σ : Store V) : Reaches I (s :: rest) σ s σ
  | later {s t : Stmt} {rest : List Stmt} {σ σ₁ τ : Store V}
      (hrun : s.run I σ = some (.next, σ₁)) (h : Reaches I rest σ₁ t τ) :
      Reaches I (s :: rest) σ t τ
  | inside {var : String} {source : Code} {body rest : List Stmt} {t : Stmt} {σ σ₁ τ : Store V}
      {v : V} {items : List V} (hsource : I.eval σ source = some v) (hitems : I.items v = some items)
      (hturn : Turn (fun σ => runAll I body σ) var items σ σ₁) (h : Reaches I body σ₁ t τ) :
      Reaches I (forIn var source body :: rest) σ t τ

end Stmt

/-- What a loop body keeps is the same when a turn begins, the loop's own variable aside. -/
theorem Turn.eq_of_ne {body : Store V → Option (Flow × Store V)} {x var : String}
    (hx : x ≠ var) (hbody : ∀ {σ σ' f}, body σ = some (f, σ') → σ' x = σ x) {vs : List V}
    {σ τ : Store V} (h : Turn body var vs σ τ) : τ x = σ x := by
  induction h with
  | first v vs σ => exact σ.set_of_ne v hx
  | @later v vs σ σ₁ τ hrun _ ih => rw [ih, hbody hrun, σ.set_of_ne v hx]

/-- A variable that a block does not give a value holds wherever the run comes to what it
held at the start. -/
theorem Stmt.Reaches.eq_of_notMem {x : String} {stmts : List Stmt} {t : Stmt} {σ τ : Store V}
    (h : Reaches I stmts σ t τ) (hx : x ∉ assignedOfAll stmts) : τ x = σ x := by
  induction h with
  | here => rfl
  | later hrun _ ih =>
      rw [assignedOfAll, List.mem_append, not_or] at hx
      rw [ih hx.2, eq_of_run hx.1 hrun]
  | inside _ _ hturn _ ih =>
      rw [assignedOfAll, assigned, List.mem_append, List.mem_cons, not_or, not_or] at hx
      obtain ⟨⟨hvar, hbody⟩, -⟩ := hx
      rw [ih hbody, hturn.eq_of_ne hvar fun hrun => eq_of_runAll hbody hrun]

end StatContract
