import StatContract.Proofs.Lowering.Evidence
import Mathlib.Data.List.Induction
import Mathlib.Data.Nat.Cast.Basic

/-!
# Counting rounds

A probability over items is tested on the number of successes among the items. The code counts the
successes in nested loops, and computes the number of all items afterwards, as the product of the
sizes of the collections. `Clause.overItems_counts_rounds` says that this product is the number of
rounds that the loops have gone through, and that the number of successes is not larger.

For this, the collections must be after the loops what they were before, which takes more than that
the ranges and the body do not bind the names in them. The temporaries for the comparison must not
occur in them either, none of the bound names may be the variable that counts, and none may hide a
function that the sizes are computed with.
-/

namespace StatContract

variable {V α β : Type}

mutual

/-- The value of an expression depends on the names in it only. -/
theorem Operations.eval_congr (ops : Operations V) : ∀ (c : Code) {σ σ' : Store V},
    (∀ r ∈ c.reads, σ r.name = σ' r.name) → ops.eval c σ = ops.eval c σ'
  | .verbatim _, _, _, _ => rfl
  | .quoted _, _, _, _ => rfl
  | .name n, σ, σ', h => by
      rw [eval, eval, h _ List.mem_cons_self]
  | .paren inner, σ, σ', h => by
      rw [eval, eval, ops.eval_congr inner h]
  | .not inner, σ, σ', h => by
      rw [eval, eval, ops.eval_congr inner h]
  | .attr inner _, σ, σ', h => by
      rw [eval, eval, ops.eval_congr inner h]
  | .keyword _ inner, σ, σ', h => by
      rw [eval, eval, ops.eval_congr inner h]
  | .binary lhs op rhs, σ, σ', h => by
      rw [Code.reads, List.forall_mem_append] at h
      rw [eval, eval, ops.eval_congr lhs h.1, ops.eval_congr rhs h.2]
  | .item container key, σ, σ', h => by
      rw [Code.reads, List.forall_mem_append] at h
      rw [eval, eval, ops.eval_congr container h.1, ops.eval_congr key h.2]
  | .choice yes condition no, σ, σ', h => by
      rw [Code.reads, List.forall_mem_append, List.forall_mem_append] at h
      rw [eval, eval, ops.eval_congr yes h.1.1, ops.eval_congr condition h.1.2,
        ops.eval_congr no h.2]
  | .call function args, σ, σ', h => by
      rw [Code.reads, List.forall_mem_append] at h
      rw [eval, eval, ops.eval_congr function h.1, ops.evalAll_congr args h.2]
  | .list items, σ, σ', h => by
      rw [eval, eval, ops.evalAll_congr items h]
  | .dict entries, σ, σ', h => by
      rw [eval, eval, ops.evalEntries_congr entries h]
  | .comprehension element var source, σ, σ', h => by
      rw [Code.reads, List.forall_mem_append, List.forall_mem_map] at h
      have helement : ∀ w, ops.eval element (σ.set var w) = ops.eval element (σ'.set var w) := by
        intro w
        refine ops.eval_congr element fun r hr => ?_
        by_cases hname : r.name = var
        · rw [hname, Store.set_self, Store.set_self]
        · rw [σ.set_of_ne w hname, σ'.set_of_ne w hname]
          exact h.2 r hr
      rw [eval, eval, ops.eval_congr source h.1]
      simp only [helement]

theorem Operations.evalAll_congr (ops : Operations V) : ∀ (cs : List Code) {σ σ' : Store V},
    (∀ r ∈ Code.readsOfAll cs, σ r.name = σ' r.name) → ops.evalAll cs σ = ops.evalAll cs σ'
  | [], _, _, _ => rfl
  | c :: cs, σ, σ', h => by
      rw [Code.readsOfAll, List.forall_mem_append] at h
      rw [evalAll, evalAll, ops.eval_congr c h.1, ops.evalAll_congr cs h.2]

theorem Operations.evalEntries_congr (ops : Operations V) : ∀ (entries : List (String × Code))
    {σ σ' : Store V}, (∀ r ∈ Code.readsOfEntries entries, σ r.name = σ' r.name) →
      ops.evalEntries entries σ = ops.evalEntries entries σ'
  | [], _, _, _ => rfl
  | (_, c) :: rest, σ, σ', h => by
      rw [Code.readsOfEntries, List.forall_mem_append] at h
      rw [evalEntries, evalEntries, ops.eval_congr c h.1, ops.evalEntries_congr rest h.2]

end

/-! ## Rounds of a run -/

/-- A turn of a loop begins that has so many loops around it, itself included. -/
def Move.isTurnAt (depth : Nat) : Move V → Bool
  | turn place => depth == place.length
  | write .. | append .. | leave _ => false

namespace Recorded

/-- How many turns begin inside of so many loops. -/
def turns (depth : Nat) (x : Recorded V α) : Nat := x.moves.countP (Move.isTurnAt depth)

/-- How often the block inside of so many loops is run. Without loops that is once. -/
def rounds (depth : Nat) (x : Recorded V α) : Nat :=
  x.turns depth + if depth = 0 then 1 else 0

variable {depth : Nat}

@[simp] theorem turns_pure (a : α) : (pure a : Recorded V α).turns depth = 0 := rfl

theorem turns_note_turn (place : List V) :
    (note (.turn place)).turns depth = if depth = place.length then 1 else 0 := by
  simp [turns, Move.isTurnAt, List.countP_cons]

theorem turns_bind_of_some {x : Recorded V α} {a : α} (h : x.result = some a)
    (f : α → Recorded V β) : (x >>= f).turns depth = x.turns depth + (f a).turns depth := by
  rw [bind_of_some h]
  exact List.countP_append

end Recorded

/-- A block without a statement that leaves a loop begins no turns of the loops around it. -/
theorem Stmt.turns_recordAll {I : Interpretation V} {stmts : List Stmt}
    (hbreak : ∀ s ∈ stmts, s.isBreak = false) (place : List V) (σ : Store V) :
    (recordAll I stmts place σ).turns place.length = 0 := by
  refine List.countP_eq_zero.2 fun m hm => ?_
  have hinside := inside_recordAll (.inr ⟨rfl, hbreak⟩) hm
  cases m with
  | turn inner =>
      have hdeeper : place.length < inner.length := hinside
      simp [Move.isTurnAt, hdeeper.ne]
  | write | append | leave => simp [Move.isTurnAt]

/-- Setting a variable before a block begins no turns. -/
theorem Stmt.turns_recordAll_set {I : Interpretation V} {n : String} {value : Code} {v : V}
    {σ : Store V} (h : I.eval σ value = some v) (b : List Stmt) (place : List V) (depth : Nat) :
    (recordAll I (set n value :: b) place σ).turns depth =
      (recordAll I b place (σ.set n v)).turns depth := by
  rw [recordAll, record_set_of_some place h, Recorded.turns_bind_of_some rfl]
  simp [Recorded.turns, Move.isTurnAt]

/-- A run at a place keeps an invariant with a number that grows by no more than the rounds, of
which there are `n`, unless it fails. -/
inductive Recorded.Tallies (depth : Nat) (Inv : Nat → Store V → Prop) (Fails : Prop) (m n : Nat)
    (place : List V) (x : Recorded V (Flow × Store V)) : Prop where
  | fails (hresult : x.result = none) (hfails : Fails)
  | ends {k σ} (hresult : x.result = some (.next, σ)) (hinv : Inv k σ) (hle : k ≤ m + n)
      (hrounds : x.turns depth + (if depth = place.length then 1 else 0) = n)

section

variable {depth : Nat} {Inv : Nat → Store V → Prop} {Fails : Prop}

/-- A loop has the rounds of its body as often as it has items. -/
theorem recordLoop_tallies {body : List V → Store V → Recorded V (Flow × Store V)}
    {var : String} {place : List V} {n : Nat} (hset : ∀ {m σ} v, Inv m σ → Inv m (σ.set var v))
    (hbody : ∀ {m σ} v, Inv m σ →
      (body (place ++ [v]) σ).Tallies depth Inv Fails m n (place ++ [v]))
    (vs : List V) {m : Nat} {σ : Store V} (hinv : Inv m σ) :
    ((recordLoop body var place vs σ).result = none ∧ Fails) ∨
    ∃ k σ', (recordLoop body var place vs σ).result = some σ' ∧ Inv k σ' ∧
      k ≤ m + vs.length * n ∧ (recordLoop body var place vs σ).turns depth = vs.length * n := by
  -- The number that is counted goes up from turn to turn, so the induction is for every `m`.
  induction vs generalizing m σ with
  | nil => exact .inr ⟨m, σ, rfl, hinv, Nat.le_add_right _ _, by simp [recordLoop]⟩
  | cons v vs ih =>
      cases hbody v (hset v hinv) with
      | fails hresult hfails =>
          refine .inl ⟨?_, hfails⟩
          simp only [recordLoop, Recorded.result_bind, hresult, Option.bind_none,
            Option.bind_fun_none]
      | @ends k σ₁ hresult hinv₁ hle hrounds =>
          have hnext : (recordLoop body var place (v :: vs) σ).result =
              (recordLoop body var place vs σ₁).result := by
            simp only [recordLoop, Recorded.result_bind, Recorded.result_note, hresult,
              Option.bind_some]
          have hturns : (recordLoop body var place (v :: vs) σ).turns depth =
              n + (recordLoop body var place vs σ₁).turns depth := by
            rw [recordLoop, Recorded.turns_bind_of_some (Recorded.result_note _),
              Recorded.turns_bind_of_some hresult, Recorded.turns_note_turn, ← hrounds]
            dsimp only
            omega
          rw [hnext, hturns, List.length_cons, Nat.succ_mul]
          rcases ih hinv₁ with hfails | ⟨k', σ', hresult', hinv', hle', hturns'⟩
          · exact .inl hfails
          · exact .inr ⟨k', σ', hresult', hinv', by omega, by omega⟩

/-- Nested loops go through as many rounds as the product of their sizes says, if each always has
as many items as its size. -/
theorem Loop.nest_tallies {I : Interpretation V} {inner : List Stmt} {size : Loop → Nat}
    (hinner : ∀ {place m σ}, place.length = depth → Inv m σ →
      (Stmt.recordAll I inner place σ).Tallies depth Inv Fails m 1 place)
    {loops : List Loop} (hset : ∀ loop ∈ loops, ∀ {m σ} v, Inv m σ → Inv m (σ.set loop.var v))
    (hitems : ∀ loop ∈ loops, ∀ {m σ}, Inv m σ →
      ∃ vs, (I.eval σ loop.source).bind I.items = some vs ∧ vs.length = size loop)
    {place : List V} (hplace : place.length + loops.length = depth) {m : Nat} {σ : Store V}
    (hinv : Inv m σ) :
    (Stmt.recordAll I (Loop.nest none loops inner) place σ).Tallies depth Inv Fails m
      (loops.map size).prod place := by
  induction loops generalizing place m σ with
  | nil => exact hinner hplace hinv
  | cons loop loops ih =>
      rw [List.forall_mem_cons] at hset hitems
      obtain ⟨vs, hvs, hlength⟩ := hitems.1 hinv
      rw [List.length_cons] at hplace
      have hnest : Loop.nest none (loop :: loops) inner =
          [.forIn loop.var loop.source (Loop.nest none loops inner)] := by
        rw [Loop.nest, Option.toList_none, List.map_nil, List.append_nil]
      have hbody : ∀ {m σ} v, Inv m σ →
          (Stmt.recordAll I (Loop.nest none loops inner) (place ++ [v]) σ).Tallies depth Inv
            Fails m (loops.map size).prod (place ++ [v]) := by
        intro m σ v hinv
        refine ih hset.2 hitems.2 ?_ hinv
        rw [List.length_append, List.length_singleton]
        omega
      rw [hnest, Stmt.recordAll_forIn_of_some hvs, List.map_cons, List.prod_cons, ← hlength]
      rcases recordLoop_tallies hset.1 hbody vs hinv with ⟨hresult, hfails⟩ |
        ⟨k, σ', hresult, hinv', hle, hturns⟩
      · refine .fails ?_ hfails
        rw [Recorded.result_bind_pure, hresult, Option.map_none]
      · refine .ends ?_ hinv' hle ?_
        · rw [Recorded.result_bind_pure, hresult, Option.map_some]
        · rw [Recorded.turns_bind_of_some hresult, Recorded.turns_pure, hturns, if_neg (by omega),
            Nat.add_zero]

end

/-! ## Sizes of collections -/

/-- Natural numbers are computed exactly, what can be looped over has a length, and `range` gives
as many items as it is asked for. -/
structure Operations.Enumerates (ops : Operations V) : Prop where
  zero : ∃ v, ops.literal "0" = some v ∧ ops.number v = some 0
  one : ∃ v, ops.literal "1" = some v ∧ ops.number v = some 1
  mul : ∀ {v w} {m n : Nat}, ops.number v = some (m : ℚ) → ops.number w = some (n : ℚ) →
    ∃ u, ops.arith .mul v w = some u ∧ ops.number u = some ((m * n : Nat) : ℚ)
  add : ∀ {v w} {m n : Nat}, ops.number v = some (m : ℚ) → ops.number w = some (n : ℚ) →
    ∃ u, ops.update .add v w = some u ∧ ops.number u = some ((m + n : Nat) : ℚ)
  len : ∃ f, ops.global "len" = some f ∧ ∀ {v vs}, ops.items v = some vs →
    ∃ u, ops.call f [(none, v)] = some u ∧ ops.number u = some (vs.length : ℚ)
  range : ∃ f, ops.global "range" = some f ∧ ∀ {v} {n : Nat}, ops.number v = some (n : ℚ) →
    ∃ r vs, ops.call f [(none, v)] = some r ∧ ops.items r = some vs ∧ vs.length = n

namespace Loop

/-- The collection whose elements are counted for a loop. -/
def counted (loop : Loop) : Code :=
  match loop.mode with
  | .uniqueElements => .apply "set" [loop.collection]
  | .elements | .indices => loop.collection

theorem count_eq_len (loop : Loop) : loop.count = .len loop.counted := by
  cases hmode : loop.mode <;> simp [count, counted, hmode]

/-- The items of the collection that is counted. -/
def countedItems (ops : Operations V) (σ : Store V) (loop : Loop) : Option (List V) :=
  (ops.eval loop.counted σ).bind ops.items

/-- The number of these items. -/
def size (ops : Operations V) (σ : Store V) (loop : Loop) : Nat :=
  (loop.countedItems ops σ).elim 0 List.length

/-- The loop runs through its collection, which can be the argument of a function. -/
structure IsOpened (loop : Loop) : Prop where
  source : loop.source = sourceOf loop.mode loop.collection
  param : loop.collection.param? = none

variable {ops : Operations V} {σ ρ : Store V} {loop : Loop}

/-- A function is applied to the value of its argument. -/
theorem eval_apply {f : String} {g v : V} {c : Code} (hσ : σ f = none)
    (hg : ops.global f = some g) (hc : ops.eval c σ = some v) (hparam : c.param? = none) :
    ops.eval (.apply f [c]) σ = ops.call g [(none, v)] := by
  simp [Code.apply, Operations.eval, Operations.evalAll, hσ, hg, hc, hparam]

theorem size_of_some {vs : List V} (h : loop.countedItems ops σ = some vs) :
    loop.size ops σ = vs.length := by
  rw [size, h, Option.elim_some]

theorem IsOpened.param_counted (h : loop.IsOpened) : loop.counted.param? = none := by
  unfold counted
  split
  · rfl
  · exact h.param
  · exact h.param

/-- The count of a loop is its size. -/
theorem IsOpened.eval_count (h : loop.IsOpened) (hops : ops.Enumerates) (hσ : σ "len" = none)
    {vs : List V} (hitems : loop.countedItems ops σ = some vs) :
    ∃ u, ops.eval loop.count σ = some u ∧ ops.number u = some (loop.size ops σ : ℚ) := by
  obtain ⟨f, hf, hlen⟩ := hops.len
  obtain ⟨v, hv, hvs⟩ := Option.bind_eq_some_iff.1 hitems
  obtain ⟨u, hu, hnumber⟩ := hlen hvs
  refine ⟨u, ?_, by rw [size_of_some hitems, hnumber]⟩
  rw [count_eq_len, Code.len, eval_apply hσ hf hv h.param_counted, hu]

/-- A loop has as many items as its size says. -/
theorem IsOpened.items_source (h : loop.IsOpened) (hops : ops.Enumerates) (hlen : σ "len" = none)
    (hrange : σ "range" = none) {vs : List V} (hitems : loop.countedItems ops σ = some vs) :
    ∃ ws, (ops.eval loop.source σ).bind ops.items = some ws ∧ ws.length = loop.size ops σ := by
  rw [h.source]
  cases hmode : loop.mode with
  | elements | uniqueElements =>
      refine ⟨vs, ?_, (size_of_some hitems).symm⟩
      rw [countedItems, counted, hmode] at hitems
      exact hitems
  | indices =>
      obtain ⟨f, hf, hcall⟩ := hops.range
      obtain ⟨u, hu, hnumber⟩ := h.eval_count hops hlen hitems
      obtain ⟨r, ws, hr, hws, hlength⟩ := hcall hnumber
      refine ⟨ws, ?_, hlength⟩
      have hcount : loop.count = .len loop.collection := by simp [count, hmode]
      rw [hcount] at hu
      rw [sourceOf, Code.range, eval_apply hrange hf hu rfl, hr, Option.bind_some, hws]

/-- The count of all loops is the product of their sizes. -/
theorem eval_countAll (hops : ops.Enumerates) {loops : List Loop}
    (hcounts : ∀ loop ∈ loops, ∃ u, ops.eval loop.count σ = some u ∧
      ops.number u = some (loop.size ops σ : ℚ)) :
    ∃ u, ops.eval (countAll loops) σ = some u ∧
      ops.number u = some (((loops.map (size ops σ)).prod : Nat) : ℚ) := by
  -- The product is built from the left, so the last loop is split off.
  induction loops using List.reverseRecOn with
  | nil =>
      obtain ⟨one, hone, hnumber⟩ := hops.one
      exact ⟨one, hone, by simpa using hnumber⟩
  | append_singleton loops loop ih =>
      rw [List.forall_mem_append, List.forall_mem_singleton] at hcounts
      obtain ⟨v, hv, hproduct⟩ := ih hcounts.1
      obtain ⟨w, hw, hsize⟩ := hcounts.2
      obtain ⟨u, hu, hnumber⟩ := hops.mul hproduct hsize
      refine ⟨u, ?_, ?_⟩
      · rw [countAll_concat, Operations.eval, hv, hw]
        exact hu
      · rw [hnumber, List.map_append, List.map_singleton, List.prod_append,
          List.prod_singleton]

/-- The names that the sizes of loops depend on. -/
def sizeNames (loops : List Loop) : List String :=
  ["len", "set", "range"] ++ loops.flatMap fun loop => loop.collection.names

theorem mem_sizeNames_of_mem_counted {loops : List Loop} (hloop : loop ∈ loops) {r : Use Unit}
    (h : r ∈ loop.counted.reads) : r.name ∈ sizeNames loops := by
  have hcollection : ∀ {r : Use Unit}, r ∈ loop.collection.reads → r.name ∈ sizeNames loops := by
    intro r hr
    refine List.mem_append_right _ (List.mem_flatMap.2 ⟨loop, hloop, ?_⟩)
    exact List.mem_map_of_mem hr
  unfold counted at h
  split at h
  · rw [Code.apply, Code.reads, Code.reads, Code.readsOfAll, Code.readsOfAll, List.append_nil,
      List.singleton_append, List.mem_cons] at h
    rcases h with rfl | h
    · exact List.mem_append_left _ (by decide)
    · exact hcollection h
  · exact hcollection h
  · exact hcollection h

/-- Where the names have the same values, the same items are counted. -/
theorem countedItems_congr {loops : List Loop} (hloop : loop ∈ loops)
    (h : ∀ x ∈ sizeNames loops, σ x = ρ x) :
    loop.countedItems ops σ = loop.countedItems ops ρ := by
  rw [countedItems, countedItems,
    ops.eval_congr loop.counted fun r hr => h _ (mem_sizeNames_of_mem_counted hloop hr)]

theorem size_congr {loops : List Loop} (hloop : loop ∈ loops)
    (h : ∀ x ∈ sizeNames loops, σ x = ρ x) : loop.size ops σ = loop.size ops ρ := by
  rw [size, size, countedItems_congr hloop h]

end Loop

/-- The store has the same sizes as another one, and a variable that counts has a number. -/
structure Loop.Counting (ops : Operations V) (loops : List Loop) (ρ : Store V) (count : String)
    (m : Nat) (σ : Store V) : Prop where
  same : ∀ x ∈ sizeNames loops, σ x = ρ x
  number : ∃ w, σ count = some w ∧ ops.number w = some (m : ℚ)

namespace Loop.Counting

variable {ops : Operations V} {loops : List Loop} {ρ σ σ' : Store V} {count : String} {m : Nat}

theorem of_eq (h : Counting ops loops ρ count m σ)
    (hsame : ∀ x ∈ sizeNames loops, σ' x = σ x) (hcount : σ' count = σ count) :
    Counting ops loops ρ count m σ' where
  same := fun x hx => (hsame x hx).trans (h.same x hx)
  number := by
    rw [hcount]
    exact h.number

theorem set (h : Counting ops loops ρ count m σ) {x : String} (hx : x ∉ sizeNames loops)
    (hcount : x ≠ count) (v : V) : Counting ops loops ρ count m (σ.set x v) := by
  refine h.of_eq (fun y hy => ?_) (σ.set_of_ne v hcount.symm)
  exact σ.set_of_ne v fun hyx => hx (hyx ▸ hy)

/-- The number goes up by one or stays, as the condition of a success says. -/
theorem exists_update (h : Counting ops loops ρ count m σ) (hops : ops.Enumerates)
    (hcount : count ∉ sizeNames loops) {hit : Code} {b : V} (hb : ops.eval hit σ = some b) :
    ∃ old v new k, σ count = some old ∧ ops.eval (.indicator hit) σ = some v ∧
      ops.update .add old v = some new ∧ k ≤ m + 1 ∧
      Counting ops loops ρ count k (σ.set count new) := by
  obtain ⟨old, hold, hnumber⟩ := h.number
  have hindicator : ∃ v d, ops.eval (.indicator hit) σ = some v ∧
      ops.number v = some ((d : Nat) : ℚ) ∧ d ≤ 1 := by
    obtain ⟨zero, hzero, hzero'⟩ := hops.zero
    obtain ⟨one, hone, hone'⟩ := hops.one
    simp only [Code.indicator, Operations.eval, hb, hzero, hone, Option.bind_eq_bind,
      Option.bind_some]
    cases ops.truth b with
    | true => exact ⟨one, 1, rfl, by simpa using hone', Nat.le_refl 1⟩
    | false => exact ⟨zero, 0, rfl, by simpa using hzero', Nat.zero_le 1⟩
  obtain ⟨v, d, hv, hd, hle⟩ := hindicator
  obtain ⟨new, hnew, hsum⟩ := hops.add hnumber hd
  refine ⟨old, v, new, m + d, hold, hv, hnew, Nat.add_le_add_left hle m, ?_, ?_⟩
  · intro x hx
    have hne : x ≠ count := fun hxc => hcount (hxc ▸ hx)
    rw [σ.set_of_ne new hne, h.same x hx]
  · exact ⟨new, Store.set_self σ count new, hsum⟩

end Loop.Counting

/-- A body that leaves the sizes alone has one round, and counts one success at most. It fails only
where the condition of the success has no outcome. -/
theorem Stmt.update_tallies {ops : Operations V} (hops : ops.Enumerates) {loops : List Loop}
    {ρ : Store V} {count : String} (hcount : count ∉ Loop.sizeNames loops) {stmts : List Stmt}
    (hbreak : ∀ s ∈ stmts, s.isBreak = false)
    (hstmts : ∀ x ∈ assignedOfAll stmts, x ∉ Loop.sizeNames loops ∧ x ≠ count) (hit : Code)
    {depth : Nat} {place : List V} {m : Nat} {σ : Store V} (hplace : place.length = depth)
    (hσ : Loop.Counting ops loops ρ count m σ) :
    (recordAll ops.interpretation (stmts ++ [.update (.name count) .add (.indicator hit)]) place
      σ).Tallies depth (Loop.Counting ops loops ρ count)
        (∃ σ₁, outcome ops.interpretation stmts hit σ₁ = none) m 1 place := by
  have hturns := turns_recordAll (I := ops.interpretation) hbreak place σ
  have hresult := result_recordAll (I := ops.interpretation) stmts place σ
  rw [recordAll_append]
  -- Of the statements before the update only their result and their turns matter.
  generalize recordAll ops.interpretation stmts place σ = x at hturns hresult
  cases hrun : runAll ops.interpretation stmts σ with
  | none =>
      rw [hrun] at hresult
      refine .fails ?_ ⟨σ, by rw [outcome, hrun]; rfl⟩
      rw [Recorded.result_bind, hresult, Option.bind_none]
  | some ending =>
      obtain ⟨f, σ₁⟩ := ending
      obtain rfl := flow_of_runAll hbreak hrun
      rw [hrun] at hresult
      have hσ₁ : Loop.Counting ops loops ρ count m σ₁ := by
        refine hσ.of_eq (fun x hx => ?_) ?_
        · exact eq_of_runAll (fun h => (hstmts x h).1 hx) hrun
        · exact eq_of_runAll (fun h => (hstmts count h).2 rfl) hrun
      cases hhit : ops.eval hit σ₁ with
      | none =>
          obtain ⟨old, hold, -⟩ := hσ₁.number
          have hindicator : ops.interpretation.eval σ₁ (.indicator hit) = none := by
            simp [Operations.interpretation, Code.indicator, Operations.eval, hhit]
          refine .fails ?_ ⟨σ, by rw [outcome, hrun]; exact hhit⟩
          simp only [Recorded.result_bind, hresult, Option.bind_some, recordAll_singleton,
            record_update_of_none place hold hindicator]
      | some b =>
          obtain ⟨old, v, new, k, hold, hv, hnew, hle, hσ'⟩ :=
            hσ₁.exists_update hops hcount hhit
          have hlast : recordAll ops.interpretation
              [.update (.name count) .add (.indicator hit)] place σ₁ =
                ⟨[.write place count new], some (.next, σ₁.set count new)⟩ := by
            rw [recordAll_singleton]
            exact record_update_of_some (I := ops.interpretation) place hold hv hnew
          refine .ends ?_ hσ' hle ?_
          · simp only [Recorded.result_bind, hresult, Option.bind_some, hlast]
          · rw [Recorded.turns_bind_of_some hresult, if_pos hplace.symm, ← hplace, hturns]
            dsimp only
            rw [hlast]
            rfl

section

variable {ops : Operations V} {loops : List Loop} {count : String} {σ : Store V}

/-- What is needed to count over items: the sizes can be computed, and the variable that counts is
not among the names for that. -/
structure Loop.Countable (ops : Operations V) (loops : List Loop) (count : String) (σ : Store V) :
    Prop where
  isOpened : ∀ loop ∈ loops, loop.IsOpened
  len : σ "len" = none
  range : σ "range" = none
  hasItems : ∀ loop ∈ loops, ∃ vs, loop.countedItems ops σ = some vs
  count : count ∉ sizeNames loops

namespace Loop.Countable

/-- A run of the code that counts can only change the sizes through their names. -/
theorem of_counting (h : Countable ops loops count σ) {m : Nat} {σ' : Store V}
    (hσ' : Counting ops loops σ count m σ') : Countable ops loops count σ' where
  isOpened := h.isOpened
  len := (hσ'.same "len" (List.mem_append_left _ (by decide))).trans h.len
  range := (hσ'.same "range" (List.mem_append_left _ (by decide))).trans h.range
  hasItems := by
    intro loop hloop
    rw [countedItems_congr hloop hσ'.same]
    exact h.hasItems loop hloop
  count := h.count

theorem start (h : Countable ops loops count σ) {zero : V} (hzero : ops.number zero = some 0) :
    Counting ops loops σ count 0 (σ.set count zero) := by
  refine ⟨fun x hx => ?_, zero, Store.set_self σ count zero, by simpa using hzero⟩
  exact σ.set_of_ne zero fun hxc => h.count (hxc ▸ hx)

/-- The number of trials is the product of the sizes. -/
theorem eval_countAll (h : Countable ops loops count σ) (hops : ops.Enumerates) :
    ∃ u, ops.eval (Loop.countAll loops) σ = some u ∧
      ops.number u = some (((loops.map (size ops σ)).prod : Nat) : ℚ) := by
  refine Loop.eval_countAll hops fun loop hloop => ?_
  obtain ⟨vs, hvs⟩ := h.hasItems loop hloop
  exact (h.isOpened loop hloop).eval_count hops h.len hvs

/-- The loops go through as many rounds as the product of the sizes says. -/
theorem nest_tallies (h : Countable ops loops count σ) (hops : ops.Enumerates)
    (hvars : ∀ loop ∈ loops, loop.var ∉ sizeNames loops ∧ loop.var ≠ count) {stmts : List Stmt}
    (hbreak : ∀ s ∈ stmts, s.isBreak = false)
    (hstmts : ∀ x ∈ Stmt.assignedOfAll stmts, x ∉ sizeNames loops ∧ x ≠ count) (hit : Code)
    {m : Nat} {σ' : Store V} (hσ' : Counting ops loops σ count m σ') :
    (Stmt.recordAll ops.interpretation (nest none loops
      (stmts ++ [.update (.name count) .add (.indicator hit)])) [] σ').Tallies loops.length
        (Counting ops loops σ count)
        (∃ σ₁, Stmt.outcome ops.interpretation stmts hit σ₁ = none) m
        (loops.map (size ops σ)).prod [] := by
  refine Loop.nest_tallies (Stmt.update_tallies hops h.count hbreak hstmts hit) ?_ ?_
    (Nat.zero_add _) hσ'
  · intro loop hloop m σ₁ v hσ₁
    exact hσ₁.set (hvars loop hloop).1 (hvars loop hloop).2 v
  · intro loop hloop m σ₁ hσ₁
    have h₁ := h.of_counting hσ₁
    obtain ⟨vs, hvs⟩ := h₁.hasItems loop hloop
    rw [← size_congr hloop hσ₁.same]
    exact (h.isOpened loop hloop).items_source hops h₁.len h₁.range hvs

/-- The code that counts over items goes through as many rounds as the number of trials says, and
counts no more successes than that. -/
theorem counts_rounds (h : Countable ops loops count σ) (hops : ops.Enumerates)
    (hvars : ∀ loop ∈ loops, loop.var ∉ sizeNames loops ∧ loop.var ≠ count) {stmts : List Stmt}
    (hbreak : ∀ s ∈ stmts, s.isBreak = false)
    (hstmts : ∀ x ∈ Stmt.assignedOfAll stmts, x ∉ sizeNames loops ∧ x ≠ count) (hit : Code)
    {code : List Stmt} (hcode : code = .set count (.nat 0) :: nest none loops
      (stmts ++ [.update (.name count) .add (.indicator hit)])) :
    (Stmt.runAll ops.interpretation code σ = none ∧
      ∃ σ₁, Stmt.outcome ops.interpretation stmts hit σ₁ = none) ∨
    ∃ σ' trials successes, ∃ n : Nat, Stmt.runAll ops.interpretation code σ = some (.next, σ') ∧
      ops.eval (countAll loops) σ' = some trials ∧
      ops.number trials = some
        ((Stmt.recordAll ops.interpretation code [] σ).rounds loops.length : ℚ) ∧
      σ' count = some successes ∧ ops.number successes = some (n : ℚ) ∧
      n ≤ (Stmt.recordAll ops.interpretation code [] σ).rounds loops.length := by
  obtain ⟨zero, hzero, hnumber⟩ := hops.zero
  have hnest := h.nest_tallies hops hvars hbreak hstmts hit (h.start hnumber)
  have hset : ops.interpretation.eval σ (.nat 0) = some zero := hzero
  rw [hcode, Recorded.rounds, Stmt.turns_recordAll_set hset,
    Stmt.runAll_cons_of_next (Stmt.run_set hset), ← Stmt.result_recordAll _ []]
  cases hnest with
  | fails hnone hfails => exact .inl ⟨hnone, hfails⟩
  | @ends n σ' hsome hσ' hle hrounds =>
      obtain ⟨successes, hsuccesses, hn⟩ := hσ'.number
      obtain ⟨trials, htrials, hproduct⟩ := (h.of_counting hσ').eval_countAll hops
      -- The number of trials is computed after the loops, the sizes are those from before them.
      have hsizes : loops.map (size ops σ') = loops.map (size ops σ) :=
        List.map_congr_left fun loop hloop => size_congr hloop hσ'.same
      rw [List.length_nil] at hrounds
      refine .inr ⟨σ', trials, successes, n, hsome, htrials, ?_, hsuccesses, hn, ?_⟩
      · rw [hproduct, hsizes, hrounds]
      · omega

end Loop.Countable

end

/-! ## Lowered comparisons -/

/-- The code of a term is not an argument that names its parameter. -/
theorem Term.param?_of_lower {ctx : Context} {t : Term} {c : Code} (h : t.lower ctx = .ok c) :
    c.param? = none := by
  cases t with
  | constant =>
      cases h
      rfl
  | probability | probabilityOverItems | expectation | expectationOverItems => cases h
  | lookup note collection key =>
      rw [Term.lower] at h
      obtain ⟨c, -, h⟩ := except_bind_eq_ok_iff.1 h
      obtain ⟨k, -, h⟩ := except_bind_eq_ok_iff.1 h
      obtain ⟨ty, -, h⟩ := except_bind_eq_ok_iff.1 h
      cases ty <;> cases h <;> rfl
  | identifier note name =>
      cases h
      cases ctx.resolve name <;> rfl
  | tuple =>
      rw [Term.lower] at h
      obtain ⟨items, -, h⟩ := except_bind_eq_ok_iff.1 h
      cases h
      rfl
  | binary =>
      obtain ⟨a, b, -, -, rfl | ⟨f, rfl⟩⟩ := Term.exists_of_lower_binary h <;> rfl
  | sizeOf =>
      rw [Term.lower] at h
      obtain ⟨c, -, h⟩ := except_bind_eq_ok_iff.1 h
      cases h
      rfl
  | call =>
      rw [Term.lower] at h
      obtain ⟨args, -, h⟩ := except_bind_eq_ok_iff.1 h
      cases h
      rfl

theorem Range.Opens.isOpened {ctx inner : Context} {ranges : List Range} {loops : List Loop}
    (h : Range.Opens ctx ranges loops inner) : ∀ loop ∈ loops, loop.IsOpened := by
  induction h with
  | nil => exact List.forall_mem_nil _
  | cons hcollection _ ih =>
      exact List.forall_mem_cons.2 ⟨⟨rfl, Term.param?_of_lower hcollection⟩, ih⟩

theorem Range.Opens.map_var {ctx inner : Context} {ranges : List Range} {loops : List Loop}
    (h : Range.Opens ctx ranges loops inner) : loops.map Loop.var = ranges.map Range.var := by
  induction h with
  | nil => rfl
  | cons _ _ ih => rw [List.map_cons, List.map_cons, ih]; rfl

/-- The names for counting over items are kept apart. Bound are the variables of the ranges and
the names of the body, and the temporaries are counted from the variable that counts on. -/
structure Loop.CountsApart (loops : List Loop) (bound : List String) (first last : Nat) :
    Prop where
  collections : ∀ x ∈ bound, ∀ loop ∈ loops, x ∉ loop.collection.names
  functions : ∀ x ∈ bound, x ∉ ["len", "set", "range"]
  count : tempName first ∉ bound
  temps : ∀ loop ∈ loops, ∀ x ∈ loop.collection.names, ¬ IsTempIn first last x

theorem Loop.CountsApart.notMem_sizeNames {loops : List Loop} {bound : List String}
    {first last : Nat} (h : Loop.CountsApart loops bound first last) {x : String}
    (hx : x ∈ bound ∨ IsTempIn first last x) : x ∉ Loop.sizeNames loops := by
  have hfunctions : ∀ f ∈ ["len", "set", "range"], ¬ IsTempIn first last f := by
    simp only [List.forall_mem_cons]
    exact ⟨not_isTempIn_of_head (by decide) _ _, not_isTempIn_of_head (by decide) _ _,
      not_isTempIn_of_head (by decide) _ _, List.forall_mem_nil _⟩
  intro hmem
  rcases List.mem_append.1 hmem with hmem | hmem
  · exact hx.elim (fun hx => h.functions x hx hmem) (hfunctions x hmem)
  · obtain ⟨loop, hloop, hmem⟩ := List.mem_flatMap.1 hmem
    exact hx.elim (fun hx => h.collections x hx loop hloop hmem) (h.temps loop hloop x hmem)

/-- The number of trials for a probability over items is the number of rounds. If lowering a
comparison succeeds, then from any values of the collections, with names that are kept apart, the
code fails only where the body has no outcome. Otherwise the number of trials evaluates after the
code to the number of rounds that its loops have gone through, and the number of successes is at
most that. -/
theorem Clause.overItems_counts_rounds {target : Target} {mode : Mode} {ctx ctx' : Context}
    {span : Span} {note : Note} {ranges : List Range} {body : Clause} {op : CmpOp} {rhs : Term}
    {v : Verdict}
    (h : ((Clause.compare span (.probabilityOverItems note ranges body) op rhs).lower target
      mode).exec ctx = (.ok v, ctx')) :
    ∃ loops inner stmts hit p alternative k code,
      Range.Opens (ctx.bare.withTemps (ctx.temps + 1)).push ranges loops inner ∧
      body.Emits target inner .boolean stmts hit k ∧ ctx' = ctx.extend k code ∧
      v = target.ofPValue mode (target.library.binomialTest (.name (tempName ctx.temps))
        (Loop.countAll loops) p alternative) ∧
      ∀ {V : Type} (ops : Operations V) (σ : Store V), ops.Enumerates →
        σ "len" = none → σ "range" = none →
        (∀ loop ∈ loops, ∃ vs, loop.countedItems ops σ = some vs) →
        Loop.CountsApart loops (ranges.map Range.var ++ body.binders) ctx.temps k →
        (Stmt.runAll ops.interpretation code σ = none ∧
          ∃ σ₁, Stmt.outcome ops.interpretation stmts hit.code σ₁ = none) ∨
        ∃ σ' trials successes, ∃ n : Nat,
          Stmt.runAll ops.interpretation code σ = some (.next, σ') ∧
          ops.eval (Loop.countAll loops) σ' = some trials ∧
          ops.number trials = some
            ((Stmt.recordAll ops.interpretation code [] σ).rounds loops.length : ℚ) ∧
          σ' (tempName ctx.temps) = some successes ∧ ops.number successes = some (n : ℚ) ∧
          n ≤ (Stmt.recordAll ops.interpretation code [] σ).rounds loops.length := by
  obtain ⟨code, k, hemits, rfl⟩ := (Clause.exec_lower_eq_ok_iff _ _ _ _ _ _).1 h
  cases hemits with
  | compare hplain => cases hplain
  | @probabilityOverItems _ inner _ _ _ _ _ _ _ alternative loops stmts hit p _ _ hranges hbody _ =>
      refine ⟨loops, inner, stmts, hit, p, alternative.text, k, _, hranges, hbody, rfl, rfl, ?_⟩
      intro V ops σ hops hlen hrange hitems hapart
      have hle := hbody.temps_le
      rw [hranges.temps_eq, Context.temps_withTemps] at hle
      have hcount : IsTempIn ctx.temps k (tempName ctx.temps) := ⟨_, Nat.le_refl _, hle, rfl⟩
      have hcountable : Loop.Countable ops loops (tempName ctx.temps) σ :=
        ⟨hranges.isOpened, hlen, hrange, hitems, hapart.notMem_sizeNames (.inr hcount)⟩
      refine hcountable.counts_rounds hops ?_ hbody.isBreak_eq_false ?_ hit.code rfl
      · intro loop hloop
        have hvar : loop.var ∈ ranges.map Range.var ++ body.binders := by
          rw [← hranges.map_var]
          exact List.mem_append_left _ (List.mem_map_of_mem hloop)
        exact ⟨hapart.notMem_sizeNames (.inl hvar), fun heq => hapart.count (heq ▸ hvar)⟩
      · intro x hx
        rcases hbody.assigned_cases x hx with hbound | htemp
        · have hbound := List.mem_append_right (ranges.map Range.var) hbound
          exact ⟨hapart.notMem_sizeNames (.inl hbound), fun heq => hapart.count (heq ▸ hbound)⟩
        · rw [hranges.temps_eq, Context.temps_withTemps] at htemp
          have hlater : ¬ IsTempIn ctx.temps (ctx.temps + 1) x :=
            fun h => h.not_later (Nat.le_refl _) htemp
          refine ⟨hapart.notMem_sizeNames (.inr (htemp.mono (Nat.le_succ _) (Nat.le_refl _))), ?_⟩
          rintro rfl
          exact hlater ⟨_, Nat.le_refl _, Nat.lt_succ_self _, rfl⟩

/-- Operations with sizes and sets of lists, and with sums and products of numbers. -/
def countedLists : Operations Datum :=
  { evenTests with
    global := fun n => if n ∈ ["len", "set", "range"] then some (.function n) else none
    arith := fun
      | .mul, .number x, .number y => some (.number (x * y))
      | _, _, _ => none
    compare := fun
      | .gt, .number x, .number y => some (.number (if x > y then 1 else 0))
      | _, _, _ => none
    call := fun
      | .function "len", [(_, .list items)] => some (.number items.length)
      | .function "set", [(_, .list items)] =>
        some (.list ((items.filterMap evenTests.number).dedup.map .number))
      | .function "range", [(_, .number x)] =>
        some (.list ((List.range x.num.toNat).map fun i : Nat => .number i))
      | _, _ => none
    update := fun
      | .add, .number x, .number y => some (.number (x + y))
      | _, _, _ => none }

theorem enumerates_countedLists : countedLists.Enumerates where
  zero := ⟨.number 0, literal_evenTests 0, rfl⟩
  one := ⟨.number 1, literal_evenTests 1, rfl⟩
  mul := by
    rintro (x | _ | _ | _) (y | _ | _ | _) m n ⟨⟩ ⟨⟩
    exact ⟨_, rfl, congrArg some (Nat.cast_mul m n).symm⟩
  add := by
    rintro (x | _ | _ | _) (y | _ | _ | _) m n ⟨⟩ ⟨⟩
    exact ⟨_, rfl, congrArg some (Nat.cast_add m n).symm⟩
  len := by
    refine ⟨.function "len", rfl, ?_⟩
    rintro (_ | _ | items | _) vs ⟨⟩
    exact ⟨_, rfl, rfl⟩
  range := by
    refine ⟨.function "range", rfl, ?_⟩
    rintro (x | _ | _ | _) n ⟨⟩
    exact ⟨_, _, rfl, rfl, by simp⟩

/-- In at least half of the pairs of an item of the input and one of its values, the item is
larger. -/
def mostlyLarger : Clause :=
  .compare .dummy (.probabilityOverItems {}
    [.mk .dummy "x" (.identifier {} "Input") .elements,
      .mk .dummy "y" (.identifier {} "Input") .uniqueElements]
    (.compare .dummy (.identifier {} "x") .gt (.identifier {} "y"))) .ge (.constant {} "0.5")

def mostlyLargerLoops : List Loop :=
  [⟨"x", .name "Input", .name "Input", .elements⟩,
    ⟨"y", .apply "set" [.name "Input"], .name "Input", .uniqueElements⟩]

def mostlyLargerCode : List Stmt :=
  [.set "t0" (.nat 0),
    .forIn "x" (.name "Input")
      [.forIn "y" (.apply "set" [.name "Input"])
        [.update (.name "t0") .add
          (.indicator (.group (.name "x") (.compare .gt) (.name "y")))]]]

def threeItems : Store Datum := fun name =>
  if name = "Input" then some (.list [.number 1, .number 2, .number 2]) else none

/-- At least half of the items of the input are positive, where the variable of the range has the
name of the first temporary. -/
def lookalikeItems : Clause :=
  .compare .dummy (.probabilityOverItems {} [.mk .dummy "t0" (.identifier {} "Input") .elements]
    (.compare .dummy (.identifier {} "t0") .gt (.constant {} "0"))) .ge (.constant {} "0.5")

def lookalikeItemsCode : List Stmt :=
  [.set "t0" (.nat 0),
    .forIn "t0" (.name "Input")
      [.update (.name "t0") .add
        (.indicator (.group (.name "t0") (.compare .gt) (.verbatim "0")))]]

def oneItem : Store Datum := fun name =>
  if name = "Input" then some (.list [.number 5]) else none

/-- Of three items and their two values there are six pairs. With a variable of the range that looks
like the one that counts, a single item makes six successes. -/
theorem Clause.overItems_counts_rounds_mostlyLarger :
    ((mostlyLarger.lower {} .boolean).exec (Context.start ["Input"]) =
        (.ok (Target.ofPValue {} .boolean ((Target.library {}).binomialTest (.name "t0")
          (Loop.countAll mostlyLargerLoops) (.verbatim "0.5") "less")),
          (Context.start ["Input"]).extend 1 mostlyLargerCode) ∧
      (Stmt.recordAll countedLists.interpretation mostlyLargerCode [] threeItems).rounds 2 = 6 ∧
      ∃ σ' trials successes, ∃ n : Nat,
        Stmt.runAll countedLists.interpretation mostlyLargerCode threeItems = some (.next, σ') ∧
        countedLists.eval (Loop.countAll mostlyLargerLoops) σ' = some trials ∧
        countedLists.number trials = some ((6 : Nat) : ℚ) ∧ σ' "t0" = some successes ∧
        countedLists.number successes = some (n : ℚ) ∧ n ≤ 6) ∧
    (∃ v, (lookalikeItems.lower {} .boolean).exec (Context.start ["Input"]) =
        (.ok v, (Context.start ["Input"]).extend 1 lookalikeItemsCode)) ∧
    ∃ σ', Stmt.runAll countedLists.interpretation lookalikeItemsCode oneItem =
        some (.next, σ') ∧ σ' "t0" = some (.number 6) ∧
      (Stmt.recordAll countedLists.interpretation lookalikeItemsCode [] oneItem).rounds 1 = 1 := by
  have hlower : (mostlyLarger.lower {} .boolean).exec (Context.start ["Input"]) =
      (.ok (Target.ofPValue {} .boolean ((Target.library {}).binomialTest (.name "t0")
        (Loop.countAll mostlyLargerLoops) (.verbatim "0.5") "less")),
        (Context.start ["Input"]).extend 1 mostlyLargerCode) := rfl
  have hrounds : (Stmt.recordAll countedLists.interpretation mostlyLargerCode []
      threeItems).rounds 2 = 6 := rfl
  have hitems : ∀ loop ∈ mostlyLargerLoops, ∃ vs,
      loop.countedItems countedLists threeItems = some vs :=
    List.forall_mem_cons.2 ⟨⟨_, rfl⟩, List.forall_mem_singleton.2 ⟨_, rfl⟩⟩
  have hinput : ∀ x ∈ ["Input"], ¬ IsTempIn 0 1 x :=
    List.forall_mem_singleton.2 (not_isTempIn_of_head (by decide) 0 1)
  have htemps : ∀ loop ∈ mostlyLargerLoops, ∀ x ∈ loop.collection.names, ¬ IsTempIn 0 1 x :=
    List.forall_mem_cons.2 ⟨hinput, List.forall_mem_singleton.2 hinput⟩
  have hsix : (5 : ℚ) + ((1 : Nat) : ℚ) = 6 := by decide +kernel
  refine ⟨⟨hlower, hrounds, ?_⟩, ⟨_, rfl⟩, _, rfl, congrArg (some ∘ Datum.number) hsix, rfl⟩
  obtain ⟨loops, inner, stmts, hit, p, alternative, k, code, hopens, hemits, hctx, -, hcounts⟩ :=
    Clause.overItems_counts_rounds hlower
  obtain rfl : mostlyLargerCode = code := congrArg Context.block hctx
  cases hopens with | cons h₁ hopens => ?_
  cases hopens with | cons h₂ hopens => ?_
  cases hopens
  cases h₁
  cases h₂
  cases hemits with | compare => ?_
  rw [← hrounds]
  rcases hcounts countedLists threeItems enumerates_countedLists rfl rfl hitems
    ⟨by decide, by decide, by decide, htemps⟩ with ⟨hnone, -⟩ | hends
  · cases hnone
  · exact hends

end StatContract
