import StatContract.Proofs.Lowering.Emission
import StatContract.Proofs.Spec.Truth
import StatContract.Proofs.Typing.Analysis
import Mathlib.Data.List.Dedup

/-!
# The meaning of lowered clauses

Running the statements of a logical clause and then evaluating its verdict gives
the truth of the clause. The code has one flat scope while the clause has nested
ones, and the verdict of an operand is evaluated only after the statements of
the other operand have run. So the simulation carries two facts besides the
truth itself. A run changes only the names that the clause binds and the
temporaries handed out for it. And the verdict keeps its value as long as the
names that the clause can see, binds or got as temporaries keep theirs.

For both, the names have to be kept apart: what is bound in the clause must be
new, and neither a bound name nor a name that is read directly may look like a
temporary.
-/

namespace StatContract

/-- The names that the code reads besides those of the clause. -/
def reservedNames : List String := ["Config", "len", "set", "range"]

theorem not_isTemp_of_mem_reservedNames {name : String} (h : name ∈ reservedNames) :
    ¬ IsTemp name := by
  have hhead : ∀ r ∈ reservedNames, r.toList.head? ≠ some 't' := by decide
  exact not_isTemp_of_head (hhead name h)

/-- The names of a piece of a clause are kept apart in its surroundings: those
that it binds and those that it reads from outside. -/
structure NamesApart (ctx : Context) (bound free : List String) : Prop where
  nodup : bound.Nodup
  hidden : ∀ x ∈ bound, ctx.isVisible x = false
  bound_not_temp : ∀ x ∈ bound, ¬ IsTemp x
  bound_not_reserved : ∀ x ∈ bound, x ∉ reservedNames
  free_not_temp : ∀ x ∈ free, ctx.isVisible x = true → ¬ IsTemp x

namespace NamesApart

variable {ctx : Context} {bound free : List String}

/-- A piece binds and reads part of the names. -/
theorem mono {bound' free' : List String} (h : NamesApart ctx bound free)
    (hbound : bound'.Sublist bound) (hfree : ∀ x ∈ free', x ∈ free) :
    NamesApart ctx bound' free' where
  nodup := h.nodup.sublist hbound
  hidden := fun x hx => h.hidden x (hbound.subset hx)
  bound_not_temp := fun x hx => h.bound_not_temp x (hbound.subset hx)
  bound_not_reserved := fun x hx => h.bound_not_reserved x (hbound.subset hx)
  free_not_temp := fun x hx => h.free_not_temp x (hfree x hx)

/-- In the scope of a bound name the others are still apart. -/
theorem declare {name : String} {free' : List String} (h : NamesApart ctx (name :: bound) free)
    (hfree : ∀ x ∈ free', x ≠ name → x ∈ free) :
    NamesApart (ctx.declare name) bound free' where
  nodup := (List.nodup_cons.1 h.nodup).2
  hidden := by
    intro x hx
    have hne : x ≠ name := by
      rintro rfl
      exact (List.nodup_cons.1 h.nodup).1 hx
    have hhidden := h.hidden x (List.mem_cons_of_mem name hx)
    rw [Bool.eq_false_iff, Ne, Context.isVisible_declare_iff]
    simp [hne, hhidden]
  bound_not_temp := fun x hx => h.bound_not_temp x (List.mem_cons_of_mem name hx)
  bound_not_reserved := fun x hx => h.bound_not_reserved x (List.mem_cons_of_mem name hx)
  free_not_temp := by
    intro x hx hvisible
    by_cases hname : x = name
    · exact hname ▸ h.bound_not_temp name List.mem_cons_self
    · rw [Context.isVisible_declare_iff] at hvisible
      exact h.free_not_temp x (hfree x hx hname) (hvisible.resolve_left hname)

theorem push (h : NamesApart ctx bound free) : NamesApart ctx.push bound free where
  nodup := h.nodup
  hidden := fun x hx => by rw [Context.isVisible_push]; exact h.hidden x hx
  bound_not_temp := h.bound_not_temp
  bound_not_reserved := h.bound_not_reserved
  free_not_temp := fun x hx hvisible => h.free_not_temp x hx (by simpa using hvisible)

/-- The number of temporaries does not matter. -/
theorem withTemps (h : NamesApart ctx bound free) (k : Nat) :
    NamesApart (ctx.withTemps k) bound free where
  nodup := h.nodup
  hidden := h.hidden
  bound_not_temp := h.bound_not_temp
  bound_not_reserved := h.bound_not_reserved
  free_not_temp := h.free_not_temp

end NamesApart

theorem Context.resolve_of_visible {ctx : Context} {x : String} (htrial : ctx.trial = none)
    (h : ctx.isVisible x = true) : ctx.resolve x = .here x := by
  simp [Context.resolve, h, htrial]

theorem Context.resolve_of_hidden {ctx : Context} {x : String} (h : ctx.isVisible x = false) :
    ctx.resolve x = .config x := by
  simp [Context.resolve, h]

/-- The code for a name reads the name itself, when it is visible, and the
configuration otherwise. -/
theorem Context.eval_resolve_congr {ctx : Context} (htrial : ctx.trial = none) {x : String}
    (order : SetOrder) {σ σ' : Store Value} (hvisible : ctx.isVisible x = true → σ' x = σ x)
    (hconfig : σ' "Config" = σ "Config") :
    (ctx.resolve x).code.eval order σ' = (ctx.resolve x).code.eval order σ := by
  cases hvis : ctx.isVisible x with
  | true =>
      rw [Context.resolve_of_visible htrial hvis]
      exact hvisible hvis
  | false =>
      rw [Context.resolve_of_hidden hvis]
      simp only [Reference.code, Code.entry, Code.eval]
      rw [hconfig]

/-- The code reaches the values of names: each of them has a value of its type,
and the code for the name evaluates to it. -/
structure Represents (order : SetOrder) (ctx : Context) (Γ : LexicalEnv) (ρ σ : Store Value)
    (names : List String) : Prop where
  trial : ctx.trial = none
  builtins : ∀ f ∈ ["len", "set", "range"], σ f = none
  values : ∀ x ∈ names, ∃ v, ρ x = some v ∧ v.HasType (Γ.typeOf x) ∧
    (ctx.resolve x).code.eval order σ = some v

namespace Represents

variable {order : SetOrder} {ctx : Context} {Γ : LexicalEnv} {ρ σ : Store Value}
  {names : List String}

/-- Visible names are read directly, and the others from the configuration. -/
theorem of_read (htrial : ctx.trial = none) (hbuiltins : ∀ f ∈ ["len", "set", "range"], σ f = none)
    (hvalues : ∀ x ∈ names, ∃ v, ρ x = some v ∧ v.HasType (Γ.typeOf x) ∧
      if ctx.isVisible x then σ x = some v
      else ∃ entries, σ "Config" = some (.dict entries) ∧ entries.lookup x = some v) :
    Represents order ctx Γ ρ σ names := by
  refine ⟨htrial, hbuiltins, fun x hx => ?_⟩
  obtain ⟨v, hρ, hty, hread⟩ := hvalues x hx
  refine ⟨v, hρ, hty, ?_⟩
  cases hvisible : ctx.isVisible x with
  | true =>
      rw [if_pos hvisible] at hread
      rw [Context.resolve_of_visible htrial hvisible]
      exact hread
  | false =>
      rw [hvisible, if_neg (by decide)] at hread
      obtain ⟨entries, hconfig, hlookup⟩ := hread
      rw [Context.resolve_of_hidden hvisible]
      simp only [Reference.code, Code.entry, Code.eval, hconfig]
      exact hlookup

theorem mono {names' : List String} (h : Represents order ctx Γ ρ σ names)
    (hnames : ∀ x ∈ names', x ∈ names) : Represents order ctx Γ ρ σ names' where
  trial := h.trial
  builtins := h.builtins
  values := fun x hx => h.values x (hnames x hx)

/-- Only what is read matters: the visible names and the reserved ones. -/
theorem congr {σ' : Store Value} (h : Represents order ctx Γ ρ σ names)
    (hvisible : ∀ x ∈ names, ctx.isVisible x = true → σ' x = σ x)
    (hreserved : ∀ x ∈ reservedNames, σ' x = σ x) : Represents order ctx Γ ρ σ' names where
  trial := h.trial
  builtins := by
    intro f hf
    rw [hreserved f (List.mem_cons_of_mem _ hf)]
    exact h.builtins f hf
  values := by
    intro x hx
    obtain ⟨v, hρ, hty, heval⟩ := h.values x hx
    refine ⟨v, hρ, hty, ?_⟩
    rw [← heval]
    exact Context.eval_resolve_congr h.trial order (hvisible x hx)
      (hreserved "Config" List.mem_cons_self)

/-- In the scope of a name that was given a value. -/
theorem declare {names' : List String} {name : String} {v : Value} {τ : ValueType}
    (h : Represents order ctx Γ ρ σ names) (hnames : ∀ x ∈ names', x ≠ name → x ∈ names)
    (hv : v.HasType τ) (hname : name ∉ reservedNames) :
    Represents order (ctx.declare name) ((name, τ) :: Γ) (ρ.set name v) (σ.set name v) names' where
  trial := by rw [Context.trial_declare, h.trial]
  builtins := by
    intro f hf
    have hne : f ≠ name := by
      rintro rfl
      exact hname (List.mem_cons_of_mem _ hf)
    rw [Store.set_of_ne σ v hne]
    exact h.builtins f hf
  values := by
    intro x hx
    by_cases hx' : x = name
    · subst hx'
      refine ⟨v, Store.set_self ρ x v, by simpa [LexicalEnv.typeOf] using hv, ?_⟩
      rw [Context.resolve_of_visible (by rw [Context.trial_declare, h.trial])
        ((Context.isVisible_declare_iff ctx x x).2 (.inl rfl))]
      exact Store.set_self σ x v
    · obtain ⟨w, hρ, hty, heval⟩ := h.values x (hnames x hx hx')
      have hlookup : LexicalEnv.typeOf ((name, τ) :: Γ) x = LexicalEnv.typeOf Γ x := by
        have hne : (x == name) = false := by simpa using hx'
        simp [LexicalEnv.typeOf, List.lookup_cons, hne]
      refine ⟨w, by rw [Store.set_of_ne ρ v hx', hρ], by rw [hlookup]; exact hty, ?_⟩
      have hres : (ctx.declare name).resolve x = ctx.resolve x := by
        have hvis : (ctx.declare name).isVisible x = ctx.isVisible x := by
          rw [Bool.eq_iff_iff, Context.isVisible_declare_iff]
          simp [hx']
        rw [Context.resolve, Context.resolve, hvis, Context.trial_declare]
      rw [hres, ← heval]
      refine Context.eval_resolve_congr h.trial order (fun _ => Store.set_of_ne σ v hx') ?_
      refine Store.set_of_ne σ v ?_
      rintro rfl
      exact hname List.mem_cons_self

theorem push (h : Represents order ctx Γ ρ σ names) : Represents order ctx.push Γ ρ σ names where
  trial := h.trial
  builtins := h.builtins
  values := by
    intro x hx
    obtain ⟨v, hρ, hty, heval⟩ := h.values x hx
    refine ⟨v, hρ, hty, ?_⟩
    have hres : ctx.push.resolve x = ctx.resolve x := by
      rw [Context.resolve, Context.resolve, Context.isVisible_push]
      rfl
    rw [hres, heval]

theorem withTemps (h : Represents order ctx Γ ρ σ names) (k : Nat) :
    Represents order (ctx.withTemps k) Γ ρ σ names where
  trial := h.trial
  builtins := h.builtins
  values := h.values

end Represents

/-- The stores differ at most in some names and in some temporaries. -/
def SameExcept (names : List String) (temps : Nat → Prop) (σ σ' : Store Value) : Prop :=
  ∀ n, n ∉ names → (∀ i, temps i → n ≠ tempName i) → σ' n = σ n

namespace SameExcept

variable {names : List String} {temps : Nat → Prop} {σ σ' σ'' : Store Value}

theorem refl : SameExcept names temps σ σ := fun _ _ _ => rfl

theorem trans (h : SameExcept names temps σ σ') (h' : SameExcept names temps σ' σ'') :
    SameExcept names temps σ σ'' :=
  fun n hn htemps => (h' n hn htemps).trans (h n hn htemps)

theorem mono {names' : List String} {temps' : Nat → Prop} (h : SameExcept names temps σ σ')
    (hnames : ∀ x ∈ names, x ∈ names') (htemps : ∀ i, temps i → temps' i) :
    SameExcept names' temps' σ σ' :=
  fun n hn ht => h n (fun hmem => hn (hnames n hmem)) fun i hi => ht i (htemps i hi)

theorem set {name : String} (h : SameExcept names temps σ σ') (hname : name ∈ names) (v : Value) :
    SameExcept names temps σ (σ'.set name v) := by
  intro n hn htemps
  have hne : n ≠ name := by
    rintro rfl
    exact hn hname
  rw [Store.set_of_ne _ _ hne]
  exact h n hn htemps

theorem setTemp {i : Nat} (h : SameExcept names temps σ σ') (hi : temps i) (v : Value) :
    SameExcept names temps σ (σ'.set (tempName i) v) := by
  intro n hn htemps
  rw [Store.set_of_ne _ _ (htemps i hi)]
  exact h n hn htemps

end SameExcept

/-- What a piece reads is not changed by giving values to the names that it binds
and to temporaries. -/
theorem NamesApart.represents {order : SetOrder} {ctx : Context} {bound free : List String}
    {Γ : LexicalEnv} {ρ σ σ' : Store Value} (hapart : NamesApart ctx bound free)
    {temps : Nat → Prop} (hrep : Represents order ctx Γ ρ σ free)
    (hsame : SameExcept bound temps σ σ') : Represents order ctx Γ ρ σ' free := by
  refine hrep.congr ?_ ?_
  · intro x hx hvisible
    refine hsame x ?_ fun i _ hi => hapart.free_not_temp x hx hvisible ⟨i, hi⟩
    intro hmem
    rw [hapart.hidden x hmem] at hvisible
    cases hvisible
  · intro x hx
    exact hsame x (fun hmem => hapart.bound_not_reserved x hmem hx)
      fun i _ hi => not_isTemp_of_mem_reservedNames hx ⟨i, hi⟩

/-- A function that no variable hides is applied. -/
theorem Code.eval_builtin {order : SetOrder} {σ : Store Value} {function : String} {c : Code}
    {v : Value} (hfunction : σ function = none) (hc : c.eval order σ = some v) :
    (Code.apply function [c]).eval order σ = v.builtin? order function := by
  simp only [Code.apply, Code.eval, hc, hfunction]
  rfl

/-- A running conjunction that holds so far takes the value of the next
condition. -/
theorem Code.eval_and_of_true {order : SetOrder} {σ : Store Value} {name : String} {c : Code}
    {v : Value} (hname : σ name = some (.bool true)) (hc : c.eval order σ = some v) :
    (Code.binary (.name name) (.logic .and) c).eval order σ = some v := by
  simp only [Code.eval, hname, hc]
  rfl

theorem Code.eval_arith {order : SetOrder} {σ : Store Value} {a b : Code} {v w : Value}
    (op : ArithOp) (ha : a.eval order σ = some v) (hb : b.eval order σ = some w) :
    (Code.group a (.arith op) b).eval order σ = v.arith? op w := by
  simp only [Code.group, Code.eval, ha, hb]
  rfl

theorem Code.eval_compare {order : SetOrder} {σ : Store Value} {a b : Code} {v w : Value}
    (op : CmpOp) (ha : a.eval order σ = some v) (hb : b.eval order σ = some w) :
    (Code.group a (.compare op) b).eval order σ = (v.compare? op w).map .bool := by
  simp only [Code.group, Code.eval, ha, hb]
  rfl

theorem Code.eval_within {order : SetOrder} {σ : Store Value} {a b : Code} {v : Value}
    {ws : List Value} (ha : a.eval order σ = some v) (hb : b.eval order σ = some (.list ws)) :
    (Code.group a .within b).eval order σ = (v.memberOf? ws).map .bool := by
  simp only [Code.group, Code.eval, ha, hb]
  rfl

/-- The truth of two conditions with a connective. -/
def LogicOp.apply : LogicOp → Bool → Bool → Bool
  | .and => (· && ·)
  | .or => (· || ·)

/-- A connective between two conditions. -/
theorem Code.eval_logic {order : SetOrder} {σ : Store Value} {a b : Code} {p q : Bool}
    (op : LogicOp) (ha : a.eval order σ = some (.bool p)) (hb : b.eval order σ = some (.bool q)) :
    (Code.group a (.logic op) b).eval order σ = some (.bool (op.apply p q)) := by
  cases op <;> cases p <;> simp [Code.group, Code.eval, ha, hb, Value.truth, LogicOp.apply]

theorem Code.eval_not {order : SetOrder} {σ : Store Value} {c : Code} {b : Bool}
    (hc : c.eval order σ = some (.bool b)) :
    (Code.paren (.not c)).eval order σ = some (.bool !b) := by
  simp only [Code.eval, hc]
  rfl

/-- Arithmetic on scalars is lowered as it stands. -/
theorem Term.lower_binary_of_scalar {lhs rhs : Term} (hlhs : lhs.ty = some .scalar)
    (hrhs : rhs.ty = some .scalar) {note : Note} {op : ArithOp} {ctx : Context} :
    (Term.binary note lhs op rhs).lower ctx = (do
      let a ← lhs.lower ctx
      let b ← rhs.lower ctx
      return .group a (.arith op) b) := by
  rw [Term.lower, (Term.requireType_eq_ok_iff lhs _).2 hlhs,
    (Term.requireType_eq_ok_iff rhs _).2 hrhs]
  rfl

/-- Plain annotated terms have code. -/
theorem Term.lower_of_isPlain (ctx : Context) : ∀ {t : Term} {Γ : LexicalEnv} {τ : ValueType},
    t.isPlain = true → t.Annotated Γ τ → ∃ c, t.lower ctx = .ok c
  | .constant .., _, _, _, _ => ⟨_, rfl⟩
  | .identifier .., _, _, _, _ => ⟨_, rfl⟩
  | .sizeOf note collection, Γ, τ, hplain, hann => by
      simp only [Term.isPlain, Bool.and_eq_true] at hplain
      cases hann with
      | sizeOf hcollection =>
          obtain ⟨c, hc⟩ := Term.lower_of_isPlain ctx hplain.1 hcollection
          exact ⟨.len c, by rw [Term.lower, hc]; rfl⟩
  | .binary note lhs op rhs, Γ, τ, hplain, hann => by
      simp only [Term.isPlain, Bool.and_eq_true, beq_iff_eq] at hplain
      obtain ⟨⟨⟨⟨hl, hr⟩, -⟩, hlty⟩, hrty⟩ := hplain
      cases hann with
      | binary hlhs hrhs =>
          obtain ⟨a, ha⟩ := Term.lower_of_isPlain ctx hl hlhs
          obtain ⟨b, hb⟩ := Term.lower_of_isPlain ctx hr hrhs
          refine ⟨.group a (.arith op) b, ?_⟩
          rw [Term.lower_binary_of_scalar hlty hrty, ha, hb]
          rfl

/-- The code of a plain term evaluates to the value of the term, which has the
type of the term. -/
theorem Term.eval_of_isPlain {order : SetOrder} {ctx : Context} {ρ σ : Store Value} :
    ∀ {t : Term} {Γ : LexicalEnv} {τ : ValueType} {c : Code}, t.isPlain = true →
      t.Annotated Γ τ → Represents order ctx Γ ρ σ t.freeNames → t.lower ctx = .ok c →
      ∃ v, t.denote ρ = some v ∧ v.HasType τ ∧ c.eval order σ = some v
  | .constant note text, Γ, τ, c, hplain, hann, _, hc => by
      simp only [Term.isPlain, Option.isSome_iff_exists] at hplain
      obtain ⟨n, hn⟩ := hplain
      cases hann
      cases hc
      refine ⟨.int n, by rw [Term.denote, hn]; rfl, .int n, ?_⟩
      -- Text that is taken over may also be the constant for truth, but that is no numeral.
      have htrue : text ≠ "True" := by
        rintro rfl
        have hnone : numeral? "True" = none := by decide
        rw [hnone] at hn
        cases hn
      rw [Code.eval, if_neg htrue, hn]
      rfl
  | .identifier note name, Γ, τ, c, _, hann, hrep, hc => by
      cases hann
      cases hc
      obtain ⟨v, hρ, hty, heval⟩ := hrep.values name List.mem_cons_self
      exact ⟨v, hρ, hty, heval⟩
  | .sizeOf note collection, Γ, τ, c, hplain, hann, hrep, hc => by
      simp only [Term.isPlain, Bool.and_eq_true] at hplain
      rw [Term.lower] at hc
      obtain ⟨a, ha, hc⟩ := except_bind_eq_ok_iff.1 hc
      cases hc
      cases hann with
      | @sizeOf _ _ _ σ' hcollection =>
          obtain ⟨v, hv, hty, heval⟩ := Term.eval_of_isPlain hplain.1 hcollection hrep ha
          obtain ⟨τ', rfl⟩ : ∃ τ', σ' = .sequence τ' := by
            simpa [hcollection.ty_eq] using hplain.2
          cases hty with
          | @list vs _ _ =>
              refine ⟨.int vs.length, by rw [Term.denote, hv], .int _, ?_⟩
              exact Code.eval_builtin (hrep.builtins "len" (by decide)) heval
  | .binary note lhs op rhs, Γ, τ, c, hplain, hann, hrep, hc => by
      simp only [Term.isPlain, Bool.and_eq_true, beq_iff_eq] at hplain
      obtain ⟨⟨⟨⟨hl, hr⟩, hop⟩, hlty⟩, hrty⟩ := hplain
      rw [Term.lower_binary_of_scalar hlty hrty] at hc
      obtain ⟨a, ha, hc⟩ := except_bind_eq_ok_iff.1 hc
      obtain ⟨b, hb, hc⟩ := except_bind_eq_ok_iff.1 hc
      cases hc
      cases hann with
      | binary hlhs hrhs =>
          obtain rfl : τ = .scalar := by simpa [hlhs.ty_eq] using hlty
          obtain ⟨v, hv, hvty, hveval⟩ := Term.eval_of_isPlain hl hlhs
            (hrep.mono fun x hx => List.mem_append_left _ hx) ha
          obtain ⟨w, hw, hwty, hweval⟩ := Term.eval_of_isPlain hr hrhs
            (hrep.mono fun x hx => List.mem_append_right _ hx) hb
          cases hvty with
          | int i =>
              cases hwty with
              | int j =>
                  have heval := Code.eval_arith op hveval hweval
                  cases op with
                  | add => exact ⟨.int (i + j), by simp only [Term.denote, hv, hw], .int _, heval⟩
                  | sub => exact ⟨.int (i - j), by simp only [Term.denote, hv, hw], .int _, heval⟩
                  | mul => exact ⟨.int (i * j), by simp only [Term.denote, hv, hw], .int _, heval⟩
                  | div | pow => simp at hop

/-- The names that the verdict of a piece of a clause depends on, when the piece
has bound some names and there are `k` temporaries: what can be seen from it, what
it has bound, the reserved names, and the temporaries. -/
def Kept (ctx : Context) (bound : List String) (k : Nat) (n : String) : Prop :=
  (ctx.isVisible n = true ∧ ¬ IsTemp n) ∨ n ∈ bound ∨ n ∈ reservedNames ∨ ∃ j < k, n = tempName j

theorem Kept.mono {ctx : Context} {bound bound' : List String} {k k' : Nat} {n : String}
    (h : Kept ctx bound k n) (hbound : ∀ x ∈ bound, x ∈ bound') (hk : k ≤ k') :
    Kept ctx bound' k' n := by
  rcases h with hvisible | hmem | hreserved | ⟨j, hj, rfl⟩
  · exact .inl hvisible
  · exact .inr (.inl (hbound n hmem))
  · exact .inr (.inr (.inl hreserved))
  · exact .inr (.inr (.inr ⟨j, Nat.lt_of_lt_of_le hj hk, rfl⟩))

/-- In the scope of a name, what is visible besides is the name, which counts as
bound outside of the scope. -/
theorem Kept.of_declare {ctx : Context} {bound : List String} {k : Nat} {name n : String}
    (h : Kept (ctx.push.declare name) bound k n) : Kept ctx (name :: bound) k n := by
  rcases h with ⟨hvisible, htemp⟩ | hmem | hrest
  · rw [Context.isVisible_declare_iff, Context.isVisible_push] at hvisible
    rcases hvisible with rfl | hvisible
    · exact .inr (.inl List.mem_cons_self)
    · exact .inl ⟨hvisible, htemp⟩
  · exact .inr (.inl (List.mem_cons_of_mem name hmem))
  · exact .inr (.inr hrest)

/-- A run of the statements of a piece of a clause. It ends with the next
statement, it changes only what the piece binds and its temporaries, and the
verdict has the value `b`, as long as the names that it depends on are kept. -/
structure Decision (order : SetOrder) (ctx : Context) (bound : List String) (stmts : List Stmt)
    (verdict : Code) (k : Nat) (σ σ' : Store Value) (b : Bool) : Prop where
  run : Stmt.runAll (Value.interpretation order) stmts σ = some (.next, σ')
  frame : SameExcept bound (fun i => ctx.temps ≤ i ∧ i < k) σ σ'
  verdict : ∀ σ'', (∀ n, Kept ctx bound k n → σ'' n = σ' n) → verdict.eval order σ'' = some (.bool b)

namespace Decision

variable {order : SetOrder} {ctx : Context} {bound free : List String} {stmts : List Stmt}
  {verdict : Code} {k : Nat} {σ σ' : Store Value} {b : Bool}

/-- A run leaves alone what the verdict of an earlier piece depends on, if the
two bind different names. -/
theorem eq_of_kept (h : Decision order ctx bound stmts verdict k σ σ' b)
    (hapart : NamesApart ctx bound free) (bound' : List String)
    (hbound' : ∀ x ∈ bound', x ∉ bound ∧ ¬ IsTemp x) {n : String}
    (hn : Kept ctx bound' ctx.temps n) : σ' n = σ n := by
  rcases hn with ⟨hvisible, htemp⟩ | hmem | hreserved | ⟨j, hj, rfl⟩
  · refine h.frame n ?_ fun j _ hj => htemp ⟨j, hj⟩
    intro hmem
    rw [hapart.hidden n hmem] at hvisible
    cases hvisible
  · exact h.frame n (hbound' n hmem).1 fun j _ hj => (hbound' n hmem).2 ⟨j, hj⟩
  · refine h.frame n (fun hmem => hapart.bound_not_reserved n hmem hreserved) ?_
    intro j _ hj
    exact not_isTemp_of_mem_reservedNames hreserved ⟨j, hj⟩
  · refine h.frame _ (fun hmem => hapart.bound_not_temp _ hmem ⟨j, rfl⟩) ?_
    intro i hi hji
    have := tempName_injective hji
    omega

end Decision

/-- What a loop runs through are the values of its range variable. -/
theorem Loop.eval_sourceOf {order : SetOrder} {σ : Store Value}
    (hbuiltins : ∀ f ∈ ["len", "set", "range"], σ f = none) {mode : RangeMode} {c : Code}
    {vs : List Value} {τ : ValueType} (hc : c.eval order σ = some (.list vs))
    (hvs : ∀ v ∈ vs, v.HasType τ) (hmode : mode = .uniqueElements → τ = .scalar) :
    ∃ w items, (Loop.sourceOf mode c).eval order σ = some w ∧ w.items? = some items ∧
      ∀ v, v ∈ items ↔ mode.Covers vs v := by
  cases mode with
  | elements => exact ⟨.list vs, vs, hc, rfl, fun v => Iff.rfl⟩
  | uniqueElements =>
      obtain rfl := hmode rfl
      obtain ⟨is, rfl⟩ := Value.exists_ints_of_hasType hvs
      refine ⟨.set (order.arrange is), (order.arrange is).map .int, ?_, rfl, ?_⟩
      · rw [Loop.sourceOf, Code.eval_builtin (hbuiltins "set" (by decide)) hc, Value.builtin?_set]
      · intro v
        simp [RangeMode.Covers, order.mem_arrange]
  | indices =>
      refine ⟨.list ((List.range vs.length).map fun n : Nat => .int n), _, ?_, rfl, ?_⟩
      · have hlen : (Code.len c).eval order σ = some (.int vs.length) :=
          Code.eval_builtin (hbuiltins "len" (by decide)) hc
        rw [Loop.sourceOf, Code.range, Code.eval_builtin (hbuiltins "range" (by decide)) hlen]
        simp [Value.builtin?]
      · intro v
        simp [RangeMode.Covers, eq_comm]

/-- The values of a range variable have the type of the variable. -/
theorem RangeMode.Covers.hasType {mode : RangeMode} {vs : List Value} {v : Value} {τ : ValueType}
    (h : mode.Covers vs v) (hvs : ∀ v ∈ vs, v.HasType τ) : v.HasType (mode.varType τ) := by
  cases mode with
  | elements | uniqueElements => exact hvs v h
  | indices =>
      obtain ⟨i, -, rfl⟩ := h
      exact .int i

/-- A loop that keeps a running conjunction. Each round leaves the outcome of its
test in a variable, and the loop ends with the outcome of all tests there. -/
theorem Loop.run_all {order : SetOrder} {var result : String} {source : Code}
    {inner : List Stmt} {w : Value} {items : List Value} {inv : Store Value → Prop}
    {P : Value → Prop} {σ : Store Value} (hsource : source.eval order σ = some w)
    (hitems : w.items? = some items)
    (hround : ∀ v ∈ items, ∀ σ₁, inv σ₁ → σ₁ result = some (.bool true) →
      ∃ σ₂ b, Stmt.runAll (Value.interpretation order) inner (σ₁.set var v) = some (.next, σ₂) ∧
        inv σ₂ ∧ σ₂ result = some (.bool b) ∧ (b = true ↔ P v))
    (hinv : inv σ) (hyes : σ result = some (.bool true)) :
    ∃ σ' b, Stmt.runAll (Value.interpretation order)
        [.forIn var source (inner ++ [.breakUnless (.name result)])] σ = some (.next, σ') ∧
      inv σ' ∧ σ' result = some (.bool b) ∧ (b = true ↔ ∀ v ∈ items, P v) := by
  have hstep : ∀ v ∈ items, ∀ σ₁, inv σ₁ → σ₁ result = some (.bool true) →
      (∃ σ₂, Stmt.runAll (Value.interpretation order) (inner ++ [.breakUnless (.name result)])
          (σ₁.set var v) = some (.next, σ₂) ∧ inv σ₂ ∧ σ₂ result = some (.bool true) ∧ P v) ∨
      (∃ σ₂, Stmt.runAll (Value.interpretation order) (inner ++ [.breakUnless (.name result)])
          (σ₁.set var v) = some (.leave, σ₂) ∧ inv σ₂ ∧ σ₂ result = some (.bool false) ∧ ¬ P v) := by
    intro v hv σ₁ hinv₁ hyes₁
    obtain ⟨σ₂, b, hrun, hinv₂, hresult, hiff⟩ := hround v hv σ₁ hinv₁ hyes₁
    have heval : (Value.interpretation order).eval σ₂ (.name result) = some (.bool b) := hresult
    have hbreak := Stmt.run_breakUnless heval
    cases b with
    | true =>
        refine .inl ⟨σ₂, ?_, hinv₂, hresult, hiff.1 rfl⟩
        rw [Stmt.runAll_append_of_next hrun, Stmt.runAll_cons_of_next hbreak, Stmt.runAll_nil]
    | false =>
        refine .inr ⟨σ₂, ?_, hinv₂, hresult, fun h => absurd (hiff.2 h) (by decide)⟩
        rw [Stmt.runAll_append_of_next hrun, Stmt.runAll, hbreak]
        rfl
  rcases runLoop_all hstep hinv hyes with ⟨σ', hloop, hinv', hresult, hP⟩ |
    ⟨σ', hloop, hinv', hresult, hP⟩
  · refine ⟨σ', true, ?_, hinv', hresult, by simpa using hP⟩
    rw [Stmt.runAll_cons_of_next (Stmt.run_forIn hsource hitems hloop), Stmt.runAll_nil]
  · refine ⟨σ', false, ?_, hinv', hresult, by simpa using hP⟩
    rw [Stmt.runAll_cons_of_next (Stmt.run_forIn hsource hitems hloop), Stmt.runAll_nil]

/-- Running the loops of a quantifier. The body has a decision in the surroundings
that the ranges lead to, and the running conjunction is in a temporary that was
handed out before. Then the loops end with the conjunction over all values of the
range variables there. -/
theorem Range.run_nest {order : SetOrder} {body : Clause} {stmts : List Stmt} {verdict : Code}
    {k j : Nat} {Δ : LexicalEnv} {ctx inner : Context} {ranges : List Range} {loops : List Loop}
    (hopens : Range.Opens ctx ranges loops inner) (hj : j < inner.temps)
    (hbody : ∀ ρ σ, NamesApart inner body.binders body.freeNames →
      Represents order inner Δ ρ σ body.freeNames →
      ∃ σ' b, Decision order inner body.binders stmts verdict k σ σ' b ∧ (b = true ↔ body.Holds ρ))
    {Γ : LexicalEnv} (hplain : ranges.all Range.isPlain = true)
    (hty : Range.TypedList .filled Γ ranges Δ)
    (hapart : NamesApart ctx (Range.bindersOfAll ranges ++ body.binders)
      (Range.freeNamesOfAll ranges body.freeNames))
    {ρ σ : Store Value}
    (hrep : Represents order ctx Γ ρ σ (Range.freeNamesOfAll ranges body.freeNames))
    (hyes : σ (tempName j) = some (.bool true)) :
    ∃ σ' b, Stmt.runAll (Value.interpretation order)
        (Loop.nest (some (tempName j)) loops (stmts ++
          [.set (tempName j) (.binary (.name (tempName j)) (.logic .and) verdict)])) σ
        = some (.next, σ') ∧
      SameExcept (Range.bindersOfAll ranges ++ body.binders)
        (fun i => i = j ∨ inner.temps ≤ i ∧ i < k) σ σ' ∧
      σ' (tempName j) = some (.bool b) ∧ (b = true ↔ Range.Every ranges ρ body.Holds) := by
  induction hopens generalizing Γ ρ σ with
  | nil =>
      cases hty
      obtain ⟨σ₁, b, hdecision, hiff⟩ := hbody ρ σ hapart hrep
      -- The body was handed later temporaries, so the running conjunction is still there after it.
      have hkept : σ₁ (tempName j) = some (.bool true) := by
        rw [hdecision.eq_of_kept hapart [] nofun (.inr (.inr (.inr ⟨j, hj, rfl⟩))), hyes]
      have hset : Stmt.run (Value.interpretation order)
          (.set (tempName j) (.binary (.name (tempName j)) (.logic .and) verdict)) σ₁ =
          some (.next, σ₁.set (tempName j) (.bool b)) := by
        refine Stmt.run_set ?_
        exact Code.eval_and_of_true hkept (hdecision.verdict σ₁ fun _ _ => rfl)
      refine ⟨σ₁.set (tempName j) (.bool b), b, ?_, ?_, Store.set_self _ _ _, hiff⟩
      · rw [Loop.nest, Stmt.runAll_append_of_next hdecision.run, Stmt.runAll_cons_of_next hset,
          Stmt.runAll_nil]
      · exact (hdecision.frame.mono (fun _ h => h) fun _ h => .inr h).setTemp (.inl rfl) _
  | @cons ctx inner span var collection mode rest c loops hcollection hrest ih =>
      rw [List.all_cons, Bool.and_eq_true, Range.isPlain, Bool.and_eq_true] at hplain
      obtain ⟨⟨hplain, hmode⟩, hplains⟩ := hplain
      obtain ⟨τ, hann, hty⟩ := hty.of_cons
      have hbinders : Range.bindersOfAll (.mk span var collection mode :: rest) ++ body.binders =
          var :: (Range.bindersOfAll rest ++ body.binders) := by
        simp [Term.binders_of_isPlain hplain]
      rw [hbinders] at hapart ⊢
      have hfree : ∀ x ∈ Range.freeNamesOfAll rest body.freeNames, x ≠ var →
          x ∈ Range.freeNamesOfAll (.mk span var collection mode :: rest) body.freeNames := by
        intro x hx hne
        exact List.mem_append_right _ (List.mem_filter.2 ⟨hx, by simpa using hne⟩)
      have hvar : tempName j ≠ var := by
        rintro rfl
        exact hapart.bound_not_temp _ List.mem_cons_self ⟨j, rfl⟩
      obtain ⟨v, hdenote, hv, heval⟩ := Term.eval_of_isPlain hplain hann
        (hrep.mono fun x hx => List.mem_append_left _ hx) hcollection
      cases hv with
      | @list vs _ hvs =>
          have hscalar : mode = .uniqueElements → τ = .scalar := by
            rintro rfl
            simpa [hann.ty_eq] using hmode
          obtain ⟨w, items, hsource, hitems, hcovers⟩ :=
            Loop.eval_sourceOf hrep.builtins heval hvs hscalar
          -- A loop may go through the values in another order and more than once; for all of them
          -- together this makes no difference.
          have hevery : Range.Every (.mk span var collection mode :: rest) ρ body.Holds ↔
              ∀ v ∈ items, Range.Every rest (ρ.set var v) body.Holds := by
            constructor
            · rintro ⟨vs', hdenote', h⟩ v hv
              rw [hdenote] at hdenote'
              cases hdenote'
              exact h v ((hcovers v).1 hv)
            · intro h
              exact ⟨vs, hdenote, fun v hv => h v ((hcovers v).2 hv)⟩
          simp only [hevery]
          refine Loop.run_all hsource hitems ?_ .refl hyes
          -- Each round starts from a store that differs only in what the loops write.
          intro v hv σ₁ hsame hyes₁
          have hrep₁ := (hapart.represents hrep hsame).declare hfree
            (((hcovers v).1 hv).hasType hvs) (hapart.bound_not_reserved var List.mem_cons_self)
          obtain ⟨σ₂, b, hrun, hframe, hresult, hiff⟩ := ih hj hbody hplains hty
            (hapart.declare hfree) hrep₁ (by rw [Store.set_of_ne _ _ hvar, hyes₁])
          have hsame₂ := (hsame.set List.mem_cons_self v).trans
            (hframe.mono (fun _ h => List.mem_cons_of_mem var h) fun _ h => h)
          exact ⟨σ₂, b, hrun, hsame₂, hresult, hiff⟩

/-- Plain annotated ranges have loops. -/
theorem Range.opens_of_isPlain : ∀ {ranges : List Range} {Γ Δ : LexicalEnv} (ctx : Context),
    ranges.all Range.isPlain = true → Range.TypedList .filled Γ ranges Δ →
      ∃ loops inner, Range.Opens ctx ranges loops inner
  | [], _, _, ctx, _, _ => ⟨[], ctx, .nil⟩
  | .mk span var collection mode :: rest, Γ, Δ, ctx, hplain, hty => by
      rw [List.all_cons, Bool.and_eq_true, Range.isPlain, Bool.and_eq_true] at hplain
      obtain ⟨τ, hann, hty⟩ := hty.of_cons
      obtain ⟨c, hc⟩ := Term.lower_of_isPlain ctx hplain.1.1 hann
      obtain ⟨loops, inner, hopens⟩ := Range.opens_of_isPlain (ctx.declare var) hplain.2 hty
      exact ⟨_, inner, .cons hc hopens⟩

/-- Logical annotated clauses can be lowered to a condition. -/
theorem Clause.emits_of_isLogical (target : Target) : ∀ {c : Clause} {Γ : LexicalEnv}
    (ctx : Context), c.isLogical = true → c.Annotated Γ →
      ∃ stmts code k, c.Emits target ctx .boolean stmts (.boolean code) k
  | .forAll span ranges body, Γ, ctx, hlogical, hann => by
      rw [Clause.isLogical, Bool.and_eq_true] at hlogical
      cases hann with
      | forAll hranges hbody =>
          obtain ⟨loops, inner, hopens⟩ := Range.opens_of_isPlain
            (ctx.withTemps (ctx.temps + 1)).push hlogical.1 hranges
          obtain ⟨stmts, code, k, hemits⟩ := Clause.emits_of_isLogical target inner hlogical.2 hbody
          have hdomain : body.domain ≠ .overRuns := by
            rw [Clause.domain_of_isLogical hlogical.2]
            decide
          exact ⟨_, _, k, .forAll hdomain hopens hemits⟩
  | .letIn span name value body, Γ, ctx, hlogical, hann => by
      rw [Clause.isLogical, Bool.and_eq_true] at hlogical
      cases hann with
      | letIn hvalue hbody =>
          obtain ⟨c, hc⟩ := Term.lower_of_isPlain ctx hlogical.1 hvalue
          obtain ⟨stmts, code, k, hemits⟩ :=
            Clause.emits_of_isLogical target (ctx.push.declare name) hlogical.2 hbody
          exact ⟨_, code, k, .letIn hc hemits⟩
  | .membership span item collection, Γ, ctx, hlogical, hann => by
      simp only [Clause.isLogical, Bool.and_eq_true, beq_iff_eq] at hlogical
      obtain ⟨⟨⟨hi, hc⟩, hity⟩, hcty⟩ := hlogical
      cases hann with
      | membership hitem hcollection =>
          obtain ⟨i, hi⟩ := Term.lower_of_isPlain ctx hi hitem
          obtain ⟨c, hc⟩ := Term.lower_of_isPlain ctx hc hcollection
          exact ⟨[], _, _, .membershipList hi hity hc hcty⟩
  | .compare span lhs op rhs, Γ, ctx, hlogical, hann => by
      simp only [Clause.isLogical, Bool.and_eq_true] at hlogical
      cases hann with
      | compare hlhs hrhs =>
          obtain ⟨a, ha⟩ := Term.lower_of_isPlain ctx hlogical.1.1 hlhs
          obtain ⟨b, hb⟩ := Term.lower_of_isPlain ctx hlogical.1.2 hrhs
          exact ⟨[], _, _, .compare (Term.isStatistic_of_isPlain hlogical.1.1) ha hb⟩
  | .logic span lhs op rhs, Γ, ctx, hlogical, hann => by
      rw [Clause.isLogical, Bool.and_eq_true] at hlogical
      cases hann with
      | logic hlhs hrhs =>
          obtain ⟨stmts₁, a, k₁, h₁⟩ := Clause.emits_of_isLogical target ctx hlogical.1 hlhs
          obtain ⟨stmts₂, b, k₂, h₂⟩ :=
            Clause.emits_of_isLogical target (ctx.withTemps k₁) hlogical.2 hrhs
          exact ⟨_, _, k₂, .logic h₁ h₂⟩
  | .not span inner, Γ, ctx, hlogical, hann => by
      rw [Clause.isLogical] at hlogical
      cases hann with
      | not hinner =>
          obtain ⟨stmts, a, k, h⟩ := Clause.emits_of_isLogical target ctx hlogical hinner
          exact ⟨stmts, _, k, .not h⟩

/-- A verdict on two plain terms is decided by their values, without a
statement. -/
theorem Decision.of_terms {order : SetOrder} {ctx : Context} {bound : List String}
    {Γ : LexicalEnv} {ρ σ : Store Value} {lhs rhs : Term} {τ τ' : ValueType} {a b : Code}
    (hl : lhs.isPlain = true) (hr : rhs.isPlain = true) (hlhs : lhs.Annotated Γ τ)
    (hrhs : rhs.Annotated Γ τ') (ha : lhs.lower ctx = .ok a) (hb : rhs.lower ctx = .ok b)
    (hapart : NamesApart ctx bound (lhs.freeNames ++ rhs.freeNames))
    (hrep : Represents order ctx Γ ρ σ (lhs.freeNames ++ rhs.freeNames)) :
    ∃ v w, lhs.denote ρ = some v ∧ v.HasType τ ∧ rhs.denote ρ = some w ∧ w.HasType τ' ∧
      ∀ (verdict : Code) (p : Bool),
        (∀ σ', a.eval order σ' = some v → b.eval order σ' = some w →
          verdict.eval order σ' = some (.bool p)) →
        Decision order ctx bound [] verdict ctx.temps σ σ p := by
  have hterms : ∀ σ', Represents order ctx Γ ρ σ' (lhs.freeNames ++ rhs.freeNames) → _ ∧ _ :=
    fun σ' h => ⟨Term.eval_of_isPlain hl hlhs (h.mono fun x hx => List.mem_append_left _ hx) ha,
      Term.eval_of_isPlain hr hrhs (h.mono fun x hx => List.mem_append_right _ hx) hb⟩
  obtain ⟨⟨v, hv, hvty, -⟩, ⟨w, hw, hwty, -⟩⟩ := hterms σ hrep
  refine ⟨v, w, hv, hvty, hw, hwty, fun verdict p heval => ⟨Stmt.runAll_nil, .refl, ?_⟩⟩
  intro σ' hkept
  -- The verdict may be evaluated later, in a store that agrees on all that the two terms read.
  have hrep' : Represents order ctx Γ ρ σ' (lhs.freeNames ++ rhs.freeNames) := by
    refine hrep.congr ?_ ?_
    · intro x hx hvisible
      exact hkept x (.inl ⟨hvisible, hapart.free_not_temp x hx hvisible⟩)
    · intro x hx
      exact hkept x (.inr (.inr (.inl hx)))
  obtain ⟨⟨v', hv', -, ha'⟩, ⟨w', hw', -, hb'⟩⟩ := hterms σ' hrep'
  rw [hv] at hv'
  rw [hw] at hw'
  cases hv'
  cases hw'
  exact heval σ' ha' hb'

/-- The statements and the verdict of the clause decide its truth. -/
def Clause.Decides (order : SetOrder) (target : Target) (c : Clause) : Prop :=
  ∀ ⦃ctx : Context⦄ ⦃Γ : LexicalEnv⦄ ⦃stmts : List Stmt⦄ ⦃v : Verdict⦄ ⦃k : Nat⦄
    ⦃ρ σ : Store Value⦄, c.Emits target ctx .boolean stmts v k → c.Annotated Γ →
    NamesApart ctx c.binders c.freeNames → Represents order ctx Γ ρ σ c.freeNames →
    ∃ σ' b, Decision order ctx c.binders stmts v.code k σ σ' b ∧ (b = true ↔ c.Holds ρ)

namespace Clause.Decides

variable {order : SetOrder} {target : Target}

/-- A quantifier is decided by its loops. -/
theorem forAll {span : Span} {ranges : List Range} {body : Clause}
    (hplain : ranges.all Range.isPlain = true) (hlogical : body.isLogical = true)
    (hdecides : body.Decides order target) :
    (Clause.forAll span ranges body).Decides order target := by
  intro ctx Γ stmts v k ρ σ hemits hann hapart hrep
  rw [Clause.binders_forAll] at hapart ⊢
  cases hann with
  | forAll hranges hbody =>
      cases hemits with
      -- A logical body has no statistic, so its p-values are never combined.
      | forAllTests hdomain =>
          rw [Clause.domain_of_isLogical hlogical] at hdomain
          cases hdomain
      | @forAll _ inner _ _ _ _ loops stmts holds _ hdomain hopens hbodyEmits =>
          have htemps : inner.temps = ctx.temps + 1 := hopens.temps_eq
          have hk : ctx.temps < k := by
            have := hbodyEmits.temps_le
            omega
          have hset : Stmt.run (Value.interpretation order) (.set (tempName ctx.temps) .yes) σ =
              some (.next, σ.set (tempName ctx.temps) (.bool true)) := Stmt.run_set rfl
          have hstart : SameExcept (Range.bindersOfAll ranges ++ body.binders)
              (fun i => ctx.temps ≤ i ∧ i < k) σ (σ.set (tempName ctx.temps) (.bool true)) :=
            SameExcept.refl.setTemp ⟨Nat.le_refl _, hk⟩ _
          obtain ⟨σ', b, hrun, hsame, hresult, hiff⟩ := Range.run_nest hopens
            (by rw [htemps]; exact Nat.lt_succ_self ctx.temps)
            (fun ρ σ hapart hrep => hdecides hbodyEmits hbody hapart hrep) hplain hranges
            (hapart.withTemps _).push ((hapart.represents hrep hstart).withTemps _).push
            (Store.set_self _ _ _)
          refine ⟨σ', b, ⟨?_, ?_, ?_⟩, hiff⟩
          · rw [Stmt.runAll_cons_of_next hset]
            exact hrun
          · refine hstart.trans (hsame.mono (fun _ h => h) fun i hi => ?_)
            omega
          · intro σ'' hkept
            rw [← hresult, ← hkept _ (.inr (.inr (.inr ⟨ctx.temps, hk, rfl⟩)))]
            rfl

theorem letIn {span : Span} {name : String} {value : Term} {body : Clause}
    (hplain : value.isPlain = true) (hdecides : body.Decides order target) :
    (Clause.letIn span name value body).Decides order target := by
  intro ctx Γ stmts v k ρ σ hemits hann hapart hrep
  rw [Clause.binders_letIn, Term.binders_of_isPlain hplain, List.nil_append] at hapart ⊢
  have hfree : ∀ x ∈ body.freeNames, x ≠ name →
      x ∈ (Clause.letIn span name value body).freeNames := by
    intro x hx hne
    exact List.mem_append_right _ (List.mem_filter.2 ⟨hx, by simpa using hne⟩)
  cases hann with
  | letIn hvalue hbody =>
      cases hemits with
      | @letIn _ _ _ _ _ _ c stmts _ _ hc hbodyEmits =>
          obtain ⟨w, hdenote, hw, heval⟩ := Term.eval_of_isPlain hplain hvalue
            (hrep.mono fun x hx => List.mem_append_left _ hx) hc
          have hreserved := hapart.bound_not_reserved name List.mem_cons_self
          obtain ⟨σ', b, hdecision, hiff⟩ := hdecides hbodyEmits hbody
            (hapart.push.declare hfree) (hrep.push.declare hfree hw hreserved)
          have hset : Stmt.run (Value.interpretation order) (.set name c) σ =
              some (.next, σ.set name w) := Stmt.run_set heval
          refine ⟨σ', b, ⟨?_, ?_, ?_⟩, hiff.trans ?_⟩
          · rw [Stmt.runAll_cons_of_next hset]
            exact hdecision.run
          · refine (SameExcept.refl.set List.mem_cons_self w).trans ?_
            exact hdecision.frame.mono (fun _ h => List.mem_cons_of_mem name h)
              fun i hi => by simpa using hi
          · intro σ'' hkept
            exact hdecision.verdict σ'' fun n hn => hkept n hn.of_declare
          · simp [Clause.Holds, hdenote]

theorem membership {span : Span} {item collection : Term}
    (hlogical : (Clause.membership span item collection).isLogical = true) :
    (Clause.membership span item collection).Decides order target := by
  intro ctx Γ stmts v k ρ σ hemits hann hapart hrep
  simp only [Clause.isLogical, Bool.and_eq_true, beq_iff_eq] at hlogical
  obtain ⟨⟨⟨hi, hc⟩, hity⟩, hcty⟩ := hlogical
  cases hann with
  | membership hitem hcollection =>
      obtain rfl := Option.some.inj (hcollection.ty_eq.symm.trans hcty)
      cases hemits with
      | membershipMap _ _ _ hty => cases hcty.symm.trans hty
      | @membershipList _ _ _ _ _ i c itemTy τ hi' hity' hc' hty =>
          obtain rfl := Option.some.inj (hity.symm.trans hity')
          obtain ⟨v, w, hv, hvty, hw, hwty, hdecision⟩ :=
            Decision.of_terms hi hc hitem hcollection hi' hc' hapart hrep
          cases hwty with
          | @list ws _ hws =>
              obtain ⟨b, hb, hiff⟩ := Value.memberOf?_of_hasType hvty hws
              refine ⟨σ, b, hdecision _ b fun σ' ha' hb' => ?_, hiff.trans ?_⟩
              · exact (Code.eval_within ha' hb').trans (by rw [hb]; rfl)
              · simp [Clause.Holds, hv, hw]

theorem compare {span : Span} {lhs rhs : Term} {op : CmpOp}
    (hlogical : (Clause.compare span lhs op rhs).isLogical = true) :
    (Clause.compare span lhs op rhs).Decides order target := by
  intro ctx Γ stmts v k ρ σ hemits hann hapart hrep
  simp only [Clause.isLogical, Bool.and_eq_true, Bool.or_eq_true, beq_iff_eq] at hlogical
  obtain ⟨⟨hl, hr⟩, hop⟩ := hlogical
  cases hann with
  | @compare _ _ _ _ _ τ τ' hlhs hrhs =>
      rw [hlhs.ty_eq, hrhs.ty_eq, Option.some.injEq, or_assoc] at hop
      cases hemits with
      | compare _ ha hb =>
          obtain ⟨v, w, hv, hvty, hw, hwty, hdecision⟩ :=
            Decision.of_terms hl hr hlhs hrhs ha hb hapart hrep
          obtain ⟨b, hb, hiff⟩ := Value.compare?_of_hasType hvty hwty hop
          refine ⟨σ, b, hdecision _ b fun σ' ha' hb' => ?_, hiff.trans ?_⟩
          · exact (Code.eval_compare op ha' hb').trans (by rw [hb]; rfl)
          · simp [Clause.Holds, hv, hw]
      | probability | probabilityOverItems | expectation | expectationOverItems => cases hl

/-- A connective is decided by its operands, since neither run touches what the
verdict of the other depends on. -/
theorem logic {span : Span} {lhs rhs : Clause} {op : LogicOp} (hlhs : lhs.Decides order target)
    (hrhs : rhs.Decides order target) : (Clause.logic span lhs op rhs).Decides order target := by
  intro ctx Γ stmts v k ρ σ hemits hann hapart hrep
  rw [Clause.binders_logic] at hapart ⊢
  cases hann with
  | logic hannl hannr =>
      cases hemits with
      | @logic _ _ _ _ _ _ stmts₁ a k₁ stmts₂ b _ h₁ h₂ =>
          have hk₁ := h₁.temps_le
          have hk₂ : k₁ ≤ k := h₂.temps_le
          have hapart₁ := hapart.mono (List.sublist_append_left _ _)
            fun x (hx : x ∈ lhs.freeNames) => List.mem_append_left rhs.freeNames hx
          have hapart₂ := (hapart.mono (List.sublist_append_right _ _)
            fun x (hx : x ∈ rhs.freeNames) => List.mem_append_right lhs.freeNames hx).withTemps k₁
          obtain ⟨σ₁, p, hd₁, hiff₁⟩ := hlhs h₁ hannl hapart₁
            (hrep.mono fun x hx => List.mem_append_left _ hx)
          have hsame₁ : SameExcept (lhs.binders ++ rhs.binders)
              (fun i => ctx.temps ≤ i ∧ i < k) σ σ₁ :=
            hd₁.frame.mono (fun x hx => List.mem_append_left _ hx) fun i hi => by omega
          obtain ⟨σ₂, q, hd₂, hiff₂⟩ := hrhs h₂ hannr hapart₂
            (((hapart.represents hrep hsame₁).mono
              fun x hx => List.mem_append_right _ hx).withTemps k₁)
          -- The second run does not touch what the first verdict depends on.
          have hdisjoint : ∀ x ∈ lhs.binders, x ∉ rhs.binders ∧ ¬ IsTemp x := fun x hx =>
            ⟨fun hx' => (List.nodup_append.1 hapart.nodup).2.2 x hx x hx' rfl,
              hapart₁.bound_not_temp x hx⟩
          refine ⟨σ₂, op.apply p q, ⟨?_, ?_, ?_⟩, ?_⟩
          · rw [Stmt.runAll_append_of_next hd₁.run]
            exact hd₂.run
          · refine hsame₁.trans (hd₂.frame.mono (fun x hx => List.mem_append_right _ hx) ?_)
            intro i hi
            exact ⟨Nat.le_trans hk₁ hi.1, hi.2⟩
          · intro σ'' hkept
            refine Code.eval_logic op (hd₁.verdict σ'' fun n hn => ?_)
              (hd₂.verdict σ'' fun n hn => ?_)
            · rw [hkept n (hn.mono (fun x hx => List.mem_append_left _ hx) hk₂)]
              exact hd₂.eq_of_kept hapart₂ lhs.binders hdisjoint hn
            · exact hkept n (hn.mono (fun x hx => List.mem_append_right _ hx) (Nat.le_refl k))
          · cases op <;> simp [LogicOp.apply, Clause.Holds, ← hiff₁, ← hiff₂]

theorem not {span : Span} {inner : Clause} (hdecides : inner.Decides order target) :
    (Clause.not span inner).Decides order target := by
  intro ctx Γ stmts v k ρ σ hemits hann hapart hrep
  rw [Clause.binders_not] at hapart ⊢
  cases hann with
  | not hinner =>
      cases hemits with
      | @not _ _ _ _ _ u _ hinnerEmits =>
          obtain ⟨σ', b, hdecision, hiff⟩ := hdecides hinnerEmits hinner hapart hrep
          refine ⟨σ', !b, ⟨hdecision.run, hdecision.frame, ?_⟩, ?_⟩
          · intro σ'' hkept
            exact Code.eval_not (hdecision.verdict σ'' hkept)
          · simp [Clause.Holds, ← hiff]

end Clause.Decides

/-- Logical clauses are decided by their statements and verdicts. -/
theorem Clause.decides_of_isLogical (order : SetOrder) (target : Target) :
    ∀ {c : Clause}, c.isLogical = true → c.Decides order target
  | .forAll .., h =>
      have h := Bool.and_eq_true_iff.1 h
      .forAll h.1 h.2 (Clause.decides_of_isLogical order target h.2)
  | .letIn .., h =>
      have h := Bool.and_eq_true_iff.1 h
      .letIn h.1 (Clause.decides_of_isLogical order target h.2)
  | .membership .., h => .membership h
  | .compare .., h => .compare h
  | .logic .., h =>
      have h := Bool.and_eq_true_iff.1 h
      .logic (Clause.decides_of_isLogical order target h.1)
        (Clause.decides_of_isLogical order target h.2)
  | .not _ inner, h => .not (Clause.decides_of_isLogical order target (c := inner) h)

/-- Lowering keeps the meaning of logical clauses. Take a clause that the analysis
accepts and that is logical. Let its lets and ranges bind new and different names,
none of which looks like a temporary or is reserved, and let no name that is read
directly look like a temporary. Give its free names values of their types, which
the code reads directly when the name is visible and from the configuration
otherwise. Then the clause can be lowered to a condition, the statements run to
their end, and the condition evaluates to the truth of the clause. -/
theorem Clause.lower_preserves_truth (order : SetOrder) (target : Target) {spec : Specification}
    {source c : Clause} (hcheck : (source.typecheck spec.env).1 = (c, .ok ()))
    (hlogical : c.isLogical = true) {ctx : Context} (htrial : ctx.trial = none)
    (hnodup : c.binders.Nodup)
    (hbound : ∀ x ∈ c.binders, ctx.isVisible x = false ∧ ¬ IsTemp x ∧
      x ∉ ["Config", "len", "set", "range"])
    (hfree : ∀ x ∈ c.freeNames, ctx.isVisible x = true → ¬ IsTemp x)
    {ρ σ : Store Value} (hbuiltins : ∀ f ∈ ["len", "set", "range"], σ f = none)
    (hvalues : ∀ x ∈ c.freeNames, ∃ v, ρ x = some v ∧ v.HasType (spec.lexicalEnv.typeOf x) ∧
      if ctx.isVisible x then σ x = some v
      else ∃ entries, σ "Config" = some (.dict entries) ∧ entries.lookup x = some v) :
    ∃ code ctx' stmts σ' b,
      (c.lower target .boolean).exec ctx = (.ok (.boolean code), ctx') ∧
      ctx'.block = ctx.block ++ stmts ∧
      Stmt.runAll (Value.interpretation order) stmts σ = some (.next, σ') ∧
      code.eval order σ' = some (.bool b) ∧ (b = true ↔ c.Holds ρ) := by
  have hanalyze : source.analyze spec.env = (c, .ok ()) :=
    (source.gives_typecheck spec.env).fst_eq.symm.trans hcheck
  have hann : c.Annotated spec.lexicalEnv :=
    (Clause.typed_of_analyze source spec.env_agrees hanalyze).2
  have hapart : NamesApart ctx.bare c.binders c.freeNames :=
    ⟨hnodup, fun x hx => (hbound x hx).1, fun x hx => (hbound x hx).2.1,
      fun x hx => (hbound x hx).2.2, hfree⟩
  have hrep : Represents order ctx.bare spec.lexicalEnv ρ σ c.freeNames :=
    .of_read htrial hbuiltins hvalues
  obtain ⟨stmts, code, k, hemits⟩ := Clause.emits_of_isLogical target ctx.bare hlogical hann
  obtain ⟨σ', b, hdecision, hiff⟩ :=
    Clause.decides_of_isLogical order target hlogical hemits hann hapart hrep
  exact ⟨code, ctx.extend k stmts, stmts, σ', b,
    (Clause.exec_lower_eq_ok_iff target c .boolean _ ctx _).2 ⟨stmts, k, hemits, rfl⟩, rfl,
    hdecision.run, hdecision.verdict σ' fun _ _ => rfl, hiff⟩

/-- Sets in the order in which their members are seen last. -/
def SetOrder.lastSeen : SetOrder := ⟨List.dedup, List.nodup_dedup, fun _ _ => List.mem_dedup⟩

/-- The distinct entries of a list are at most a bound from the configuration,
and its indices are below its size. -/
def boundedEntries : Clause :=
  .letIn .dummy "m" (.sizeOf {} (.identifier {} "Input"))
    (.logic .dummy
      (.forAll .dummy [.mk .dummy "x" (.identifier {} "Input") .uniqueElements]
        (.compare .dummy (.identifier {} "x") .le (.identifier {} "bound")))
      .and
      (.forAll .dummy [.mk .dummy "i" (.identifier {} "Input") .indices]
        (.not .dummy (.compare .dummy (.identifier {} "i") .ge (.identifier {} "m")))))

/-- A specification about a list of scalars. -/
def listSpecification : Specification where
  decls := [⟨"Output", .scalar, .dummy⟩, ⟨"Input", .sequence .scalar, .dummy⟩]

/-- The clause with its types. -/
def typedEntries : Clause := (boundedEntries.typecheck listSpecification.env).1.1

/-- Values for the free names of the clause. -/
def entryValues : Store Value
  | "Input" => some (.list [.int 3, .int 1, .int 3])
  | "bound" => some (.int 5)
  | _ => none

/-- A store in which the input is a variable and the bound is in the
configuration. -/
def entryStore : Store Value
  | "Input" => some (.list [.int 3, .int 1, .int 3])
  | "Config" => some (.dict [("bound", .int 5)])
  | _ => none

theorem Clause.lower_preserves_truth_typedEntries :
    typedEntries.Holds entryValues ∧ ∃ code ctx' stmts σ',
      (typedEntries.lower {} .boolean).exec (Context.start ["Config", "Input"]) =
        (.ok (.boolean code), ctx') ∧
      ctx'.block = stmts ∧
      Stmt.runAll (Value.interpretation .lastSeen) stmts entryStore = some (.next, σ') ∧
      code.eval .lastSeen σ' = some (.bool true) := by
  have hholds : typedEntries.Holds entryValues := by
    refine ⟨.int 3, rfl, ⟨_, rfl, ?_⟩, ⟨_, rfl, ?_⟩⟩
    · intro v hv
      simp only [RangeMode.Covers, List.mem_cons, List.not_mem_nil, or_false] at hv
      rcases hv with rfl | rfl | rfl <;> exact ⟨_, _, rfl, rfl, .inl rfl⟩
    · rintro v ⟨i, hi, rfl⟩ ⟨_, _, ⟨⟩, ⟨⟩, hge⟩
      rcases i with _ | _ | _ | i
      · rcases hge with hge | hge <;> cases hge
      · rcases hge with hge | hge <;> cases hge
      · rcases hge with hge | hge <;> cases hge
      · have hi : i + 3 < 3 := hi
        omega
  have hbound : ∀ x ∈ typedEntries.binders,
      (Context.start ["Config", "Input"]).isVisible x = false ∧ ¬ IsTemp x ∧
        x ∉ ["Config", "len", "set", "range"] := by
    intro x hx
    have hx : x ∈ ["m", "x", "i"] := hx
    refine ⟨?_, not_isTemp_of_head ?_, ?_⟩ <;> revert x <;> decide
  have hfree : ∀ x ∈ typedEntries.freeNames,
      (Context.start ["Config", "Input"]).isVisible x = true → ¬ IsTemp x := by
    intro x hx _
    have hx : x ∈ ["Input", "Input", "bound", "Input"] := hx
    refine not_isTemp_of_head ?_
    revert x
    decide
  have hvalues : ∀ x ∈ typedEntries.freeNames, ∃ v, entryValues x = some v ∧
      v.HasType (listSpecification.lexicalEnv.typeOf x) ∧
      if (Context.start ["Config", "Input"]).isVisible x then entryStore x = some v
      else ∃ entries, entryStore "Config" = some (.dict entries) ∧ entries.lookup x = some v := by
    intro x hx
    have hx : x ∈ ["Input", "Input", "bound", "Input"] := hx
    have hx : x = "Input" ∨ x = "bound" := by
      revert x
      decide
    rcases hx with rfl | rfl
    · refine ⟨_, rfl, .list ?_, rfl⟩
      simp [Value.HasType.int]
    · exact ⟨_, rfl, .int 5, _, rfl, rfl⟩
  have hcheck : (boundedEntries.typecheck listSpecification.env).1 = (typedEntries, .ok ()) := rfl
  obtain ⟨code, ctx', stmts, σ', b, hlower, hblock, hrun, heval, hiff⟩ :=
    Clause.lower_preserves_truth .lastSeen {} hcheck rfl rfl (by decide) hbound hfree
      (by decide) hvalues
  obtain rfl := hiff.2 hholds
  exact ⟨hholds, code, ctx', stmts, σ', hlower, hblock, hrun, heval⟩

/-- A clause about a name that looks like a temporary. -/
def lookalike : Clause :=
  .forAll .dummy [.mk .dummy "x" (.identifier {} "Input") .elements]
    (.compare .dummy (.identifier {} "t0") .eq (.constant {} "3"))

/-- The clause with its types. -/
def typedLookalike : Clause := (lookalike.typecheck listSpecification.env).1.1

/-- Values for the free names of the clause, which are all variables. -/
def lookalikeStore : Store Value
  | "Input" => some (.list [.int 1])
  | "t0" => some (.int 3)
  | _ => none

/-- Names that are read directly have to differ from temporaries, too: the running
conjunction of the loop overwrites the name that the loop is about. -/
theorem Clause.lower_misjudges_lookalike :
    (lookalike.typecheck listSpecification.env).1 = (typedLookalike, .ok ()) ∧
    typedLookalike.isLogical = true ∧
    (∀ x ∈ typedLookalike.binders, (Context.start ["t0", "Input"]).isVisible x = false ∧
      ¬ IsTemp x ∧ x ∉ ["Config", "len", "set", "range"]) ∧
    typedLookalike.binders.Nodup ∧
    (∀ f ∈ ["len", "set", "range"], lookalikeStore f = none) ∧
    (∀ x ∈ typedLookalike.freeNames, (Context.start ["t0", "Input"]).isVisible x = true ∧
      ∃ v, lookalikeStore x = some v ∧ v.HasType (listSpecification.lexicalEnv.typeOf x)) ∧
    typedLookalike.Holds lookalikeStore ∧
    ∃ code ctx' σ',
      (typedLookalike.lower {} .boolean).exec (Context.start ["t0", "Input"]) =
        (.ok (.boolean code), ctx') ∧
      Stmt.runAll (Value.interpretation .lastSeen) ctx'.block lookalikeStore = some (.next, σ') ∧
      code.eval .lastSeen σ' = some (.bool false) := by
  refine ⟨rfl, rfl, ?_, by decide, by decide, ?_, ⟨_, rfl, ?_⟩, _, _, _, rfl, rfl, rfl⟩
  · intro x hx
    have hx : x ∈ ["x"] := hx
    refine ⟨?_, not_isTemp_of_head ?_, ?_⟩ <;> revert x <;> decide
  · intro x hx
    have hx : x ∈ ["Input", "t0"] := hx
    have hx : x = "Input" ∨ x = "t0" := by
      revert x
      decide
    rcases hx with rfl | rfl
    · exact ⟨rfl, _, rfl, .list (by simp [Value.HasType.int])⟩
    · exact ⟨rfl, _, rfl, .int 3⟩
  · intro v hv
    exact ⟨_, _, rfl, rfl, rfl⟩

end StatContract
