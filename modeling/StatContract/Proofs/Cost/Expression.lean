import Mathlib.Algebra.Field.Basic
import Mathlib.Algebra.Field.Rat
import StatContract.Proofs.Code.Arithmetic
import StatContract.Proofs.Cost.Rules

/-!
# Models express their costs

The value of a cost depends on the configuration, that of a model also on its coefficients.
With suitable coefficients the two are equal in every configuration: factors are one,
offsets are zero, and of a polynomial only the leading term is left. So fitting a model
cannot miss a cost that holds exactly.

Values are taken in a field; as nothing depends on the order of factors, any division ring
will do. The functions that a cost calls are arbitrary, and so are powers, except that powers
with natural exponents are products.
-/

namespace StatContract

namespace CostModel

section Coefficients

variable {K : Type*} {ps qs rs : List K} {m i : ℕ} {q : K}

/-- The values of the coefficients by their names. -/
def coefficientIn (ps : List K) (name : String) : Option K :=
  ((List.range ps.length).find? fun i => coefficientName i = name).bind fun i => ps[i]?

theorem coefficientName_injective {i j : ℕ} (h : coefficientName i = coefficientName j) :
    i = j := by
  have hdigits : Nat.toDigits 10 i = Nat.toDigits 10 j := by
    simpa [coefficientName] using congrArg String.toList h
  rw [← Decimal.digitsValue_toDigits i, hdigits, Decimal.digitsValue_toDigits]

theorem coefficientIn_coefficientName (ps : List K) (i : ℕ) :
    coefficientIn ps (coefficientName i) = ps[i]? := by
  by_cases hi : i < ps.length
  · have hfind : (List.range ps.length).find?
        (fun j => decide (coefficientName j = coefficientName i)) = some i := by
      rw [List.find?_range_eq_some]
      refine ⟨by simp, List.mem_range.2 hi, fun j hj => ?_⟩
      have hne : coefficientName j ≠ coefficientName i :=
        fun h => Nat.ne_of_lt hj (coefficientName_injective h)
      simp [hne]
    rw [coefficientIn, hfind, Option.bind_some]
  · have hfind : (List.range ps.length).find?
        (fun j => decide (coefficientName j = coefficientName i)) = none := by
      rw [List.find?_eq_none]
      intro j hj
      have hne : coefficientName j ≠ coefficientName i :=
        fun h => hi (coefficientName_injective h ▸ List.mem_range.1 hj)
      simp [hne]
    rw [coefficientIn, hfind, Option.bind_none, List.getElem?_eq_none (Nat.not_lt.1 hi)]

/-- Coefficients are given their values from a number on. -/
def Gives (ps : List K) (m : ℕ) (qs : List K) : Prop := qs <+: ps.drop m

theorem Gives.getElem?_eq (h : Gives ps m qs) (hi : qs[i]? = some q) : ps[m + i]? = some q := by
  obtain ⟨rest, hrest⟩ := h
  rw [← List.getElem?_drop, ← hrest, List.getElem?_append_left (List.getElem?_eq_some_iff.1 hi).1]
  exact hi

theorem Gives.append (h : Gives ps m (qs ++ rs)) : Gives ps m qs ∧ Gives ps (m + qs.length) rs := by
  obtain ⟨rest, hrest⟩ := h
  refine ⟨⟨rs ++ rest, by rw [← List.append_assoc, hrest]⟩, rest, ?_⟩
  rw [← List.drop_drop, ← hrest, List.append_assoc, List.drop_left]

end Coefficients

end CostModel

/-- What a name stands for in a configuration: a value as a number, a size as a
collection. -/
structure Quantity (K : Type*) where
  value : K
  size : K

/-- The powers and functions that expressions use. -/
structure Functions (K : Type*) [DivisionRing K] where
  pow : K → K → K
  call : String → List K → K
  pow_natCast : ∀ (a : K) (n : ℕ), pow a n = a ^ n

variable {K : Type*} [DivisionRing K]

/-- The value of an operator. -/
def ArithOp.apply (F : Functions K) : ArithOp → K → K → K
  | add, a, b => a + b
  | sub, a, b => a - b
  | mul, a, b => a * b
  | div, a, b => a / b
  | pow, a, b => F.pow a b

/-- Digits that count a power of ten. -/
def decimal (digits : ℕ) (exponent : ℤ) : K := digits * 10 ^ exponent

section Value

namespace Arith

/-- The entry of the configuration that an expression is. -/
def index? : Arith → Option Nat
  | item (name n) (number i z) => if n = "Cfg" ∧ z = 0 then some i else none
  | _ => none

/-- The entry of the configuration whose size a call is. -/
def size? : String → List Arith → Option Nat
  | f, [a] => if f = "len" then a.index? else none
  | _, _ => none

variable (F : Functions K) (names : String → Option K) (entries : List (Quantity K))

mutual

/-- The value of an expression. -/
def eval : Arith → Option K
  | number m z => some (decimal m z)
  | name n => names n
  | neg a => a.eval.map fun v => -v
  | binary a op b => do
    let v ← a.eval
    let w ← b.eval
    return op.apply F v w
  | item a b => (item a b).index?.bind fun i => entries[i]?.map Quantity.value
  | call f args =>
    match size? f args with
    | some i => entries[i]?.map Quantity.size
    | none => (evalAll args).map (F.call f)

/-- The values of expressions. -/
def evalAll : List Arith → Option (List K)
  | [] => some []
  | a :: as => do
    let v ← a.eval
    let vs ← evalAll as
    return v :: vs

end

end Arith

namespace Term

/-- Whether a term is a negative literal. -/
def isNegative : Term → Bool
  | constant _ text => (Arith.literal? text).any fun l => l.1
  | _ => false

mutual

/-- Whether a term is a cost: built from literals, names, sizes, operators and calls, with
negative literals only as exponents. -/
def isCost : Term → Bool
  | constant _ text => (Arith.literal? text).any fun l => !l.1
  | identifier _ _ => true
  | sizeOf _ collection =>
    match collection with
    | identifier _ _ => true
    | _ => false
  | binary _ lhs op rhs => lhs.isCost && (rhs.isCost || op = .pow && rhs.isNegative)
  | call _ name args => Arith.isName name && areCosts args
  | _ => false

def areCosts : List Term → Bool
  | [] => true
  | t :: ts => t.isCost && areCosts ts

end

variable (F : Functions K) (quantities : String → Quantity K)

mutual

/-- The value of a cost. -/
def costAt : Term → Option K
  | constant _ text => (Arith.literal? text).map fun l =>
    if l.1 then -decimal l.2.1 l.2.2 else decimal l.2.1 l.2.2
  | identifier _ name => some (quantities name).value
  | sizeOf _ collection =>
    match collection with
    | identifier _ name => some (quantities name).size
    | _ => none
  | binary _ lhs op rhs => do
    let v ← lhs.costAt
    let w ← rhs.costAt
    return op.apply F v w
  | call _ name args => (costsAt args).map (F.call name)
  | _ => none

/-- The values of costs. -/
def costsAt : List Term → Option (List K)
  | [] => some []
  | t :: ts => do
    let v ← t.costAt
    let vs ← costsAt ts
    return v :: vs

end

end Term

end Value

namespace CostModel

variable {F : Functions K} {names : String → Option K} {entries : List (Quantity K)}
  {e x y : Arith} {v w : K} {ps : List K}

section Eval

theorem eval_binary {op : ArithOp} (hx : x.eval F names entries = some v)
    (hy : y.eval F names entries = some w) :
    (Arith.binary x op y).eval F names entries = some (op.apply F v w) := by
  rw [Arith.eval, hx, hy]
  rfl

theorem eval_coefficient {p : ℕ} (h : ps[p]? = some v) :
    (Arith.name (coefficientName p)).eval F (coefficientIn ps) entries = some v := by
  rw [Arith.eval, coefficientIn_coefficientName, h]

end Eval

/-- The expression of a part of a cost is read as a tree, whose value is that of the part if
its coefficients have certain values. -/
structure Expresses (level : ℕ) (u : Usage) (t : Term) (c : Code) (u' : Usage) (e : Arith)
    (qs : List K) : Prop where
  stands : Arith.Stands level c.text e
  inputs : u.inputs <+: u'.inputs
  coefficients : u'.coefficients = u.coefficients + qs.length
  value : ∀ {ps inputs}, Gives ps u.coefficients qs → u'.inputs <+: inputs →
    ∀ (F : Functions K) quantities, ∃ v, t.costAt F quantities = some v ∧
      e.eval F (coefficientIn ps) (inputs.map quantities) = some v

namespace Expresses

variable {u u' u'' : Usage} {t lhs rhs : Term} {a b c : Code} {qs rs : List K} {i j : ℕ}
  {note : Note}

theorem isName_coefficientName (p : ℕ) : Arith.isName (coefficientName p) = true := by
  have hlist : (coefficientName p).toList = 'p' :: Nat.toDigits 10 p := by simp [coefficientName]
  have hall : (Nat.toDigits 10 p).all Arith.isWordChar = true := by
    rw [List.all_eq_true]
    intro c hc
    exact Arith.isWordChar_of_isDigit (Nat.isDigit_of_mem_toDigits (by decide) (by decide) hc)
  have hp : (Arith.isWordChar 'p' && !Arith.startsNumber 'p') = true := by decide
  simp only [Arith.isName, hlist, hall, hp, Bool.and_self]

theorem stands_coefficient (p : ℕ) :
    Arith.Stands 4 (coefficient p).text (.name (coefficientName p)) :=
  .name (isName_coefficientName p)

theorem paren (h : Expresses i u t c u' e qs) : Expresses 4 u t (.paren c) u' e qs :=
  { h with stands := h.stands.paren }

/-- A coefficient on the right with a neutral value changes nothing. -/
theorem neutral (op : ArithOp) {q : K} (hq : ∀ (F : Functions K) v, op.apply F v q = v)
    (h : Expresses i u t c u' e qs) (hi : op.rank ≤ i) :
    Expresses (min op.rank op.reach) u t (.binary c (.arith op) (coefficient u'.coefficients))
      (u'.reserve 1) (.binary e op (.name (coefficientName u'.coefficients))) (qs ++ [q]) where
  stands := .binary op (h.stands.mono hi) ((stands_coefficient _).mono op.reach_le_four)
  inputs := h.inputs
  coefficients := by simp [h.coefficients, Nat.add_assoc]
  value := by
    intro ps inputs hps hinputs F quantities
    obtain ⟨hqs, hlast⟩ := hps.append
    obtain ⟨v, hcost, heval⟩ := h.value hqs hinputs F quantities
    have hp : ps[u'.coefficients]? = some q := h.coefficients ▸ hlast.getElem?_eq (i := 0) rfl
    refine ⟨v, hcost, ?_⟩
    rw [eval_binary heval (eval_coefficient hp), hq]

theorem offset (h : Expresses i u t c u' e qs) (hi : 1 ≤ i) :
    Expresses 1 u t (plus c (coefficient u'.coefficients)) (u'.reserve 1)
      (.binary e .add (.name (coefficientName u'.coefficients))) (qs ++ [0]) :=
  h.neutral .add (fun _ => add_zero) hi

theorem factor (h : Expresses i u t c u' e qs) (hi : 2 ≤ i) :
    Expresses 2 u t (times c (coefficient u'.coefficients)) (u'.reserve 1)
      (.binary e .mul (.name (coefficientName u'.coefficients))) (qs ++ [1]) :=
  h.neutral .mul (fun _ => mul_one) hi

theorem leadingFactor (h : Expresses i u t c u' e qs) (hi : 3 ≤ i) :
    Expresses 2 u t (times (coefficient u'.coefficients) c) (u'.reserve 1)
      (.binary (.name (coefficientName u'.coefficients)) .mul e) (qs ++ [1]) where
  stands := .binary .mul ((stands_coefficient _).mono (by decide)) (h.stands.mono hi)
  inputs := h.inputs
  coefficients := by simp [h.coefficients, Nat.add_assoc]
  value := by
    intro ps inputs hps hinputs F quantities
    obtain ⟨hqs, hlast⟩ := hps.append
    obtain ⟨v, hcost, heval⟩ := h.value hqs hinputs F quantities
    have hp : ps[u'.coefficients]? = some 1 := h.coefficients ▸ hlast.getElem?_eq (i := 0) rfl
    refine ⟨v, hcost, ?_⟩
    rw [eval_binary (eval_coefficient hp) heval, ArithOp.apply, one_mul]

theorem binary (note : Note) (op : ArithOp) (ha : Expresses i u lhs a u' x qs) (hi : op.rank ≤ i)
    (hb : Expresses j u' rhs b u'' y rs) (hj : op.reach ≤ j) :
    Expresses (min op.rank op.reach) u (.binary note lhs op rhs) (.binary a (.arith op) b) u''
      (.binary x op y) (qs ++ rs) where
  stands := .binary op (ha.stands.mono hi) (hb.stands.mono hj)
  inputs := ha.inputs.trans hb.inputs
  coefficients := by simp [hb.coefficients, ha.coefficients, Nat.add_assoc]
  value := by
    intro ps inputs hps hinputs F quantities
    obtain ⟨hqs, hrs⟩ := hps.append
    obtain ⟨v, hv, hx⟩ := ha.value hqs (hb.inputs.trans hinputs) F quantities
    obtain ⟨w, hw, hy⟩ := hb.value (ha.coefficients ▸ hrs) hinputs F quantities
    refine ⟨op.apply F v w, ?_, eval_binary hx hy⟩
    rw [Term.costAt, hv, hw]
    rfl

theorem decimal_zero (n : ℕ) : (decimal n 0 : K) = n := by
  rw [decimal, zpow_zero, mul_one]

theorem constant {text : String} {m : ℕ} {z : ℤ} (h : Arith.literal? text = some (false, m, z)) :
    Expresses 4 u (.constant note text) (.verbatim text) u (.number m z) ([] : List K) where
  stands := .literal h
  inputs := List.prefix_rfl
  coefficients := rfl
  value := fun _ _ _ _ => ⟨decimal m z, by rw [Term.costAt, h]; rfl, rfl⟩

/-- A negative literal can be an exponent. -/
theorem negative {text : String} {m : ℕ} {z : ℤ} (h : Arith.literal? text = some (true, m, z)) :
    Expresses 3 u (.constant note text) (.verbatim text) u (.neg (.number m z)) ([] : List K) where
  stands := .negative h
  inputs := List.prefix_rfl
  coefficients := rfl
  value := fun _ _ _ _ => ⟨-decimal m z, by rw [Term.costAt, h]; rfl, rfl⟩

theorem costAt_of_literalExponent? {n : ℕ} (h : literalExponent? t = some n) (F : Functions K)
    (quantities : String → Quantity K) : t.costAt F quantities = some (n : K) := by
  match t with
  | .constant note text =>
      rw [Term.costAt, Arith.literal?_of_readWord? h, ← decimal_zero n]
      rfl

section Inputs

theorem getElem?_of_enter {name : String} {inputs : List String}
    (h : (u.enter name).inputs <+: inputs) : inputs[u.inputs.idxOf name]? = some name := by
  obtain ⟨rest, rfl⟩ := h
  unfold Usage.enter
  by_cases hmem : name ∈ u.inputs
  · have hlt : u.inputs.idxOf name < u.inputs.length := List.idxOf_lt_length_iff.2 hmem
    rw [if_pos hmem, List.getElem?_append_left hlt, List.getElem?_eq_getElem hlt,
      List.getElem_idxOf]
  · rw [if_neg hmem, List.idxOf_eq_length hmem]
    simp

theorem stands_input (i : ℕ) :
    Arith.Stands 4 (input i).text (.item (.name "Cfg") (.number i 0)) :=
  .item (.name (by decide)) (.literal (Arith.literal?_toString i))

theorem eval_input {k : ℕ} {q : Quantity K} (h : entries[k]? = some q) :
    (Arith.item (.name "Cfg") (.number k 0)).eval F names entries = some q.value := by
  simp [Arith.eval, Arith.index?, h]

theorem eval_size {k : ℕ} {q : Quantity K} (h : entries[k]? = some q) :
    (Arith.call "len" [.item (.name "Cfg") (.number k 0)]).eval F names entries =
      some q.size := by
  simp [Arith.eval, Arith.size?, Arith.index?, h]

/-- An entry of the configuration is the quantity of its name. -/
theorem ofEntry {name : String} (h : Arith.Stands 4 c.text e)
    (hvalue : ∀ (F : Functions K) (names : String → Option K) quantities entries,
      entries[u.inputs.idxOf name]? = some (quantities name) →
      ∃ v, t.costAt F quantities = some v ∧ e.eval F names entries = some v) :
    Expresses 4 u t c (u.enter name) e ([] : List K) where
  stands := h
  inputs := u.prefix_enter name
  coefficients := u.coefficients_enter name
  value := by
    intro ps inputs _ hinputs F quantities
    refine hvalue F _ quantities _ ?_
    rw [List.getElem?_map, getElem?_of_enter hinputs, Option.map_some]

theorem identifier {name : String} :
    Expresses 4 u (.identifier note name) (input (u.inputs.idxOf name)) (u.enter name)
      (.item (.name "Cfg") (.number (u.inputs.idxOf name) 0)) ([] : List K) :=
  ofEntry (stands_input _) fun _ _ quantities _ h =>
    ⟨(quantities name).value, by rw [Term.costAt], eval_input h⟩

theorem size {name : String} {inner : Note} :
    Expresses 4 u (.sizeOf note (.identifier inner name)) (.len (input (u.inputs.idxOf name)))
      (u.enter name) (.call "len" [.item (.name "Cfg") (.number (u.inputs.idxOf name) 0)])
      ([] : List K) :=
  ofEntry (.call (by decide) (.cons (stands_input _) .nil)) fun _ _ quantities _ h =>
    ⟨(quantities name).size, by rw [Term.costAt], eval_size h⟩

end Inputs

theorem exists_scaled {name : String} (h : Expresses 4 u t c (u.enter name) e qs) :
    ∃ (x : Arith) (rs : List K), x.index? = none ∧
      Expresses 4 u t (scaled u.coefficients c) ((u.enter name).reserve 2) x rs := by
  have hscaled := ((h.leadingFactor (by decide)).offset (by decide)).paren
  rw [← Usage.coefficients_enter u name]
  exact ⟨_, _, rfl, hscaled⟩

section Powers

theorem costAt_pow {v : K} {n : ℕ} {quantities : String → Quantity K}
    (hexponent : literalExponent? rhs = some n) (hlhs : lhs.costAt F quantities = some v) :
    (Term.binary note lhs .pow rhs).costAt F quantities = some (v ^ n) := by
  rw [Term.costAt, hlhs, costAt_of_literalExponent? hexponent]
  exact congrArg some (F.pow_natCast v n)

theorem one (hexponent : literalExponent? rhs = some 0)
    (hlhs : ∀ (F : Functions K) quantities, ∃ v, lhs.costAt F quantities = some v) :
    Expresses 4 u (.binary note lhs .pow rhs) (.nat 1) u (.number 1 0) ([] : List K) where
  stands := .literal (Arith.literal?_toString 1)
  inputs := List.prefix_rfl
  coefficients := rfl
  value := by
    intro ps inputs _ _ F quantities
    obtain ⟨v, hv⟩ := hlhs F quantities
    refine ⟨1, by rw [costAt_pow hexponent hv, pow_zero], ?_⟩
    rw [Arith.eval, decimal_zero, Nat.cast_one]

theorem base (h : Expresses i u lhs c u' e qs) (hexponent : literalExponent? rhs = some 1) :
    Expresses i u (.binary note lhs .pow rhs) c u' e qs :=
  { h with
    value := by
      intro ps inputs hps hinputs F quantities
      obtain ⟨v, hcost, heval⟩ := h.value hps hinputs F quantities
      exact ⟨v, by rw [costAt_pow hexponent hcost, pow_one], heval⟩ }

/-- The first terms of a polynomial. -/
def leadingTerms (quantity : Code) (n p count : ℕ) : Code :=
  (List.range count).foldl
    (fun sum k => plus sum (times (coefficient (p + 1 + k))
      (.binary quantity (.arith .pow) (.nat (n - k))))) (coefficient p)

theorem leadingTerms_succ (quantity : Code) (n p count : ℕ) :
    leadingTerms quantity n p (count + 1) = plus (leadingTerms quantity n p count)
      (times (coefficient (p + 1 + count)) (.binary quantity (.arith .pow) (.nat (n - count)))) := by
  rw [leadingTerms, List.range_succ, List.foldl_append]
  rfl

/-- A term of a polynomial. -/
def powerTerm (e : Arith) (p n : ℕ) : Arith :=
  .binary (.name (coefficientName p)) .mul (.binary e .pow (.number n 0))

theorem stands_powerTerm (h : Arith.Stands 4 c.text e) (p n : ℕ) :
    Arith.Stands 2 (times (coefficient p) (.binary c (.arith .pow) (.nat n))).text
      (powerTerm e p n) := by
  have hexponent : Arith.Stands 4 (Code.nat n).text (.number n 0) :=
    .literal (Arith.literal?_toString n)
  exact .binary .mul ((stands_coefficient p).mono (by decide))
    (.binary .pow h (hexponent.mono (by decide)))

theorem eval_powerTerm {p : ℕ} {q : K} (hp : ps[p]? = some q)
    (he : e.eval F (coefficientIn ps) entries = some v) (n : ℕ) :
    (powerTerm e p n).eval F (coefficientIn ps) entries = some (q * v ^ n) := by
  have hexponent : (Arith.number n 0).eval F (coefficientIn ps) entries = some (n : K) := by
    rw [Arith.eval, decimal_zero]
  rw [powerTerm, eval_binary (eval_coefficient hp) (eval_binary he hexponent), ArithOp.apply,
    ArithOp.apply, F.pow_natCast]

/-- With one in front of the leading term and zero elsewhere, a polynomial is a power. -/
theorem exists_leadingTerms {n : ℕ} (h : Expresses 4 u lhs c u' e qs)
    (hexponent : literalExponent? rhs = some n) (k : ℕ) :
    ∃ x : Arith, x.index? = none ∧ Expresses 1 u (.binary note lhs .pow rhs)
      (leadingTerms c n u'.coefficients (k + 1)) (u'.reserve (k + 2)) x
      (qs ++ 0 :: 1 :: List.replicate k 0) := by
  -- The offset and the leading term come together: alone, the offset has the wrong value.
  induction k with
  | zero =>
      refine ⟨.binary (.name (coefficientName u'.coefficients)) .add
        (powerTerm e (u'.coefficients + 1) n), rfl, ?_, h.inputs, ?_, ?_⟩
      · exact .binary .add ((stands_coefficient _).mono (by decide)) (stands_powerTerm h.stands _ _)
      · simp [h.coefficients, Nat.add_assoc]
      · intro ps inputs hps hinputs F quantities
        obtain ⟨hqs, hlast⟩ := hps.append
        rw [← h.coefficients] at hlast
        obtain ⟨v, hcost, heval⟩ := h.value hqs hinputs F quantities
        have hzero : ps[u'.coefficients]? = some 0 := hlast.getElem?_eq (i := 0) rfl
        have hone : ps[u'.coefficients + 1]? = some 1 := hlast.getElem?_eq (i := 1) rfl
        refine ⟨v ^ n, costAt_pow hexponent hcost, ?_⟩
        rw [eval_binary (eval_coefficient hzero) (eval_powerTerm hone heval n), ArithOp.apply,
          zero_add, one_mul]
  | succ k ih =>
      obtain ⟨x, -, hx⟩ := ih
      rw [leadingTerms_succ]
      refine ⟨.binary x .add (powerTerm e (u'.coefficients + 1 + (k + 1)) (n - (k + 1))), rfl, ?_,
        hx.inputs, ?_, ?_⟩
      · exact .binary .add hx.stands (stands_powerTerm h.stands _ _)
      · simp [h.coefficients, Nat.add_assoc]
      · intro ps inputs hps hinputs F quantities
        have hsplit : qs ++ 0 :: 1 :: List.replicate (k + 1) 0 =
            (qs ++ 0 :: 1 :: List.replicate k 0) ++ [(0 : K)] := by
          simp [List.replicate_succ']
        obtain ⟨hterms, hlast⟩ := (hsplit ▸ hps).append
        obtain ⟨w, hcost, heval⟩ := hx.value hterms hinputs F quantities
        obtain ⟨v, -, hv⟩ := h.value hterms.append.1 hinputs F quantities
        refine ⟨w, hcost, ?_⟩
        have hzero : ps[u'.coefficients + 1 + (k + 1)]? = some 0 := by
          have hnext := hlast.getElem?_eq (i := 0) rfl
          rwa [← hx.coefficients, Usage.coefficients_reserve, Nat.add_zero,
            show u'.coefficients + (k + 2) = u'.coefficients + 1 + (k + 1) by omega] at hnext
        rw [eval_binary heval (eval_powerTerm hzero hv _), ArithOp.apply, zero_mul, add_zero]

theorem exists_polynomial {n : ℕ} (h : Expresses 4 u lhs c u' e qs)
    (hexponent : literalExponent? rhs = some n) (hle : 2 ≤ n) :
    ∃ (x : Arith) (rs : List K), x.index? = none ∧ Expresses 4 u (.binary note lhs .pow rhs)
      (polynomial c n u'.coefficients) (u'.reserve (n + 1)) x rs := by
  obtain ⟨k, rfl⟩ : ∃ k, n = k + 1 := ⟨n - 1, by omega⟩
  obtain ⟨x, hindex, hx⟩ := h.exists_leadingTerms hexponent k
  exact ⟨x, _, hindex, hx.paren⟩

end Powers

end Expresses

/-- The expressions of arguments are read as trees, whose values are those of the arguments if
their coefficients have certain values. -/
structure ExpressesAll (u : Usage) (ts : List Term) (cs : List Code) (u' : Usage)
    (es : List Arith) (qs : List K) : Prop where
  stands : List.Forall₂ (Arith.Stands 4) (cs.map Code.text) es
  index : ∀ e ∈ es, e.index? = none
  inputs : u.inputs <+: u'.inputs
  coefficients : u'.coefficients = u.coefficients + qs.length
  value : ∀ {ps inputs}, Gives ps u.coefficients qs → u'.inputs <+: inputs →
    ∀ (F : Functions K) quantities, ∃ vs, Term.costsAt F quantities ts = some vs ∧
      Arith.evalAll F (coefficientIn ps) (inputs.map quantities) es = some vs

namespace ExpressesAll

variable {u u' u'' : Usage} {t : Term} {ts : List Term} {c : Code} {cs : List Code}
  {es : List Arith} {qs rs : List K} {note : Note}

theorem nil : ExpressesAll u [] [] u [] ([] : List K) where
  stands := .nil
  index := nofun
  inputs := List.prefix_rfl
  coefficients := rfl
  value := fun _ _ _ _ => ⟨[], rfl, rfl⟩

theorem cons (h : Expresses 4 u t c u' e qs) (hindex : e.index? = none)
    (hs : ExpressesAll u' ts cs u'' es rs) :
    ExpressesAll u (t :: ts) (c :: cs) u'' (e :: es) (qs ++ rs) where
  stands := .cons h.stands hs.stands
  index := List.forall_mem_cons.2 ⟨hindex, hs.index⟩
  inputs := h.inputs.trans hs.inputs
  coefficients := by simp [hs.coefficients, h.coefficients, Nat.add_assoc]
  value := by
    intro ps inputs hps hinputs F quantities
    obtain ⟨hqs, hrs⟩ := hps.append
    obtain ⟨v, hv, he⟩ := h.value hqs (hs.inputs.trans hinputs) F quantities
    obtain ⟨vs, hvs, hes⟩ := hs.value (h.coefficients ▸ hrs) hinputs F quantities
    refine ⟨v :: vs, ?_, ?_⟩
    · rw [Term.costsAt, hv, hvs]
      rfl
    · rw [Arith.evalAll, he, hes]
      rfl

theorem call {name : String} (hname : Arith.isName name = true)
    (h : ExpressesAll u ts cs u' es qs) :
    Expresses 4 u (.call note name ts) (.apply name cs) u' (.call name es) qs where
  stands := by
    have hcall := Arith.Stands.call hname h.stands
    rwa [← Code.texts_eq_map] at hcall
  inputs := h.inputs
  coefficients := h.coefficients
  value := by
    intro ps inputs hps hinputs F quantities
    obtain ⟨vs, hcosts, heval⟩ := h.value hps hinputs F quantities
    have hsize : Arith.size? name es = none := by
      unfold Arith.size?
      split
      · rw [h.index _ List.mem_cons_self, ite_self]
      · rfl
    refine ⟨F.call name vs, ?_, ?_⟩
    · rw [Term.costAt, hcosts]
      rfl
    · rw [Arith.eval, hsize, heval]
      rfl

end ExpressesAll

section Build

theorem exists_literal_of_isNegative {t : Term} (h : t.isNegative = true) :
    ∃ note text m z, t = .constant note text ∧ Arith.literal? text = some (true, m, z) := by
  match t with
  | .constant note text =>
      obtain ⟨⟨negative, m, z⟩, hliteral, hl⟩ := (Option.any_eq_true _ _).1 h
      cases hl
      exact ⟨note, text, m, z, rfl, hliteral⟩

theorem exists_literal_of_isCost {note : Note} {text : String}
    (h : (Term.constant note text).isCost = true) :
    ∃ m z, Arith.literal? text = some (false, m, z) := by
  rw [Term.isCost] at h
  obtain ⟨⟨negative, m, z⟩, hliteral, hl⟩ := (Option.any_eq_true _ _).1 h
  cases negative with
  | false => exact ⟨m, z, hliteral⟩
  | true => cases hl

mutual

/-- A cost has a value in every configuration. -/
theorem exists_costAt {t : Term} (h : t.isCost = true) (F : Functions K)
    (quantities : String → Quantity K) : ∃ v, t.costAt F quantities = some v := by
  match t with
  | .constant note text =>
      obtain ⟨m, z, hliteral⟩ := exists_literal_of_isCost h
      exact ⟨_, by rw [Term.costAt, hliteral]; rfl⟩
  | .identifier note name => exact ⟨_, by rw [Term.costAt]⟩
  | .sizeOf note collection =>
      cases collection with
      | identifier inner name => exact ⟨_, by rw [Term.costAt]⟩
      | _ => cases h
  | .binary note lhs op rhs =>
      rw [Term.isCost, Bool.and_eq_true, Bool.or_eq_true, Bool.and_eq_true] at h
      obtain ⟨v, hv⟩ := exists_costAt h.1 F quantities
      obtain ⟨w, hw⟩ : ∃ w, rhs.costAt F quantities = some w := by
        rcases h.2 with hrhs | ⟨-, hrhs⟩
        · exact exists_costAt hrhs F quantities
        · obtain ⟨_, _, _, _, rfl, hliteral⟩ := exists_literal_of_isNegative hrhs
          exact ⟨_, by rw [Term.costAt, hliteral]; rfl⟩
      exact ⟨_, by rw [Term.costAt, hv, hw]; rfl⟩
  | .call note name args =>
      rw [Term.isCost, Bool.and_eq_true] at h
      obtain ⟨vs, hvs⟩ := exists_costsAt h.2 F quantities
      exact ⟨_, by rw [Term.costAt, hvs]; rfl⟩

theorem exists_costsAt {ts : List Term} (h : Term.areCosts ts = true) (F : Functions K)
    (quantities : String → Quantity K) : ∃ vs, Term.costsAt F quantities ts = some vs := by
  match ts with
  | [] => exact ⟨[], rfl⟩
  | t :: ts =>
      rw [Term.areCosts, Bool.and_eq_true] at h
      obtain ⟨v, hv⟩ := exists_costAt h.1 F quantities
      obtain ⟨vs, hvs⟩ := exists_costsAt h.2 F quantities
      exact ⟨v :: vs, by rw [Term.costsAt, hv, hvs]; rfl⟩

end

theorem isCost_of_ne_pow {note : Note} {lhs rhs : Term} {op : ArithOp}
    (h : (Term.binary note lhs op rhs).isCost = true) (hop : op ≠ .pow) :
    lhs.isCost = true ∧ rhs.isCost = true := by
  simpa [Term.isCost, hop] using h

variable (K)

mutual

/-- What is built for a cost expresses it. -/
theorem exists_expresses {t : Term} {c : Code} {u u' : Usage} (h : Builds u t c u')
    (ht : t.isCost = true) :
    ∃ (e : Arith) (qs : List K), e.index? = none ∧ Expresses 4 u t c u' e qs := by
  match h with
  | .constant =>
      obtain ⟨m, z, hliteral⟩ := exists_literal_of_isCost ht
      exact ⟨.number m z, [], rfl, .constant hliteral⟩
  | .identifier => exact Expresses.identifier.exists_scaled
  | .size => exact Expresses.size.exists_scaled
  | .one hexponent =>
      rw [Term.isCost, Bool.and_eq_true] at ht
      exact ⟨.number 1 0, [], rfl, .one hexponent fun F => exists_costAt ht.1 F⟩
  | .base hexponent hlhs =>
      rw [Term.isCost, Bool.and_eq_true] at ht
      obtain ⟨x, qs, hindex, hx⟩ := exists_expresses hlhs ht.1
      exact ⟨x, qs, hindex, hx.base hexponent⟩
  | .power hexponent hle _ hlhs =>
      rw [Term.isCost, Bool.and_eq_true] at ht
      obtain ⟨x, qs, -, hx⟩ := exists_expresses hlhs ht.1
      exact hx.exists_polynomial hexponent hle
  | @Builds.sum _ _ _ note _ op _ _ _ hop hlhs hrhs =>
      obtain ⟨hl, hr⟩ := isCost_of_ne_pow ht (by rcases hop with rfl | rfl <;> decide)
      obtain ⟨x, qs, -, hx⟩ := exists_expresses hlhs hl
      obtain ⟨y, rs, -, hy⟩ := exists_expresses hrhs hr
      exact ⟨_, _, rfl, (hx.binary note op op.rank_le_four hy op.reach_le_four).paren⟩
  | @Builds.product _ _ _ note _ op _ _ _ hop hlhs hrhs =>
      obtain ⟨hl, hr⟩ := isCost_of_ne_pow ht (by rcases hop with rfl | rfl <;> decide)
      obtain ⟨x, qs, -, hx⟩ := exists_expresses hlhs hl
      obtain ⟨y, rs, -, hy⟩ := exists_expresses hrhs hr
      have hbinary := hx.binary note op op.rank_le_four hy op.reach_le_four
      exact ⟨_, _, rfl, (hbinary.offset (by rcases hop with rfl | rfl <;> decide)).paren⟩
  | @Builds.exponential _ _ _ note _ _ _ _ hexponent hlhs hrhs =>
      rw [Term.isCost, Bool.and_eq_true, Bool.or_eq_true, Bool.and_eq_true] at ht
      obtain ⟨x, qs, -, hx⟩ := exists_expresses hlhs ht.1
      -- An exponent may be a negative literal, which stands at the level of signs only.
      obtain ⟨y, rs, hy⟩ : ∃ (y : Arith) (rs : List K), Expresses 3 _ _ _ _ y rs := by
        rcases ht.2 with hcost | ⟨-, hnegative⟩
        · obtain ⟨y, rs, -, hy⟩ := exists_expresses hrhs hcost
          exact ⟨y, rs, { hy with stands := hy.stands.mono (by decide) }⟩
        · obtain ⟨_, _, m, z, rfl, hliteral⟩ := exists_literal_of_isNegative hnegative
          cases hrhs
          exact ⟨.neg (.number m z), [], .negative hliteral⟩
      have hpower := (hx.binary note .pow (by decide) hy (by decide)).paren
      exact ⟨_, _, rfl, ((hpower.factor (by decide)).offset (by decide)).paren⟩
  | .call hargs =>
      rw [Term.isCost, Bool.and_eq_true] at ht
      obtain ⟨es, qs, hes⟩ := exists_expressesAll hargs ht.2
      exact ⟨_, _, rfl, (((hes.call ht.1).factor (by decide)).offset (by decide)).paren⟩

theorem exists_expressesAll {ts : List Term} {cs : List Code} {u u' : Usage}
    (h : BuildsAll u ts cs u') (hts : Term.areCosts ts = true) :
    ∃ (es : List Arith) (qs : List K), ExpressesAll u ts cs u' es qs := by
  match h with
  | .nil => exact ⟨[], [], .nil⟩
  | .cons hhead htail =>
      rw [Term.areCosts, Bool.and_eq_true] at hts
      obtain ⟨e, qs, hindex, he⟩ := exists_expresses hhead hts.1
      obtain ⟨es, rs, hes⟩ := exists_expressesAll htail hts.2
      exact ⟨e :: es, qs ++ rs, .cons he hindex hes⟩

end

end Build

/-- A synthesized model can be read, and its coefficients have values, the same for all
configurations, with which it is equal to the cost, whatever the functions that the cost
calls. -/
theorem synthesize_expresses_cost {cost : Term} {m : CostModel} (hcost : cost.isCost = true)
    (h : synthesize cost = .ok m) :
    ∃ e, Arith.read? m.body.text = some e ∧ ∃ ps : List K, ps.length = m.coefficients ∧
      ∀ (F : Functions K) (quantities : String → Quantity K), ∃ v,
        cost.costAt F quantities = some v ∧
          e.eval F (coefficientIn ps) (m.inputs.map quantities) = some v := by
  rcases builds_of_synthesize h with ⟨note, text, rfl, rfl⟩ | ⟨u, hbuilds, hcoefficients, hinputs⟩
  · obtain ⟨d, z, hliteral⟩ := exists_literal_of_isCost hcost
    refine ⟨_, (Expresses.stands_coefficient 0).read?_eq, [decimal d z], rfl, fun F q => ?_⟩
    exact ⟨decimal d z, by rw [Term.costAt, hliteral]; rfl, eval_coefficient rfl⟩
  · obtain ⟨e, qs, -, he⟩ := exists_expresses K hbuilds hcost
    refine ⟨e, he.stands.read?_eq, qs, ?_, fun F q => ?_⟩
    · rw [hcoefficients, he.coefficients, Nat.zero_add]
    · rw [hinputs]
      exact he.value List.prefix_rfl List.prefix_rfl F q

/-- The cost `n * log(k) + size(L) ** 2 / n ** -1`. -/
def mixedCost : Term :=
  .binary {} (.binary {} (.identifier {} "n") .mul (.call {} "log" [.identifier {} "k"])) .add
    (.binary {} (.binary {} (.sizeOf {} (.identifier {} "L")) .pow (.constant {} "2")) .div
      (.binary {} (.identifier {} "n") .pow (.constant {} "-1")))

/-- Powers of rationals with whole exponents, and functions that are their first argument. -/
def rationalFunctions : Functions ℚ where
  pow a b := a ^ b.num
  call _ vs := vs.headD 0
  pow_natCast a n := by rw [Rat.num_natCast, zpow_natCast]

theorem synthesize_expresses_cost_mixedCost :
    mixedCost.isCost = true ∧ ∃ m, synthesize mixedCost = .ok m ∧
      m.body.text = "(((p0*Cfg[0]+p1)*(log((p2*Cfg[1]+p3))*p4+p5)+p6)+" ++
        "((p9+p10*(p7*len(Cfg[2])+p8)**2+p11*(p7*len(Cfg[2])+p8)**1)/" ++
        "(((p12*Cfg[0]+p13)**-1)*p14+p15)+p16))" ∧
      m.inputs = ["n", "k", "L"] ∧ m.coefficients = 17 ∧
      ∃ e, Arith.read? m.body.text = some e ∧ ∃ ps : List ℚ, ps.length = 17 ∧
        ∀ quantities : String → Quantity ℚ, ∃ v,
          mixedCost.costAt rationalFunctions quantities = some v ∧
            e.eval rationalFunctions (coefficientIn ps) (["n", "k", "L"].map quantities) =
              some v := by
  have hcost : mixedCost.isCost = true := by decide
  obtain ⟨e, he, ps, hps, hvalue⟩ := synthesize_expresses_cost (K := ℚ) hcost rfl
  exact ⟨hcost, _, rfl, rfl, rfl, rfl, e, he, ps, hps, hvalue rationalFunctions⟩

end CostModel

end StatContract
