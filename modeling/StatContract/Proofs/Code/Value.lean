import StatContract.Proofs.Code.Execution
import StatContract.ValueType

/-!
# Values and expressions

The values of the generated code, as far as clauses without statistics need
them: truth values, whole numbers, lists, sets of numbers and dictionaries. A
truth value can be used as a number. Comparisons, membership tests and
connectives are those of the language of the generated code: `and` and `or` give
one of their operands, lists are ordered by their first difference, and what has
no order or no elements makes the evaluation fail.

The order in which a loop runs through a set is not fixed by that language, so
it is a parameter.
-/

namespace StatContract

/-- A value of the generated code. -/
inductive Value where
  | bool (b : Bool)
  | int (i : Int)
  | list (items : List Value)
  | set (items : List Int)
  | dict (entries : List (String × Value))

/-- The order in which a loop runs through the set of the members of a list:
each of them comes once. -/
structure SetOrder where
  arrange : List Int → List Int
  nodup : ∀ is, (arrange is).Nodup
  mem_arrange : ∀ is i, i ∈ arrange is ↔ i ∈ is

/-- The number that a text is the numeral of. -/
def numeral? (text : String) : Option Nat :=
  let n := Nat.ofDigitChars 10 text.toList 0
  if toString n = text then some n else none

@[simp] theorem numeral?_toString (n : Nat) : numeral? (toString n) = some n := by
  simp [numeral?]

namespace Value

/-- The number that a value is or stands for. -/
def number? : Value → Option Int
  | bool b => some (if b then 1 else 0)
  | int i => some i
  | _ => none

/-- Whether a value counts as true. -/
def truth : Value → Bool
  | bool b => b
  | int i => i ≠ 0
  | list items => !items.isEmpty
  | set items => !items.isEmpty
  | dict entries => !entries.isEmpty

/-- The number of elements of a collection. -/
def size? : Value → Option Nat
  | list items => some items.length
  | set items => some items.length
  | dict entries => some entries.length
  | _ => none

/-- What a loop over a value runs through. -/
def items? : Value → Option (List Value)
  | list items => some items
  | set items => some (items.map int)
  | _ => none

mutual

/-- Whether two values are equal. A list equals no number. -/
def equal? : Value → Value → Option Bool
  | list vs, list ws => equalAll? vs ws
  | list _, int _ | list _, bool _ | int _, list _ | bool _, list _ => some false
  | v, w => do
    let i ← v.number?
    let j ← w.number?
    some (i = j)

/-- Whether two lists are equal, element by element. -/
def equalAll? : List Value → List Value → Option Bool
  | [], [] => some true
  | v :: vs, w :: ws => do
    if ← equal? v w then equalAll? vs ws else some false
  | _, _ => some false

end

mutual

/-- How two values are ordered. Lists are ordered by their first difference. -/
def order? : Value → Value → Option Ordering
  | list vs, list ws => orderAll? vs ws
  | v, w => do
    let i ← v.number?
    let j ← w.number?
    some (compare i j)

/-- How two lists are ordered. -/
def orderAll? : List Value → List Value → Option Ordering
  | [], [] => some .eq
  | [], _ :: _ => some .lt
  | _ :: _, [] => some .gt
  | v :: vs, w :: ws => do
    match ← order? v w with
    | .eq => orderAll? vs ws
    | o => some o

end

/-- The outcome of a comparison. -/
def compare? (op : CmpOp) (v w : Value) : Option Bool :=
  match op with
  | .eq => v.equal? w
  | .ne => (v.equal? w).map (!·)
  | .lt => (v.order? w).map (· == .lt)
  | .le => (v.order? w).map (· != .gt)
  | .gt => (v.order? w).map (· == .gt)
  | .ge => (v.order? w).map (· != .lt)

/-- Whether a list has a value among its elements. -/
def memberOf? (v : Value) : List Value → Option Bool
  | [] => some false
  | w :: ws => do
    if ← v.equal? w then some true else memberOf? v ws

/-- Arithmetic on numbers. -/
def arith? (op : ArithOp) (v w : Value) : Option Value := do
  let i ← v.number?
  let j ← w.number?
  match op with
  | .add => some (int (i + j))
  | .sub => some (int (i - j))
  | .mul => some (int (i * j))
  | .div | .pow => none

/-- The functions that are there without a definition. -/
def builtin? (order : SetOrder) (function : String) (v : Value) : Option Value :=
  if function = "len" then v.size?.map fun n => int n
  else if function = "set" then do
    let items ← v.items?
    let is ← items.mapM number?
    some (set (order.arrange is))
  else if function = "range" then
    match v with
    | int i => some (list ((List.range i.toNat).map fun n : Nat => int n))
    | _ => none
  else none

end Value

/-- The value of an expression. Text that is taken over is a constant or a
numeral; a function must not be hidden by a variable of its name. -/
def Code.eval (order : SetOrder) (σ : Store Value) : Code → Option Value
  | .verbatim text =>
    if text = "True" then some (.bool true) else (numeral? text).map fun n => .int n
  | .name n => σ n
  | .paren inner => eval order σ inner
  | .binary lhs op rhs => do
    let v ← eval order σ lhs
    match op with
    | .logic .and => if v.truth then eval order σ rhs else some v
    | .logic .or => if v.truth then some v else eval order σ rhs
    | .arith op => v.arith? op (← eval order σ rhs)
    | .compare op => (v.compare? op (← eval order σ rhs)).map .bool
    | .within =>
      match ← eval order σ rhs with
      | .list ws => (v.memberOf? ws).map .bool
      | _ => none
    | .sum => none
  | .not inner => (eval order σ inner).map fun v => .bool (!v.truth)
  | .item container (.quoted key) => do
    match ← eval order σ container with
    | .dict entries => entries.lookup key
    | _ => none
  | .call (.name function) [argument] => do
    let v ← eval order σ argument
    if (σ function).isNone then v.builtin? order function else none
  | _ => none

/-- The meaning of the generated code, given the order of sets. -/
def Value.interpretation (order : SetOrder) : Interpretation Value where
  eval := Code.eval order
  truth := Value.truth
  items := Value.items?
  update op v w := v.arith? op w
  append := fun
    | .list vs, w => some (.list (vs ++ [w]))
    | _, _ => none

/-- The values of a type: whole numbers for the scalar type, and lists. -/
inductive Value.HasType : Value → ValueType → Prop where
  | int (i : Int) : HasType (.int i) .scalar
  | list {vs : List Value} {τ : ValueType} (h : ∀ v ∈ vs, HasType v τ) :
      HasType (.list vs) (.sequence τ)

namespace Value

/-- The relation that a comparison asks for. -/
def Compares (op : CmpOp) (v w : Value) : Prop :=
  match op with
  | .eq => v = w
  | .ne => v ≠ w
  | .lt => v.order? w = some .lt
  | .le => v.order? w = some .lt ∨ v.order? w = some .eq
  | .gt => v.order? w = some .gt
  | .ge => v.order? w = some .gt ∨ v.order? w = some .eq

mutual

/-- Between typed values, equality is decided, and it is identity. -/
theorem equal?_of_hasType : ∀ {v w : Value} {τ σ : ValueType}, v.HasType τ → w.HasType σ →
    ∃ b, v.equal? w = some b ∧ (b = true ↔ v = w)
  | .int i, .int j, _, _, _, _ => ⟨decide (i = j), rfl, by simp⟩
  | .int i, .list ws, _, _, _, _ => ⟨false, rfl, by simp⟩
  | .list vs, .int j, _, _, _, _ => ⟨false, rfl, by simp⟩
  | .list vs, .list ws, _, _, .list hv, .list hw => by
      obtain ⟨b, hb, hiff⟩ := equalAll?_of_hasType hv hw
      exact ⟨b, by rw [equal?, hb], by simpa using hiff⟩

/-- Between lists of typed values, equality is decided, and it is identity. -/
theorem equalAll?_of_hasType : ∀ {vs ws : List Value} {τ σ : ValueType},
    (∀ v ∈ vs, v.HasType τ) → (∀ w ∈ ws, w.HasType σ) →
      ∃ b, equalAll? vs ws = some b ∧ (b = true ↔ vs = ws)
  | [], [], _, _, _, _ => ⟨true, rfl, by simp⟩
  | [], w :: ws, _, _, _, _ => ⟨false, rfl, by simp⟩
  | v :: vs, [], _, _, _, _ => ⟨false, rfl, by simp⟩
  | v :: vs, w :: ws, _, _, hv, hw => by
      obtain ⟨b, hb, hiff⟩ := equal?_of_hasType (hv v List.mem_cons_self) (hw w List.mem_cons_self)
      obtain ⟨c, hc, hiff'⟩ := equalAll?_of_hasType (fun u hu => hv u (List.mem_cons_of_mem v hu))
        fun u hu => hw u (List.mem_cons_of_mem w hu)
      cases b with
      | true => exact ⟨c, by rw [equalAll?, hb]; exact hc, by simp [← hiff, hiff']⟩
      | false => exact ⟨false, by rw [equalAll?, hb]; rfl, by simp [← hiff]⟩

end

mutual

/-- Two values of one type have an order. -/
theorem order?_of_hasType : ∀ {v w : Value} {τ : ValueType}, v.HasType τ → w.HasType τ →
    ∃ o, v.order? w = some o
  | .int i, .int j, _, _, _ => ⟨_, rfl⟩
  | .int i, .list ws, _, .int _, hw => nomatch hw
  | .list vs, .int j, _, .list _, hw => nomatch hw
  | .list vs, .list ws, _, .list hv, .list hw => by
      rw [order?]
      exact orderAll?_of_hasType hv hw

/-- Two lists with elements of one type have an order. -/
theorem orderAll?_of_hasType : ∀ {vs ws : List Value} {τ : ValueType},
    (∀ v ∈ vs, v.HasType τ) → (∀ w ∈ ws, w.HasType τ) → ∃ o, orderAll? vs ws = some o
  | [], [], _, _, _ => ⟨.eq, rfl⟩
  | [], w :: ws, _, _, _ => ⟨.lt, rfl⟩
  | v :: vs, [], _, _, _ => ⟨.gt, rfl⟩
  | v :: vs, w :: ws, _, hv, hw => by
      obtain ⟨o, ho⟩ := order?_of_hasType (hv v List.mem_cons_self) (hw w List.mem_cons_self)
      obtain ⟨p, hp⟩ := orderAll?_of_hasType (fun u hu => hv u (List.mem_cons_of_mem v hu))
        fun u hu => hw u (List.mem_cons_of_mem w hu)
      rw [orderAll?, ho]
      cases o with
      | eq => exact ⟨p, hp⟩
      | lt => exact ⟨.lt, rfl⟩
      | gt => exact ⟨.gt, rfl⟩

end

/-- A comparison of typed values is decided, and its outcome is the relation.
For the order the types have to be equal. -/
theorem compare?_of_hasType {v w : Value} {τ σ : ValueType} (hv : v.HasType τ)
    (hw : w.HasType σ) {op : CmpOp} (hop : op = .eq ∨ op = .ne ∨ τ = σ) :
    ∃ b, v.compare? op w = some b ∧ (b = true ↔ v.Compares op w) := by
  obtain ⟨b, hb, hiff⟩ := equal?_of_hasType hv hw
  cases op with
  | eq => exact ⟨b, hb, hiff⟩
  | ne =>
      refine ⟨!b, by simp [compare?, hb], ?_⟩
      simp [Compares, ← hiff]
  | _ =>
      obtain rfl : τ = σ := by simpa using hop
      obtain ⟨o, ho⟩ := order?_of_hasType hv hw
      refine ⟨_, by rw [compare?, ho]; rfl, ?_⟩
      cases o <;> simp [Compares, ho]

/-- A membership test of typed values is decided, and its outcome is
membership. -/
theorem memberOf?_of_hasType {v : Value} {ws : List Value} {τ σ : ValueType} (hv : v.HasType τ)
    (hws : ∀ w ∈ ws, w.HasType σ) : ∃ b, v.memberOf? ws = some b ∧ (b = true ↔ v ∈ ws) := by
  induction ws with
  | nil => exact ⟨false, rfl, by simp⟩
  | cons w ws ih =>
      obtain ⟨b, hb, hiff⟩ := equal?_of_hasType hv (hws w List.mem_cons_self)
      cases b with
      | true => exact ⟨true, by rw [memberOf?, hb]; rfl, by simp [hiff.1 rfl]⟩
      | false =>
          obtain ⟨c, hc, hmem⟩ := ih fun u hu => hws u (List.mem_cons_of_mem w hu)
          have hne : v ≠ w := by
            intro h
            exact absurd (hiff.2 h) (by decide)
          refine ⟨c, ?_, by simp [hmem, hne]⟩
          rw [memberOf?, hb]
          exact hc

/-- A list of scalars is a list of numbers. -/
theorem exists_ints_of_hasType {vs : List Value} (h : ∀ v ∈ vs, v.HasType .scalar) :
    ∃ is : List Int, vs = is.map .int := by
  induction vs with
  | nil => exact ⟨[], rfl⟩
  | cons v vs ih =>
      obtain ⟨is, rfl⟩ := ih fun w hw => h w (List.mem_cons_of_mem v hw)
      cases h v List.mem_cons_self with
      | int i => exact ⟨i :: is, rfl⟩

/-- The set of a list of numbers. -/
theorem builtin?_set (order : SetOrder) (is : List Int) :
    (list (is.map int)).builtin? order "set" = some (set (order.arrange is)) := by
  have hnumbers : (is.map int).mapM number? = some is := by
    induction is with
    | nil => rfl
    | cons i is ih => simp [number?, ih]
  unfold builtin?
  rw [if_neg (by decide), if_pos rfl]
  simp only [items?, Option.bind_eq_bind, Option.bind_some, hnumbers]

end Value

end StatContract
