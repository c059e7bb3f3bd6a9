import Mathlib.Tactic.NormNum
import StatContract.Lowering.Term
import StatContract.Proofs.Cost.Expression

/-!
# The grouping of lowered arithmetic

Lowering writes every operation in brackets and copies literals as they are, so it is left to
precedence whether an operand that is not bracketed stays one. Names, lookups and literals without
a minus sign cannot be pulled apart. A negative literal can: a power takes its base before the
sign, and `-2**2` is the negative of a square.

So the text of a term of literals, identifiers and operators is read as its operator tree, except
that the sign of a negative base moves out of its power (`Arith.regroup`). The trees agree exactly
where no base is a negative literal. A plus sign before a literal is dropped by the reader.
-/

namespace StatContract

/-- The tree of the expression that reads a reference. -/
def Reference.arith : Reference → Arith
  | here name => .name name
  | trialOutput trial => .item (.name outputName) (.name trial)
  | config name => .item (.name "Config") (.name ("'" ++ name ++ "'"))

namespace Arith

/-- The tree of a literal. -/
def ofLiteral (l : Bool × Nat × Int) : Arith :=
  if l.1 then .neg (.number l.2.1 l.2.2) else .number l.2.1 l.2.2

/-- Moves the signs of negative bases out of their powers. -/
def regroup : Arith → Arith
  | binary (neg (number m z)) .pow b => neg (binary (number m z) .pow b.regroup)
  | binary a op b => binary a.regroup op b.regroup
  | e => e

theorem regroup_binary {a b : Arith} {op : ArithOp}
    (h : op = .pow → ∀ m z, a ≠ neg (number m z)) :
    (binary a op b).regroup = binary a.regroup op b.regroup := by
  rw [regroup]
  rintro m z rfl rfl
  exact h rfl m z rfl

theorem regroup_ofLiteral (l : Bool × Nat × Int) : (ofLiteral l).regroup = ofLiteral l := by
  rw [ofLiteral]
  split <;> rfl

theorem regroup_arith (r : Reference) : r.arith.regroup = r.arith := by
  cases r <;> rfl

variable {K : Type*} [DivisionRing K]

/-- The value of an expression in a state, which gives values to names, lookups and calls. -/
def valueIn (F : Functions K) (state : Arith → K) : Arith → K
  | number m z => decimal m z
  | neg a => -a.valueIn F state
  | binary a op b => op.apply F (a.valueIn F state) (b.valueIn F state)
  | leaf => state leaf

theorem valueIn_arith (F : Functions K) (state : Arith → K) (r : Reference) :
    r.arith.valueIn F state = state r.arith := by
  cases r <;> rfl

namespace Stands

/-- A negative literal as a base: its sign is that of the power. -/
theorem negative_pow {s b : String} {m : Nat} {z : Int} {y : Arith}
    (h : literal? s = some (true, m, z)) (hb : Stands 3 b y) :
    Stands 3 (s ++ "**" ++ b) (.neg (.binary (.number m z) .pow y)) := by
  have htokens : tokens? s.toList = some [.op .sub, .number m z] := by
    unfold literal? at h
    split at h <;> simp_all
  have hs : Spells s.toList ([.op .sub] ++ [.number m z]) :=
    .number [.op .sub] htokens (by simp) (by simp)
  obtain ⟨us, hbs, hread⟩ := hb
  refine ⟨.op .sub :: .number m z :: .op .pow :: us, ?_, ?_⟩
  · have hpow := hs.binary hbs .pow
    rw [String.toList_append, String.toList_append]
    exact hpow
  · intro k rest _ hrest
    have hlt : rank rest < 3 := Nat.lt_of_le_of_ne hrest (rank_ne_three rest)
    calc operand k (.op .sub :: .number m z :: .op .pow :: us ++ rest)
      _ = operator (.minus :: k) (.number m z) (.op .pow :: (us ++ rest)) := rfl
      _ = operand (.right (.number m z) .pow :: .minus :: k) (us ++ rest) :=
          operator_op (k := .minus :: k) (Nat.le_succ 3)
      _ = operator (.right (.number m z) .pow :: .minus :: k) y rest :=
          hread _ rest (Nat.le_refl 3) hrest
      _ = operator (.minus :: k) (.binary (.number m z) .pow y) rest :=
          operator_close (f := .right (.number m z) .pow) hlt
      _ = operator k (.neg (.binary (.number m z) .pow y)) rest :=
          operator_close (f := .minus) hlt

theorem quoted {n : String} (h : isName n = true) :
    Stands 4 ("'" ++ n ++ "'") (.name ("'" ++ n ++ "'")) := by
  refine .name ?_
  have hquote : isWordChar (Char.ofNat 39) = true := by decide
  have hall : n.toList.all isWordChar = true := by
    unfold isName at h
    split at h
    · cases h
    · rename_i c cs hn
      simp only [Bool.and_eq_true] at h
      rw [hn, List.all_cons, h.1.1, h.2]
      rfl
  simp [isName, hall, hquote, startsNumber]

end Stands

end Arith

namespace Context

/-- A name is read as a variable or from the configuration, or it is the output of the trial. -/
theorem resolve_cases (ctx : Context) (name : String) :
    ctx.resolve name = .here name ∨ ctx.resolve name = .config name ∨
      name = outputName ∧ ∃ i ∈ ctx.trial, ctx.resolve name = .trialOutput i := by
  unfold resolve
  split
  · split
    · next i hi =>
        split
        · next hname => exact .inr (.inr ⟨hname, i, hi, rfl⟩)
        · exact .inl rfl
    · exact .inl rfl
  · exact .inr (.inl rfl)

/-- Different names are read by different expressions. -/
theorem arith_resolve_injective {ctx : Context} {m n : String}
    (h : (ctx.resolve m).arith = (ctx.resolve n).arith) : m = n := by
  rcases ctx.resolve_cases m with hm | hm | ⟨rfl, i, -, hm⟩ <;>
  rcases ctx.resolve_cases n with hn | hn | ⟨rfl, j, -, hn⟩ <;>
  simp_all [Reference.arith, outputName]

/-- What reads a name is not pulled apart by what stands around it. -/
theorem stands_resolve {ctx : Context} (htrial : ∀ i ∈ ctx.trial, Arith.isName i = true)
    {name : String} (h : Arith.isName name = true) :
    Arith.Stands 4 (ctx.resolve name).code.text (ctx.resolve name).arith := by
  rcases ctx.resolve_cases name with hname | hname | ⟨-, i, hi, hname⟩
  · rw [hname]
    exact .name h
  · rw [hname]
    exact .item (.name (by decide)) (.quoted h)
  · rw [hname]
    exact .paren (.item (.name (by decide)) (.name (htrial i hi)))

end Context

namespace Term

/-- Whether a term is scalar arithmetic: built from literals, identifiers and operators, with
every node typed as a scalar. -/
def isArithmetic : Term → Bool
  | constant note text => note.ty = some .scalar && (Arith.literal? text).isSome
  | identifier note name => note.ty = some .scalar && Arith.isName name
  | binary note lhs _ rhs => note.ty = some .scalar && lhs.isArithmetic && rhs.isArithmetic
  | _ => false

/-- The tree of the operators in a term, with the expressions that read its identifiers. -/
def operatorTree? (ctx : Context) : Term → Option Arith
  | constant _ text => (Arith.literal? text).map Arith.ofLiteral
  | identifier _ name => some (ctx.resolve name).arith
  | binary _ lhs op rhs => do
    let a ← lhs.operatorTree? ctx
    let b ← rhs.operatorTree? ctx
    return .binary a op b
  | _ => none

/-- Whether a negative literal is the base of a power in a term. -/
def hasNegativeBase : Term → Bool
  | binary _ lhs op rhs =>
    op = .pow && lhs.isNegative || lhs.hasNegativeBase || rhs.hasNegativeBase
  | _ => false

variable {ctx : Context} {t lhs rhs : Term} {e : Arith} {note : Note} {op : ArithOp}

theorem requireType_of_isArithmetic (h : t.isArithmetic = true) :
    t.requireType = .ok .scalar := by
  have hty : t.ty = some .scalar := by
    match t with
    | constant _ _ | identifier _ _ | binary _ _ _ _ => simp_all [isArithmetic, ty, Term.note]
  rw [requireType, hty]

theorem lower_binary_of_isArithmetic {a b : Code} (hlhs : lhs.isArithmetic = true)
    (hrhs : rhs.isArithmetic = true) (ha : lhs.lower ctx = .ok a) (hb : rhs.lower ctx = .ok b) :
    (binary note lhs op rhs).lower ctx = .ok (.group a (.arith op) b) := by
  rw [lower, requireType_of_isArithmetic hlhs, requireType_of_isArithmetic hrhs, ha, hb]
  rfl

theorem operatorTree?_binary_eq_some_iff :
    (binary note lhs op rhs).operatorTree? ctx = some e ↔
      ∃ a b, lhs.operatorTree? ctx = some a ∧ rhs.operatorTree? ctx = some b ∧
        e = .binary a op b := by
  simp only [operatorTree?, Option.bind_eq_bind, Option.bind_eq_some_iff, Option.pure_def,
    Option.some.injEq]
  constructor
  · rintro ⟨a, ha, b, hb, rfl⟩
    exact ⟨a, b, ha, hb, rfl⟩
  · rintro ⟨a, b, ha, hb, rfl⟩
    exact ⟨a, ha, b, hb, rfl⟩

/-- The tree of a negative literal is the negative of a number. -/
theorem exists_operatorTree?_of_isNegative (h : t.isNegative = true) :
    ∃ note text m z, t = .constant note text ∧ Arith.literal? text = some (true, m, z) ∧
      t.operatorTree? ctx = some (.neg (.number m z)) := by
  obtain ⟨note, text, m, z, rfl, hliteral⟩ := CostModel.exists_literal_of_isNegative h
  refine ⟨note, text, m, z, rfl, hliteral, ?_⟩
  rw [operatorTree?, hliteral]
  rfl

/-- No other term has the tree of a negative literal. -/
theorem ne_neg_of_operatorTree? (hnegative : t.isNegative = false)
    (h : t.operatorTree? ctx = some e) (a : Arith) : e ≠ .neg a := by
  match t with
  | constant _ text =>
      obtain ⟨⟨sign, m, z⟩, hliteral, rfl⟩ := Option.map_eq_some_iff.1 h
      rw [isNegative, hliteral] at hnegative
      cases sign with
      | false => simp [Arith.ofLiteral]
      | true => cases hnegative
  | identifier _ name =>
      cases h
      rcases ctx.resolve_cases name with hname | hname | ⟨-, i, -, hname⟩ <;>
        simp [hname, Reference.arith]
  | binary _ _ _ _ =>
      obtain ⟨_, _, -, -, rfl⟩ := operatorTree?_binary_eq_some_iff.1 h
      simp

/-- The text of arithmetic is read as its tree, with the signs of bases moved out. Only a
negative literal can be pulled apart, by a power around it. -/
theorem exists_stands_lower (htrial : ∀ i ∈ ctx.trial, Arith.isName i = true) {t : Term}
    (ht : t.isArithmetic = true) :
    ∃ c e, t.lower ctx = .ok c ∧ t.operatorTree? ctx = some e ∧
      Arith.Stands (if t.isNegative then 3 else 4) c.text e.regroup := by
  match t with
  | constant note text =>
      rw [isArithmetic, Bool.and_eq_true] at ht
      obtain ⟨⟨sign, m, z⟩, hliteral⟩ := Option.isSome_iff_exists.1 ht.2
      refine ⟨.verbatim text, _, by rw [lower], by rw [operatorTree?, hliteral]; rfl, ?_⟩
      rw [Arith.regroup_ofLiteral, isNegative, hliteral]
      cases sign with
      | false => exact .literal hliteral
      | true => exact .negative hliteral
  | identifier note name =>
      rw [isArithmetic, Bool.and_eq_true] at ht
      refine ⟨_, _, by rw [lower], by rw [operatorTree?], ?_⟩
      rw [Arith.regroup_arith]
      exact ctx.stands_resolve htrial ht.2
  | binary note lhs op rhs =>
      rw [isArithmetic, Bool.and_eq_true, Bool.and_eq_true] at ht
      obtain ⟨a, x, ha, hx, hastands⟩ := exists_stands_lower htrial ht.1.2
      obtain ⟨b, y, hb, hy, hbstands⟩ := exists_stands_lower htrial ht.2
      have hbstands : Arith.Stands 3 b.text y.regroup := hbstands.mono (by split <;> decide)
      have hinner : ∃ i, Arith.Stands i (Code.binary a (.arith op) b).text
          (Arith.binary x op y).regroup := by
        -- Only a power with a negative literal as its base reaches into its operand.
        by_cases hbase : op = .pow ∧ lhs.isNegative = true
        · obtain ⟨rfl, hlhs⟩ := hbase
          obtain ⟨_, text, m, z, rfl, hliteral, htree⟩ :=
            @exists_operatorTree?_of_isNegative ctx lhs hlhs
          rw [htree] at hx
          cases hx
          rw [lower] at ha
          cases ha
          exact ⟨_, .negative_pow hliteral hbstands⟩
        · have hne : op = .pow → ∀ m z, x ≠ .neg (.number m z) := fun hop m z =>
            ne_neg_of_operatorTree? (by simpa [hop] using hbase) hx _
          -- In all other cases the left operand binds as strongly as the operator asks for.
          have hrank : op.rank ≤ if lhs.isNegative then 3 else 4 := by
            by_cases hop : op = .pow
            · have hlhs : lhs.isNegative = false := by simpa [hop] using hbase
              rw [hlhs]
              exact op.rank_le_four
            · have hle : op.rank ≤ 2 := by cases op <;> simp_all [ArithOp.rank]
              split <;> omega
          rw [Arith.regroup_binary hne]
          exact ⟨_, .binary op (hastands.mono hrank) (hbstands.mono op.reach_le_three)⟩
      obtain ⟨i, hinner⟩ := hinner
      exact ⟨_, .binary x op y, lower_binary_of_isArithmetic ht.1.2 ht.2 ha hb,
        operatorTree?_binary_eq_some_iff.2 ⟨x, y, hx, hy, rfl⟩, hinner.paren⟩

/-- Moving signs out changes a tree exactly where there is a negative base. -/
theorem regroup_eq_self_iff {t : Term} {e : Arith} (h : t.operatorTree? ctx = some e) :
    e.regroup = e ↔ t.hasNegativeBase = false := by
  match t with
  | constant _ text =>
      obtain ⟨l, -, rfl⟩ := Option.map_eq_some_iff.1 h
      simp [Arith.regroup_ofLiteral, hasNegativeBase]
  | identifier _ name =>
      cases h
      simp [Arith.regroup_arith, hasNegativeBase]
  | binary _ lhs op rhs =>
      obtain ⟨a, b, ha, hb, rfl⟩ := operatorTree?_binary_eq_some_iff.1 h
      have iha := regroup_eq_self_iff ha
      have ihb := regroup_eq_self_iff hb
      by_cases hbase : op = .pow ∧ lhs.isNegative = true
      · obtain ⟨_, _, m, z, -, -, htree⟩ := @exists_operatorTree?_of_isNegative ctx lhs hbase.2
        rw [htree] at ha
        cases ha
        obtain ⟨rfl, hlhs⟩ := hbase
        simp [Arith.regroup, hasNegativeBase, hlhs]
      · have hne : op = .pow → ∀ m z, a ≠ .neg (.number m z) := fun hop m z =>
          ne_neg_of_operatorTree? (by simpa [hop] using hbase) ha _
        rw [Arith.regroup_binary hne]
        have hsign : op = .pow → lhs.isNegative = false := fun hop => by simpa [hop] using hbase
        simp only [Arith.binary.injEq, true_and, iha, ihb, hasNegativeBase, Bool.or_eq_false_iff,
          Bool.and_eq_false_imp, decide_eq_true_eq]
        rw [and_iff_right hsign]

section Value

variable {K : Type*} [DivisionRing K]

/-- A state gives the identifiers of a term the values of their quantities. -/
def Agrees (ctx : Context) (quantities : String → Quantity K) (state : Arith → K) : Prop :=
  ∀ name, state (ctx.resolve name).arith = (quantities name).value

/-- Identifiers can have any values, since they are read by different expressions. -/
theorem exists_agrees (ctx : Context) (quantities : String → Quantity K) :
    ∃ state, Agrees ctx quantities state := by
  have hinjective : Function.Injective fun name => (ctx.resolve name).arith :=
    fun _ _ => Context.arith_resolve_injective
  exact ⟨Function.extend _ (fun name => (quantities name).value) fun _ => 0,
    hinjective.extend_apply _ _⟩

/-- The value of a term is that of its tree. -/
theorem costAt_eq_valueIn (F : Functions K) {quantities : String → Quantity K} {state : Arith → K}
    (hstate : Agrees ctx quantities state) {t : Term} {e : Arith}
    (h : t.operatorTree? ctx = some e) : t.costAt F quantities = some (e.valueIn F state) := by
  match t with
  | constant _ text =>
      obtain ⟨⟨sign, m, z⟩, hliteral, rfl⟩ := Option.map_eq_some_iff.1 h
      rw [costAt, hliteral]
      cases sign <;> rfl
  | identifier _ name =>
      cases h
      rw [costAt, Arith.valueIn_arith, hstate name]
  | binary _ lhs op rhs =>
      obtain ⟨a, b, ha, hb, rfl⟩ := operatorTree?_binary_eq_some_iff.1 h
      rw [costAt, costAt_eq_valueIn F hstate ha, costAt_eq_valueIn F hstate hb]
      rfl

end Value

/-- Scalar arithmetic is lowered, and its text is read as its operator tree with the signs of
negative bases moved out. So it keeps its grouping exactly if no negative literal is the base of
a power, and then it has the same value for all values of the identifiers. -/
theorem lower_keeps_grouping {ctx : Context} {t : Term}
    (htrial : ∀ i ∈ ctx.trial, Arith.isName i = true) (ht : t.isArithmetic = true) :
    ∃ c e, t.lower ctx = .ok c ∧ t.operatorTree? ctx = some e ∧
      Arith.read? c.text = some e.regroup ∧ (e.regroup = e ↔ t.hasNegativeBase = false) ∧
      (t.hasNegativeBase = false → ∀ (K : Type) [DivisionRing K] (F : Functions K)
        (quantities : String → Quantity K), (∃ state, Agrees ctx quantities state) ∧
          ∀ state, Agrees ctx quantities state →
            t.costAt F quantities = some (e.regroup.valueIn F state)) := by
  obtain ⟨c, e, hlower, htree, hstands⟩ := exists_stands_lower htrial ht
  have hregroup := regroup_eq_self_iff htree
  refine ⟨c, e, hlower, htree, hstands.read?_eq, hregroup, fun hbase K _ F quantities => ?_⟩
  refine ⟨exists_agrees ctx quantities, fun state hstate => ?_⟩
  rw [hregroup.2 hbase]
  exact costAt_eq_valueIn F hstate htree

/-- The term `(Output - -3) * n ** -2` inside of a trial, where `n` is in the configuration. -/
def scaledSample : Term :=
  .binary ⟨.dummy, some .scalar⟩
    (.binary ⟨.dummy, some .scalar⟩ (.identifier ⟨.dummy, some .scalar⟩ outputName) .sub
      (.constant ⟨.dummy, some .scalar⟩ "-3")) .mul
    (.binary ⟨.dummy, some .scalar⟩ (.identifier ⟨.dummy, some .scalar⟩ "n") .pow
      (.constant ⟨.dummy, some .scalar⟩ "-2"))

/-- The term `-2 ** 2`. -/
def negativeSquare : Term :=
  .binary ⟨.dummy, some .scalar⟩ (.constant ⟨.dummy, some .scalar⟩ "-2") .pow
    (.constant ⟨.dummy, some .scalar⟩ "2")

theorem lower_keeps_grouping_scaledSample :
    (∃ c, scaledSample.lower { names := ["Output"], trial := some "t1" } = .ok c ∧
      c.text = "(((Output[t1])--3)*(Config['n']**-2))" ∧
      Arith.read? c.text = some (.binary
        (.binary (.item (.name "Output") (.name "t1")) .sub (.neg (.number 3 0))) .mul
        (.binary (.item (.name "Config") (.name "'n'")) .pow (.neg (.number 2 0))))) ∧
    ∃ c, negativeSquare.lower { names := [] } = .ok c ∧
      Arith.read? c.text = some (.neg (.binary (.number 2 0) .pow (.number 2 0))) ∧
      ∀ (F : Functions ℚ) quantities state,
        negativeSquare.costAt F quantities = some 4 ∧
          (Arith.neg (.binary (.number 2 0) .pow (.number 2 0))).valueIn F state = -4 := by
  obtain ⟨c, e, hc, he, hread, -⟩ := @lower_keeps_grouping
    { names := ["Output"], trial := some "t1" } scaledSample (by decide) rfl
  obtain ⟨c', e', hc', he', hread', -⟩ := @lower_keeps_grouping { names := [] } negativeSquare
    (by decide) rfl
  cases hc
  cases he
  cases hc'
  cases he'
  have hsquare (F : Functions ℚ) (a : ℚ) : F.pow a (decimal 2 0) = a ^ 2 := by
    rw [CostModel.Expresses.decimal_zero, F.pow_natCast]
  refine ⟨⟨_, rfl, rfl, hread⟩, _, rfl, hread', fun F quantities state => ⟨?_, ?_⟩⟩
  · change some (F.pow (-decimal 2 0) (decimal 2 0)) = some 4
    rw [hsquare, CostModel.Expresses.decimal_zero]
    norm_num
  · change -F.pow (decimal 2 0) (decimal 2 0) = -4
    rw [hsquare, CostModel.Expresses.decimal_zero]
    norm_num

end Term

end StatContract
