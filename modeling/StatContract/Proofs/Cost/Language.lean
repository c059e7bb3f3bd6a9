import StatContract.Proofs.Code.Lexeme
import StatContract.Proofs.Cost.Acceptance

/-!
# The language of costs

Which costs have a model is a matter of syntax. Literals, names and sizes of names do, and what is
built from such costs with operators and calls; statistics, lookups and tuples do not. Only powers
are judged by more than their form: with a natural number as their exponent they become
polynomials, so the exponent must not be too large, and with the exponent zero the base is not
looked at. `Supported` are the rules for this, and `Refuses` says which term of a cost is the first
that has no model.

Both leave open what an exponent is read as. The written rule is `IsNatural`: a literal natural
number, of any size. A model is built by machine words, `IsWord`, and takes a larger literal for
one that is no natural number. So the power of a name and such a literal has a model, although
powers with smaller exponents are refused. This is the only difference between the rule and what
is built, `synthesize_decides_language`.
-/

namespace StatContract

namespace Decimal

/-- A row of decimal digits, with a plus sign or without, and the number that it stands for. -/
def IsNumeral (cs : List Char) (n : Nat) : Prop :=
  ∃ ds, (cs = ds ∨ cs = '+' :: ds) ∧ ds ≠ [] ∧ ds.all Char.isDigit = true ∧ digitsValue ds = n

theorem not_all_isDigit_plus (ds : List Char) : ¬('+' :: ds).all Char.isDigit = true :=
  fun h => absurd (Bool.and_eq_true_iff.1 (List.all_cons ▸ h)).1 (by decide)

/-- Digits are read if their number fits into a word. -/
theorem readWord?_of_digits {cs ds : List Char} (hcs : cs = ds ∨ cs = '+' :: ds) (hne : ds ≠ [])
    (hdigits : ds.all Char.isDigit = true) :
    readWord? cs = if digitsValue ds < UInt32.size then some (digitsValue ds) else none := by
  have hnonempty : (ds.isEmpty || !ds.all Char.isDigit) = false := by simp [hne, hdigits]
  rcases hcs with rfl | rfl
  · rw [readWord?]
    · simp only [hnonempty, Bool.false_eq_true, if_false]
    · rintro ds rfl
      exact not_all_isDigit_plus ds hdigits
  · simp only [readWord?, hnonempty, Bool.false_eq_true, if_false]

/-- A numeral stands for one number. -/
theorem IsNumeral.unique {cs : List Char} {m n : Nat} (hm : IsNumeral cs m) (hn : IsNumeral cs n) :
    m = n := by
  obtain ⟨ds, hds, -, hdigits, rfl⟩ := hm
  obtain ⟨es, hes, -, hdigits', rfl⟩ := hn
  rcases hds with rfl | rfl
  · rcases hes with rfl | rfl
    · rfl
    · exact absurd hdigits (not_all_isDigit_plus es)
  · rcases hes with rfl | hes
    · exact absurd hdigits' (not_all_isDigit_plus ds)
    · cases hes
      rfl

/-- The numbers that are read are those of numerals, as far as they fit into a word. -/
theorem readWord?_eq_some_iff {cs : List Char} {n : Nat} :
    readWord? cs = some n ↔ IsNumeral cs n ∧ n < UInt32.size := by
  constructor
  · intro h
    obtain ⟨ds, hcs, hne, hdigits, rfl⟩ := exists_digits_of_readWord? h
    refine ⟨⟨ds, hcs, hne, hdigits, rfl⟩, ?_⟩
    rw [readWord?_of_digits hcs hne hdigits] at h
    by_cases hlt : digitsValue ds < UInt32.size
    · exact hlt
    · rw [if_neg hlt] at h
      cases h
  · rintro ⟨⟨ds, hcs, hne, hdigits, rfl⟩, hlt⟩
    rw [readWord?_of_digits hcs hne hdigits, if_pos hlt]

end Decimal

namespace CostModel

/-! ### Exponents -/

/-- The term is a literal natural number; blanks around it do not count. -/
def IsNatural (t : Term) (n : Nat) : Prop :=
  ∃ note value, t = .constant note value ∧ Decimal.IsNumeral (Text.trim value.toList) n

/-- The term is a literal natural number that fits into a word of 32 bits. -/
def IsWord (t : Term) (n : Nat) : Prop := IsNatural t n ∧ n < UInt32.size

theorem IsNatural.unique {t : Term} {m n : Nat} (hm : IsNatural t m) (hn : IsNatural t n) :
    m = n := by
  obtain ⟨note, value, rfl, hm⟩ := hm
  obtain ⟨_, _, heq, hn⟩ := hn
  cases heq
  exact hm.unique hn

theorem literalExponent?_eq_some_iff {t : Term} {n : Nat} :
    literalExponent? t = some n ↔ IsWord t n := by
  constructor
  · intro h
    match t with
    | .constant note value =>
        obtain ⟨hnumeral, hlt⟩ := Decimal.readWord?_eq_some_iff.1 h
        exact ⟨⟨note, value, rfl, hnumeral⟩, hlt⟩
  · rintro ⟨⟨note, value, rfl, hnumeral⟩, hlt⟩
    exact Decimal.readWord?_eq_some_iff.2 ⟨hnumeral, hlt⟩

/-- The exponent that makes an operation a power with a natural exponent is that of the right
operand. -/
theorem exponent_eq_some_iff {op : ArithOp} {rhs : Term} {n : Nat} :
    (if op = .pow then literalExponent? rhs else none) = some n ↔ op = .pow ∧ IsWord rhs n := by
  by_cases hop : op = .pow
  · simp [hop, literalExponent?_eq_some_iff]
  · simp [hop]

theorem exponent_eq_none_iff {op : ArithOp} {rhs : Term} :
    (if op = .pow then literalExponent? rhs else none) = none ↔
      ¬(op = .pow ∧ ∃ n, IsWord rhs n) := by
  rw [Option.eq_none_iff_forall_ne_some]
  simp only [ne_eq, exponent_eq_some_iff, not_and, not_exists, forall_comm (α := Nat)]

/-! ### The rules -/

/-- The term is of a kind that no model has a form for. -/
def isForeign : Term → Bool
  | .constant .. | .identifier .. | .sizeOf _ (.identifier ..) | .binary .. | .call .. => false
  | _ => true

/-- There is a model for the term. -/
inductive Supported (Exponent : Term → Nat → Prop) : Term → Prop where
  | constant {note value} : Supported Exponent (.constant note value)
  | identifier {note name} : Supported Exponent (.identifier note name)
  | size {note inner name} : Supported Exponent (.sizeOf note (.identifier inner name))
  | call {note name args} (hargs : ∀ a ∈ args, Supported Exponent a) :
      Supported Exponent (.call note name args)
  | operation {note lhs op rhs} (hop : ¬(op = .pow ∧ ∃ n, Exponent rhs n))
      (hlhs : Supported Exponent lhs) (hrhs : Supported Exponent rhs) :
      Supported Exponent (.binary note lhs op rhs)
  /-- A power with the exponent zero is one, whatever its base. -/
  | one {note lhs rhs} (hrhs : Exponent rhs 0) : Supported Exponent (.binary note lhs .pow rhs)
  | polynomial {note lhs rhs n} (hrhs : Exponent rhs n) (hpos : 1 ≤ n) (hmax : n ≤ 16)
      (hlhs : Supported Exponent lhs) : Supported Exponent (.binary note lhs .pow rhs)

/-- The second term is the first, from left to right, that the model of the first one fails
for. -/
inductive Refuses (Exponent : Term → Nat → Prop) : Term → Term → Prop where
  | foreign {t} (h : isForeign t = true) : Refuses Exponent t t
  | argument {note name before a after t} (hbefore : ∀ b ∈ before, Supported Exponent b)
      (ha : Refuses Exponent a t) : Refuses Exponent (.call note name (before ++ a :: after)) t
  | left {note lhs op rhs t} (hop : ¬(op = .pow ∧ ∃ n, Exponent rhs n))
      (hlhs : Refuses Exponent lhs t) : Refuses Exponent (.binary note lhs op rhs) t
  | right {note lhs op rhs t} (hop : ¬(op = .pow ∧ ∃ n, Exponent rhs n))
      (hlhs : Supported Exponent lhs) (hrhs : Refuses Exponent rhs t) :
      Refuses Exponent (.binary note lhs op rhs) t
  /-- A power with too large an exponent is refused before its base is looked at. -/
  | degree {note lhs rhs n} (hrhs : Exponent rhs n) (hmax : 16 < n) :
      Refuses Exponent (.binary note lhs .pow rhs) (.binary note lhs .pow rhs)
  | base {note lhs rhs t n} (hrhs : Exponent rhs n) (hpos : 1 ≤ n) (hmax : n ≤ 16)
      (hlhs : Refuses Exponent lhs t) : Refuses Exponent (.binary note lhs .pow rhs) t

/-! ### The rules decide -/

mutual

/-- A term that is not supported has a first term that is the reason. -/
theorem supported_or_refuses (Exponent : Term → Nat → Prop) :
    ∀ t : Term, Supported Exponent t ∨ ∃ u, Refuses Exponent t u
  | .constant .. => .inl .constant
  | .identifier .. => .inl .identifier
  | .sizeOf _ collection => by
      cases collection with
      | identifier _ _ => exact .inl .size
      | _ => exact .inr ⟨_, .foreign rfl⟩
  | .binary note lhs op rhs => by
      have hlhs := supported_or_refuses Exponent lhs
      have hrhs := supported_or_refuses Exponent rhs
      by_cases hop : op = .pow ∧ ∃ n, Exponent rhs n
      · obtain ⟨rfl, n, hn⟩ := hop
        by_cases hmax : 16 < n
        · exact .inr ⟨_, .degree hn hmax⟩
        · have hmax := Nat.not_lt.1 hmax
          rcases Nat.eq_zero_or_pos n with rfl | hpos
          · exact .inl (.one hn)
          · rcases hlhs with hlhs | ⟨u, hu⟩
            · exact .inl (.polynomial hn hpos hmax hlhs)
            · exact .inr ⟨u, .base hn hpos hmax hu⟩
      · rcases hlhs with hlhs | ⟨u, hu⟩
        · rcases hrhs with hrhs | ⟨u, hu⟩
          · exact .inl (.operation hop hlhs hrhs)
          · exact .inr ⟨u, .right hop hlhs hu⟩
        · exact .inr ⟨u, .left hop hu⟩
  | .call note name args => by
      rcases supported_or_refuses_argument Exponent args with
        hargs | ⟨before, a, after, u, rfl, hbefore, ha⟩
      · exact .inl (.call hargs)
      · exact .inr ⟨u, .argument hbefore ha⟩
  | .probability .. | .probabilityOverItems .. | .expectation .. | .expectationOverItems ..
  | .lookup .. | .tuple .. => .inr ⟨_, .foreign rfl⟩

theorem supported_or_refuses_argument (Exponent : Term → Nat → Prop) : ∀ args : List Term,
    (∀ a ∈ args, Supported Exponent a) ∨ ∃ before a after t, args = before ++ a :: after ∧
      (∀ b ∈ before, Supported Exponent b) ∧ Refuses Exponent a t
  | [] => .inl (List.forall_mem_nil _)
  | a :: args => by
      rcases supported_or_refuses Exponent a with ha | ⟨t, ht⟩
      · rcases supported_or_refuses_argument Exponent args with
          hargs | ⟨before, b, after, t, rfl, hbefore, hb⟩
        · exact .inl (List.forall_mem_cons.2 ⟨ha, hargs⟩)
        · exact .inr ⟨a :: before, b, after, t, rfl, List.forall_mem_cons.2 ⟨ha, hbefore⟩, hb⟩
      · exact .inr ⟨[], a, args, t, rfl, List.forall_mem_nil _, ht⟩

end

/-! ### What is built -/

theorem unsupportedOfAll?_eq_findSome? (ts : List Term) :
    unsupportedOfAll? ts = ts.findSome? unsupported? := by
  induction ts with
  | nil => rfl
  | cons t ts ih => rw [unsupportedOfAll?, ih, List.findSome?_cons]; cases unsupported? t <;> rfl

theorem unsupported?_of_isForeign {t : Term} (h : isForeign t = true) :
    unsupported? t = some t := by
  match t with
  | .sizeOf _ collection =>
      cases collection with
      | identifier _ _ => cases h
      | _ => rfl
  | .probability .. | .probabilityOverItems .. | .expectation .. | .expectationOverItems ..
  | .lookup .. | .tuple .. => rfl

/-- Operations are judged by their operands, unless they are powers with a natural exponent. -/
theorem unsupported?_operation {note : Note} {lhs rhs : Term} {op : ArithOp}
    (hop : ¬(op = .pow ∧ ∃ n, IsWord rhs n)) :
    unsupported? (.binary note lhs op rhs) = (unsupported? lhs).or (unsupported? rhs) := by
  rw [unsupported?, exponent_eq_none_iff.2 hop]

theorem unsupported?_power {note : Note} {lhs rhs : Term} {n : Nat} (hrhs : IsWord rhs n) :
    unsupported? (.binary note lhs .pow rhs) = if n = 0 then none else
      if 16 < n then some (.binary note lhs .pow rhs) else unsupported? lhs := by
  rw [unsupported?, exponent_eq_some_iff.2 ⟨rfl, hrhs⟩]
  cases n with
  | zero => rfl
  | succ n => rfl

theorem Supported.unsupported?_eq {t : Term} (h : Supported IsWord t) : unsupported? t = none := by
  induction h with
  | constant | identifier | size => rfl
  | call _ ih => rw [unsupported?, unsupportedOfAll?_eq_findSome?, List.findSome?_eq_none_iff.2 ih]
  | operation hop _ _ ihlhs ihrhs => rw [unsupported?_operation hop, ihlhs, ihrhs, Option.or_none]
  | one hrhs => rw [unsupported?_power hrhs, if_pos rfl]
  | polynomial hrhs hpos hmax _ ih =>
      rw [unsupported?_power hrhs, if_neg (Nat.ne_of_gt hpos), if_neg (Nat.not_lt.2 hmax), ih]

theorem Refuses.unsupported?_eq {t u : Term} (h : Refuses IsWord t u) :
    unsupported? t = some u := by
  induction h with
  | foreign h => exact unsupported?_of_isForeign h
  | argument hbefore _ ih =>
      have hnone := List.findSome?_eq_none_iff.2 fun b hb => (hbefore b hb).unsupported?_eq
      rw [unsupported?, unsupportedOfAll?_eq_findSome?, List.findSome?_append, hnone,
        List.findSome?_cons, ih]
      rfl
  | left hop _ ih => rw [unsupported?_operation hop, ih, Option.some_or]
  | right hop hlhs _ ih =>
      rw [unsupported?_operation hop, hlhs.unsupported?_eq, ih, Option.none_or]
  | degree hrhs hmax =>
      rw [unsupported?_power hrhs, if_neg (Nat.ne_of_gt (Nat.zero_lt_of_lt hmax)), if_pos hmax]
  | base hrhs hpos hmax _ ih =>
      rw [unsupported?_power hrhs, if_neg (Nat.ne_of_gt hpos), if_neg (Nat.not_lt.2 hmax), ih]

theorem supported_iff (t : Term) : Supported IsWord t ↔ unsupported? t = none := by
  refine ⟨Supported.unsupported?_eq, fun h => ?_⟩
  rcases supported_or_refuses IsWord t with ht | ⟨u, hu⟩
  · exact ht
  · cases h.symm.trans hu.unsupported?_eq

theorem refuses_iff (t u : Term) : Refuses IsWord t u ↔ unsupported? t = some u := by
  refine ⟨Refuses.unsupported?_eq, fun h => ?_⟩
  rcases supported_or_refuses IsWord t with ht | ⟨v, hv⟩
  · cases ht.unsupported?_eq.symm.trans h
  · cases hv.unsupported?_eq.symm.trans h
    exact hv

/-- Models are built exactly for the supported costs, and any other cost is refused for the first
term that has no model. -/
def Decides (Exponent : Term → Nat → Prop) (cost : Term) : Prop :=
  ((∃ m, synthesize cost = .ok m) ↔ Supported Exponent cost) ∧
    ∀ e, synthesize cost = .error e ↔
      ∃ t, Refuses Exponent cost t ∧ e = .unsupportedCost t.text t.span

theorem decides_isWord (cost : Term) : Decides IsWord cost := by
  have hfinds := synthesize_finds cost
  constructor
  · rw [hfinds.exists_ok_iff, supported_iff, refusal?, Option.map_eq_none_iff]
  · intro e
    simp only [hfinds.eq_error_iff, refuses_iff, refusal?, Option.map_eq_some_iff,
      eq_comm (a := e)]

/-! ### Exponents that are no words -/

/-- The term is a power with a literal exponent that is no word. -/
def IsHuge (t : Term) : Prop :=
  ∃ note base exponent n, t = .binary note base .pow exponent ∧ IsNatural exponent n ∧
    UInt32.size ≤ n

/-- The first term of a cost that is not supported is a power with a literal exponent that is no
word. -/
def Overflows (cost : Term) : Prop := ∃ t, Refuses IsNatural cost t ∧ IsHuge t

theorem not_isWord {op : ArithOp} {rhs : Term} (h : ¬(op = .pow ∧ ∃ n, IsNatural rhs n)) :
    ¬(op = .pow ∧ ∃ n, IsWord rhs n) := by
  rintro ⟨hop, n, hn⟩
  exact h ⟨hop, n, hn.1⟩

theorem lt_size {n : Nat} (h : n ≤ 16) : n < UInt32.size := Nat.lt_of_le_of_lt h (by decide)

theorem Supported.isWord {t : Term} (h : Supported IsNatural t) : Supported IsWord t := by
  induction h with
  | constant => exact .constant
  | identifier => exact .identifier
  | size => exact .size
  | call _ ih => exact .call ih
  | operation hop _ _ ihlhs ihrhs => exact .operation (not_isWord hop) ihlhs ihrhs
  | one hrhs => exact .one ⟨hrhs, by decide⟩
  | polynomial hrhs hpos hmax _ ih => exact .polynomial ⟨hrhs, lt_size hmax⟩ hpos hmax ih

theorem Refuses.isWord {t u : Term} (h : Refuses IsNatural t u) (hu : ¬IsHuge u) :
    Refuses IsWord t u := by
  induction h with
  | foreign h => exact .foreign h
  | argument hbefore _ ih => exact .argument (fun b hb => (hbefore b hb).isWord) (ih hu)
  | left hop _ ih => exact .left (not_isWord hop) (ih hu)
  | right hop hlhs _ ih => exact .right (not_isWord hop) hlhs.isWord (ih hu)
  | @degree note lhs rhs n hrhs hmax =>
      have hlt : n < UInt32.size := Nat.not_le.1 fun hle => hu ⟨note, lhs, rhs, n, rfl, hrhs, hle⟩
      exact .degree ⟨hrhs, hlt⟩ hmax
  | base hrhs hpos hmax _ ih => exact .base ⟨hrhs, lt_size hmax⟩ hpos hmax (ih hu)

/-- A power that is refused when exponents are words has a word as its exponent. -/
theorem Refuses.not_isHuge {t u : Term} (h : Refuses IsWord t u) : ¬IsHuge u := by
  induction h with
  | foreign h =>
      rintro ⟨note, base, exponent, n, rfl, -⟩
      cases h
  | argument _ _ ih | left _ _ ih | right _ _ _ ih | base _ _ _ _ ih => exact ih
  | degree hrhs =>
      rintro ⟨note, base, exponent, n, heq, hn, hle⟩
      cases heq
      rw [hn.unique hrhs.1] at hle
      exact Nat.not_lt.2 hle hrhs.2

theorem decides_isNatural {cost : Term} (h : ¬Overflows cost) : Decides IsNatural cost := by
  have hsupported : Supported IsNatural cost ↔ Supported IsWord cost := by
    refine ⟨Supported.isWord, fun hword => ?_⟩
    rcases supported_or_refuses IsNatural cost with hcost | ⟨t, ht⟩
    · exact hcost
    · have hrefuses := ht.isWord fun hhuge => h ⟨t, ht, hhuge⟩
      cases hword.unsupported?_eq.symm.trans hrefuses.unsupported?_eq
  have hrefuses (t : Term) : Refuses IsNatural cost t ↔ Refuses IsWord cost t := by
    refine ⟨fun ht => ht.isWord fun hhuge => h ⟨t, ht, hhuge⟩, fun hword => ?_⟩
    rcases supported_or_refuses IsNatural cost with hcost | ⟨u, hu⟩
    · cases hcost.isWord.unsupported?_eq.symm.trans hword.unsupported?_eq
    · have hu' := hu.isWord fun hhuge => h ⟨u, hu, hhuge⟩
      cases hu'.unsupported?_eq.symm.trans hword.unsupported?_eq
      exact hu
  have hdecides := decides_isWord cost
  simpa only [Decides, hsupported, hrefuses] using hdecides

/-- No term of a supported cost is refused. -/
theorem Supported.not_refuses {t : Term} (h : Supported IsNatural t) (u : Term) :
    ¬Refuses IsNatural t u := by
  induction h with
  | constant | identifier | size =>
      intro hu
      cases hu with
      | foreign hforeign => cases hforeign
  | call _ ih =>
      intro hu
      cases hu with
      | foreign hforeign => cases hforeign
      | argument _ ha => exact ih _ (List.mem_append_right _ List.mem_cons_self) ha
  | operation hop _ _ ihlhs ihrhs =>
      intro hu
      cases hu with
      | foreign hforeign => cases hforeign
      | left _ hlhs => exact ihlhs hlhs
      | right _ _ hrhs => exact ihrhs hrhs
      | degree hrhs | base hrhs => exact hop ⟨rfl, _, hrhs⟩
  | one hrhs =>
      intro hu
      cases hu with
      | foreign hforeign => cases hforeign
      | left hop | right hop => exact hop ⟨rfl, 0, hrhs⟩
      | degree hrhs' hmax => exact absurd (hrhs.unique hrhs' ▸ hmax) (by decide)
      | base hrhs' hpos => exact absurd (hrhs.unique hrhs' ▸ hpos) (by decide)
  | polynomial hrhs _ hmax _ ih =>
      intro hu
      cases hu with
      | foreign hforeign => cases hforeign
      | left hop | right hop => exact hop ⟨rfl, _, hrhs⟩
      | degree hrhs' hmax' => exact Nat.not_lt.2 hmax (hrhs.unique hrhs' ▸ hmax')
      | base _ _ _ hlhs => exact ih hlhs

/-- Which costs have a model, and which term a cost is refused for, is as the rules say when
exponents are words. It is as the rules say for exponents of any size unless the first term that
these refuse is a power whose exponent is no word. Then the cost is not supported, but it has a
model or is refused for another term. -/
theorem synthesize_decides_language (cost : Term) :
    Decides IsWord cost ∧ (¬Overflows cost → Decides IsNatural cost) ∧
      ∀ t, Refuses IsNatural cost t → IsHuge t → ¬Supported IsNatural cost ∧
        ((∃ m, synthesize cost = .ok m) ∨
          ∃ u, u ≠ t ∧ Refuses IsWord cost u ∧
            synthesize cost = .error (.unsupportedCost u.text u.span)) := by
  refine ⟨decides_isWord cost, decides_isNatural, fun t ht hhuge => ?_⟩
  refine ⟨fun hsupported => hsupported.not_refuses t ht, ?_⟩
  obtain ⟨hok, herror⟩ := decides_isWord cost
  rcases supported_or_refuses IsWord cost with hcost | ⟨u, hu⟩
  · exact .inl (hok.2 hcost)
  · refine .inr ⟨u, ?_, hu, (herror _).2 ⟨u, hu, rfl⟩⟩
    rintro rfl
    exact hu.not_isHuge hhuge

/-- The cost `L[0] ** 0 + k ** 017`. -/
def steepCost : Term :=
  .binary {} (.binary {} (.lookup {} (.identifier {} "L") (.constant {} "0")) .pow
    (.constant {} " 0 ")) .add (.binary {} (.identifier {} "k") .pow (.constant {} "017"))

/-- The cost `n ** 4294967296`. -/
def hugeCost : Term := .binary {} (.identifier {} "n") .pow (.constant {} "4294967296")

theorem synthesize_decides_language_steepCost :
    (¬Overflows steepCost ∧ Decides IsNatural steepCost ∧
      synthesize steepCost = .error (.unsupportedCost "(k ** 017)" Span.dummy)) ∧
    Refuses IsNatural hugeCost hugeCost ∧ IsHuge hugeCost ∧ ¬Supported IsNatural hugeCost ∧
      ∃ m, synthesize hugeCost = .ok m := by
  have hzero : IsNatural (.constant {} " 0 ") 0 :=
    ⟨_, _, rfl, ['0'], .inl rfl, by decide, rfl, rfl⟩
  have hseventeen : IsNatural (.constant {} "017") 17 :=
    ⟨_, _, rfl, ['0', '1', '7'], .inl rfl, by decide, rfl, rfl⟩
  have hlarge : IsNatural (.constant {} "4294967296") 4294967296 :=
    ⟨_, _, rfl, "4294967296".toList, .inl rfl, by decide, rfl, rfl⟩
  have hhuge : IsHuge hugeCost := ⟨_, _, _, _, rfl, hlarge, by decide⟩
  have hrefuses : Refuses IsNatural hugeCost hugeCost := .degree hlarge (by decide)
  have hsteep : ¬Overflows steepCost := by
    rintro ⟨t, ht, note, base, exponent, n, rfl, hn, hle⟩
    cases ht with
    | left _ hlhs => exact (Supported.one hzero).not_refuses _ hlhs
    | right _ _ hrhs =>
        cases hrhs with
        | foreign hforeign => cases hforeign
        | left hop | right hop => exact hop ⟨rfl, _, hseventeen⟩
        | degree => exact absurd (hn.unique hseventeen ▸ hle) (by decide)
        | base hexponent _ hmax => exact absurd (hexponent.unique hseventeen ▸ hmax) (by decide)
  refine ⟨⟨hsteep, (synthesize_decides_language steepCost).2.1 hsteep, rfl⟩, hrefuses, hhuge,
    ((synthesize_decides_language hugeCost).2.2 _ hrefuses hhuge).1, _, rfl⟩

end CostModel

end StatContract
