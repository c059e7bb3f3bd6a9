import StatContract.Proofs.Code.Value
import StatContract.Proofs.Spec.Names
import StatContract.Spec.Domain

/-!
# The truth of logical clauses

A logical clause has no statistic: it compares and searches data, with
connectives, lets and quantifiers. Its truth is defined here from the values of
its names, with lexical scoping and without any code: a let and a range give a
new meaning to their name, in their scope only. A quantifier over no values at
all holds.

Which clauses are logical is told from the annotated tree, since it depends on
types what can be added, counted or ordered.
-/

namespace StatContract

/-- The value of a term, given the values of the names. Statistics, lookups,
tuples and calls have none here. -/
def Term.denote : Term → Store Value → Option Value
  | .constant _ text, _ => (numeral? text).map fun n => .int n
  | .identifier _ name, ρ => ρ name
  | .sizeOf _ collection, ρ =>
    match collection.denote ρ with
    | some (.list vs) => some (.int vs.length)
    | _ => none
  | .binary _ lhs op rhs, ρ =>
    match lhs.denote ρ, op, rhs.denote ρ with
    | some (.int i), .add, some (.int j) => some (.int (i + j))
    | some (.int i), .sub, some (.int j) => some (.int (i - j))
    | some (.int i), .mul, some (.int j) => some (.int (i * j))
    | _, _, _ => none
  | _, _ => none

/-- The values that a range variable takes, for a list. -/
def RangeMode.Covers (mode : RangeMode) (vs : List Value) (v : Value) : Prop :=
  match mode with
  | .elements | .uniqueElements => v ∈ vs
  | .indices => ∃ i < vs.length, v = .int i

/-- A condition holds for all values of the range variables. A later collection
may depend on an earlier variable. -/
def Range.Every : List Range → Store Value → (Store Value → Prop) → Prop
  | [], ρ, P => P ρ
  | .mk _ var collection mode :: rest, ρ, P =>
    ∃ vs, collection.denote ρ = some (.list vs) ∧
      ∀ v, mode.Covers vs v → Range.Every rest (ρ.set var v) P

/-- The clause is true, given the values of its free names. -/
def Clause.Holds : Clause → Store Value → Prop
  | .forAll _ ranges body, ρ => Range.Every ranges ρ fun ρ' => body.Holds ρ'
  | .letIn _ name value body, ρ => ∃ v, value.denote ρ = some v ∧ body.Holds (ρ.set name v)
  | .membership _ item collection, ρ =>
    ∃ v vs, item.denote ρ = some v ∧ collection.denote ρ = some (.list vs) ∧ v ∈ vs
  | .approx .., _ => False
  | .compare _ lhs op rhs, ρ =>
    ∃ v w, lhs.denote ρ = some v ∧ rhs.denote ρ = some w ∧ v.Compares op w
  | .logic _ lhs .and rhs, ρ => lhs.Holds ρ ∧ rhs.Holds ρ
  | .logic _ lhs .or rhs, ρ => lhs.Holds ρ ∨ rhs.Holds ρ
  | .not _ inner, ρ => ¬ inner.Holds ρ

/-- Whether an annotated term is built from numerals, names, sizes of lists, and
sums, differences and products of scalars. -/
def Term.isPlain : Term → Bool
  | .constant _ text => (numeral? text).isSome
  | .identifier .. => true
  | .sizeOf _ collection => collection.isPlain && collection.ty.any (·.isSequence)
  | .binary _ lhs op rhs =>
    lhs.isPlain && rhs.isPlain && [ArithOp.add, .sub, .mul].contains op &&
      lhs.ty == some .scalar && rhs.ty == some .scalar
  | _ => false

/-- Whether the collection of an annotated range is plain; distinct elements are
taken of lists of scalars. -/
def Range.isPlain : Range → Bool
  | .mk _ _ collection mode =>
    collection.isPlain &&
      (mode != .uniqueElements || collection.ty == some (.sequence .scalar))

/-- Whether an annotated clause is logical: it compares plain terms, which are of
one type if it asks for their order, searches scalars in lists of scalars, and
has connectives, lets and quantifiers over such clauses. -/
def Clause.isLogical : Clause → Bool
  | .forAll _ ranges body => ranges.all Range.isPlain && body.isLogical
  | .letIn _ _ value body => value.isPlain && body.isLogical
  | .membership _ item collection =>
    item.isPlain && collection.isPlain && item.ty == some .scalar &&
      collection.ty == some (.sequence .scalar)
  | .approx .. => false
  | .compare _ lhs op rhs =>
    lhs.isPlain && rhs.isPlain && (op == .eq || op == .ne || lhs.ty == rhs.ty)
  | .logic _ lhs _ rhs => lhs.isLogical && rhs.isLogical
  | .not _ inner => inner.isLogical

/-- Plain terms bind no names. -/
theorem Term.binders_of_isPlain : ∀ {t : Term}, t.isPlain = true → t.binders = []
  | .constant .., _ => rfl
  | .identifier .., _ => rfl
  | .sizeOf _ collection, h => by
      simp only [Term.isPlain, Bool.and_eq_true] at h
      rw [Term.binders_sizeOf, Term.binders_of_isPlain h.1]
  | .binary _ lhs _ rhs, h => by
      simp only [Term.isPlain, Bool.and_eq_true] at h
      rw [Term.binders_binary, Term.binders_of_isPlain h.1.1.1.1,
        Term.binders_of_isPlain h.1.1.1.2, List.append_nil]

/-- Plain terms commit to no domain. -/
theorem Term.domain_of_isPlain : ∀ {t : Term}, t.isPlain = true → t.domain = .none
  | .constant .., _ => rfl
  | .identifier .., _ => rfl
  | .sizeOf .., _ => rfl
  | .binary _ lhs _ rhs, h => by
      simp only [Term.isPlain, Bool.and_eq_true] at h
      rw [Term.domain, Term.domain_of_isPlain h.1.1.1.1, Term.domain_of_isPlain h.1.1.1.2]
      rfl

theorem Term.isStatistic_of_isPlain {t : Term} (h : t.isPlain = true) :
    t.isStatistic = false := by
  cases t <;> first | rfl | cases h

/-- Logical clauses commit to no domain. -/
theorem Clause.domain_of_isLogical : ∀ {c : Clause}, c.isLogical = true → c.domain = .none
  | .forAll _ ranges body, h => by
      simp only [Clause.isLogical, Bool.and_eq_true] at h
      rw [Clause.domain]
      exact Clause.domain_of_isLogical h.2
  | .letIn _ _ value body, h => by
      simp only [Clause.isLogical, Bool.and_eq_true] at h
      rw [Clause.domain]
      exact Clause.domain_of_isLogical h.2
  | .membership .., _ => rfl
  | .compare _ lhs _ rhs, h => by
      simp only [Clause.isLogical, Bool.and_eq_true] at h
      rw [Clause.domain, Term.domain_of_isPlain h.1.1, Term.domain_of_isPlain h.1.2]
      rfl
  | .logic _ lhs _ rhs, h => by
      simp only [Clause.isLogical, Bool.and_eq_true] at h
      rw [Clause.domain, Clause.domain_of_isLogical h.1, Clause.domain_of_isLogical h.2]
      rfl
  | .not _ inner, h => Clause.domain_of_isLogical (c := inner) h

end StatContract
