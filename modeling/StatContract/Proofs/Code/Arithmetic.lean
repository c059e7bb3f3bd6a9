import Mathlib.Data.List.Forall2
import StatContract.Code.Expr
import StatContract.Proofs.Code.Lexeme

/-!
# Reading arithmetic

The second pass over arithmetic text turns its tokens into a tree, with the usual
precedence: sums are loosest, then products, then signs, and powers are tightest; sums and
products group to the left, powers to the right, and an exponent may have a sign. The
reader goes through the tokens once and keeps a stack of what it is inside of.

A text *stands for* a tree at a level if the reader takes it for this tree wherever what
stands before and after it is no tighter than the level. The levels are 1 for sums, 2 for
products, 3 for signs and powers, and 4 for what nothing can pull apart. The text of each
form of expression stands for its tree if the texts of its parts do, at the levels that the
form asks for.
-/

namespace StatContract

/-- How tightly an operator holds its left operand. -/
def ArithOp.rank : ArithOp → Nat
  | add | sub => 1
  | mul | div => 2
  | pow => 4

/-- How tight text on the right of an operator must be to belong to its right operand. -/
def ArithOp.reach : ArithOp → Nat
  | add | sub => 2
  | mul | div | pow => 3

theorem ArithOp.rank_le_four (op : ArithOp) : op.rank ≤ 4 := by
  cases op <;> decide

theorem ArithOp.reach_le_three (op : ArithOp) : op.reach ≤ 3 := by
  cases op <;> decide

theorem ArithOp.reach_le_four (op : ArithOp) : op.reach ≤ 4 :=
  Nat.le_succ_of_le op.reach_le_three

/-- An arithmetic expression. -/
inductive Arith where
  | number (digits : Nat) (exponent : Int)
  | name (n : String)
  | neg (a : Arith)
  | binary (lhs : Arith) (op : ArithOp) (rhs : Arith)
  | call (function : String) (args : List Arith)
  | item (container key : Arith)

namespace Arith

/-- What a reader is inside of: the right operand of an operator, a sign or brackets. -/
inductive Frame where
  | right (lhs : Arith) (op : ArithOp)
  | minus
  | paren
  | args (function : String) (done : List Arith)
  | item (container : Arith)

/-- How tight text must be to be read inside. -/
def Frame.floor : Frame → Nat
  | right _ op => op.reach
  | minus => 3
  | paren | args _ _ | item _ => 0

/-- The expression that ends with what was read inside. -/
def Frame.close : Frame → Arith → Arith
  | right lhs op, e => .binary lhs op e
  | minus, e => .neg e
  | paren, e | args _ _, e | item _, e => e

/-- Leaves what the text of a rank after an expression is outside of. -/
def settle (rank : Nat) : List Frame → Arith → List Frame × Arith
  | [], e => ([], e)
  | f :: k, e => if rank < f.floor then settle rank k (f.close e) else (f :: k, e)

/-- How tightly a token holds an expression before it. -/
def Token.rank : Token → Nat
  | op o => o.rank
  | itemOpening => 4
  | opening => 5
  | _ => 0

mutual

/-- Reads on where an expression has to begin. -/
def operand : List Frame → List Token → Option Arith
  | k, .number m e :: ts => operator k (.number m e) ts
  | k, .name f :: .opening :: ts => operand (.args f [] :: k) ts
  | k, .name n :: ts => operator k (.name n) ts
  | k, .op .sub :: ts => operand (.minus :: k) ts
  | k, .op .add :: ts => operand k ts
  | k, .opening :: ts => operand (.paren :: k) ts
  | .args f [] :: k, .closing :: ts => operator k (.call f []) ts
  | _, _ => none

/-- Reads on after an expression. -/
def operator : List Frame → Arith → List Token → Option Arith
  | k, e, [] =>
    match settle 0 k e with
    | ([], e) => some e
    | _ => none
  | k, e, t :: ts =>
    match t, settle t.rank k e with
    | .op o, (k, e) => operand (.right e o :: k) ts
    | .itemOpening, (k, e) => operand (.item e :: k) ts
    | .closing, (.paren :: k, e) => operator k e ts
    | .closing, (.args f done :: k, e) => operator k (.call f (done ++ [e])) ts
    | .comma, (.args f done :: k, e) => operand (.args f (done ++ [e]) :: k) ts
    | .itemClosing, (.item a :: k, e) => operator k (.item a e) ts
    | _, _ => none

end

/-- The expression that a text is. -/
def read? (s : String) : Option Arith := (tokens? s.toList).bind (operand [])

/-- The sign (true for minus), the digits and the exponent of a literal. -/
def literal? (s : String) : Option (Bool × Nat × Int) :=
  match tokens? s.toList with
  | some [.number m e] | some [.op .add, .number m e] => some (false, m, e)
  | some [.op .sub, .number m e] => some (true, m, e)
  | _ => none

theorem literal?_of_all_isDigit {s : String} (h : s.toList.all Char.isDigit = true)
    (hne : s.toList ≠ []) : literal? s = some (false, Decimal.digitsValue s.toList, 0) := by
  rw [literal?, tokens?_of_all_isDigit h hne]

theorem literal?_toString (n : Nat) : literal? (toString n) = some (false, n, 0) := by
  have hlist : (toString n).toList = Nat.toDigits 10 n := by simp
  have hdigits : (toString n).toList.all Char.isDigit = true := by
    rw [hlist, List.all_eq_true]
    exact fun c hc => Nat.isDigit_of_mem_toDigits (by decide) (by decide) hc
  rw [literal?_of_all_isDigit hdigits (by simp), hlist, Decimal.digitsValue_toDigits]

/-- A literal that is a whole number has its value. -/
theorem literal?_of_readWord? {s : String} {n : Nat}
    (h : Decimal.readWord? (Text.trim s.toList) = some n) : literal? s = some (false, n, 0) := by
  obtain ⟨ds, hds, hne, hdigits, rfl⟩ := Decimal.exists_digits_of_readWord? h
  obtain ⟨a, b, ha, hb, hs⟩ := Text.exists_eq_append_trim s.toList
  have hnumber := tokens?_of_all_isDigit hdigits hne
  rw [literal?, hs]
  rcases hds with hds | hds
  · rw [hds, tokens?_of_isBlank ha hb hnumber]
  · have hplus : tokens? ('+' :: ds) = some [.op .add, .number (Decimal.digitsValue ds) 0] :=
      tokens?_append (a := ['+']) rfl hnumber
        fun c _ _ => joins_singleton (by decide) (by decide) c
    rw [hds, tokens?_of_isBlank ha hb hplus]

example : read? "8-3-x*2" = some (.binary (.binary (.number 8 0) .sub (.number 3 0)) .sub
    (.binary (.name "x") .mul (.number 2 0))) := rfl

example : read? "-2**-y**2" = some (.neg (.binary (.number 2 0) .pow
    (.neg (.binary (.name "y") .pow (.number 2 0))))) := rfl

example : read? "f(a[0],2.5e-1)/3" = some (.binary
    (.call "f" [.item (.name "a") (.number 0 0), .number 25 (-2)]) .div (.number 3 0)) := rfl

section Steps

variable {k : List Frame} {e : Arith} {ts : List Token}

/-- How tight text must be to be read inside all frames of a stack. -/
def floor : List Frame → Nat
  | [] => 0
  | f :: _ => f.floor

/-- How tightly tokens hold an expression before them. -/
def rank : List Token → Nat
  | [] => 0
  | t :: _ => t.rank

theorem floor_le_three (k : List Frame) : floor k ≤ 3 := by
  match k with
  | .right _ op :: _ => exact op.reach_le_three
  | .minus :: _ => exact Nat.le_refl 3
  | [] | .paren :: _ | .args _ _ :: _ | .item _ :: _ => exact Nat.zero_le 3

/-- No token is as tight as a sign. -/
theorem rank_ne_three (ts : List Token) : rank ts ≠ 3 := by
  match ts with
  | [] => decide
  | t :: ts =>
      cases t with
      | op o => cases o <;> exact nofun
      | _ => exact nofun

theorem settle_of_floor_le {rank : Nat} (h : floor k ≤ rank) : settle rank k e = (k, e) := by
  match k with
  | [] => rfl
  | f :: k => exact if_neg (Nat.not_lt.2 h)

/-- Only what follows decides how far an expression is closed. -/
theorem operator_congr {k' : List Frame} {e' : Arith}
    (h : settle (rank ts) k e = settle (rank ts) k' e') : operator k e ts = operator k' e' ts := by
  match ts with
  | [] =>
      change settle 0 k e = settle 0 k' e' at h
      unfold operator
      rw [h]
  | t :: ts =>
      change settle t.rank k e = settle t.rank k' e' at h
      unfold operator
      rw [h]

theorem operator_close {f : Frame} (h : rank ts < f.floor) :
    operator (f :: k) e ts = operator k (f.close e) ts :=
  operator_congr (if_pos h)

theorem operator_op {op : ArithOp} (h : floor k ≤ op.rank) :
    operator k e (.op op :: ts) = operand (.right e op :: k) ts := by
  have hsettle : settle (Token.op op).rank k e = (k, e) := settle_of_floor_le h
  unfold operator
  rw [hsettle]

theorem operator_itemOpening : operator k e (.itemOpening :: ts) = operand (.item e :: k) ts := by
  have h : floor k ≤ 4 := Nat.le_succ_of_le (floor_le_three k)
  have hsettle : settle (Token.itemOpening).rank k e = (k, e) := settle_of_floor_le h
  unfold operator
  rw [hsettle]

theorem operand_name {n : String} (h : rank ts ≤ 4) :
    operand k (.name n :: ts) = operator k (.name n) ts := by
  rw [operand]
  rintro ts rfl
  exact absurd h (Nat.not_succ_le_self 4)

end Steps

/-- A text is read as an expression wherever what stands around it is no tighter than a
level. -/
def Stands (level : Nat) (s : String) (e : Arith) : Prop :=
  ∃ ts, Spells s.toList ts ∧ ∀ k rest, floor k ≤ level → rank rest ≤ level →
    operand k (ts ++ rest) = operator k e rest

namespace Stands

variable {s a b : String} {e x y : Arith} {i j : Nat}

theorem read?_eq (h : Stands i s e) : read? s = some e := by
  obtain ⟨ts, hs, hread⟩ := h
  have hempty := hread [] [] (Nat.zero_le _) (Nat.zero_le _)
  rw [List.append_nil] at hempty
  rw [read?, hs.tokens, Option.bind_some, hempty]
  rfl

theorem mono (h : Stands i s e) (hle : j ≤ i) : Stands j s e := by
  obtain ⟨ts, hs, hread⟩ := h
  exact ⟨ts, hs, fun k rest hk hrest => hread k rest (Nat.le_trans hk hle) (Nat.le_trans hrest hle)⟩

theorem name {n : String} (h : isName n = true) : Stands 4 n (.name n) :=
  ⟨_, .name h, fun _ _ _ hrest => operand_name hrest⟩

theorem literal {m : Nat} {z : Int} (h : literal? s = some (false, m, z)) :
    Stands 4 s (.number m z) := by
  unfold literal? at h
  split at h
  · rename_i htokens
    cases h
    exact ⟨_, .number [] htokens nofun nofun, fun k rest _ _ => rfl⟩
  · rename_i htokens
    cases h
    exact ⟨_, .number [.op .add] htokens nofun nofun, fun k rest _ _ => rfl⟩
  · cases h
  · cases h

/-- A negative literal stands where a sign can. -/
theorem negative {m : Nat} {z : Int} (h : literal? s = some (true, m, z)) :
    Stands 3 s (.neg (.number m z)) := by
  unfold literal? at h
  split at h
  · cases h
  · cases h
  · rename_i htokens
    cases h
    refine ⟨_, .number [.op .sub] htokens nofun nofun, fun k rest _ hrest => ?_⟩
    have hclose : rank rest < 3 := Nat.lt_of_le_of_ne hrest (rank_ne_three rest)
    exact operator_close (f := .minus) hclose
  · cases h

theorem paren (h : Stands i s e) : Stands 4 ("(" ++ s ++ ")") e := by
  obtain ⟨ts, hs, hread⟩ := h
  refine ⟨.opening :: ts ++ [.closing], ?_, ?_⟩
  · have hclosing := hs.append_mark (c := ')') rfl rfl (by decide)
    simpa using hclosing.mark_append (c := '(') rfl rfl (by decide)
  · intro k rest _ _
    have hinner := hread (.paren :: k) (.closing :: rest) (Nat.zero_le _) (Nat.zero_le _)
    simp only [List.cons_append, List.append_assoc, List.nil_append, operand, hinner]
    rfl

/-- Operators take their operands at their own rank and reach. -/
theorem binary (op : ArithOp) (ha : Stands op.rank a x) (hb : Stands op.reach b y) :
    Stands (min op.rank op.reach) (a ++ op.symbol ++ b) (.binary x op y) := by
  obtain ⟨ts, has, hreada⟩ := ha
  obtain ⟨us, hbs, hreadb⟩ := hb
  refine ⟨ts ++ .op op :: us, ?_, ?_⟩
  · simpa using has.binary hbs op
  · intro k rest hk hrest
    have hleft := Nat.min_le_left op.rank op.reach
    have hright := Nat.min_le_right op.rank op.reach
    have hclose : rank rest < op.reach := by
      have hne := rank_ne_three rest
      cases op <;> simp only [ArithOp.rank, ArithOp.reach] at hrest ⊢ <;> omega
    calc operand k (ts ++ .op op :: us ++ rest)
      _ = operand k (ts ++ .op op :: (us ++ rest)) := by simp
      _ = operator k x (.op op :: (us ++ rest)) :=
          hreada k _ (Nat.le_trans hk hleft) (Nat.le_refl _)
      _ = operand (.right x op :: k) (us ++ rest) := operator_op (Nat.le_trans hk hleft)
      _ = operator (.right x op :: k) y rest :=
          hreadb _ rest (Nat.le_refl _) (Nat.le_trans hrest hright)
      _ = operator k (.binary x op y) rest := operator_close hclose

theorem item (ha : Stands 4 a x) (hb : Stands i b y) :
    Stands 4 (a ++ "[" ++ b ++ "]") (.item x y) := by
  obtain ⟨ts, has, hreada⟩ := ha
  obtain ⟨us, hbs, hreadb⟩ := hb
  refine ⟨ts ++ .itemOpening :: (us ++ [.itemClosing]), ?_, ?_⟩
  · have hclosing := hbs.append_mark (c := ']') rfl rfl (by decide)
    simpa using has.join hclosing (c := '[') rfl rfl (by decide)
  · intro k rest hk hrest
    calc operand k (ts ++ .itemOpening :: (us ++ [.itemClosing]) ++ rest)
      _ = operand k (ts ++ .itemOpening :: (us ++ .itemClosing :: rest)) := by simp
      _ = operator k x (.itemOpening :: (us ++ .itemClosing :: rest)) :=
          hreada k _ hk (Nat.le_refl _)
      _ = operand (.item x :: k) (us ++ .itemClosing :: rest) := operator_itemOpening
      _ = operator (.item x :: k) y (.itemClosing :: rest) :=
          hreadb _ _ (Nat.zero_le _) (Nat.zero_le _)
      _ = operator k (.item x y) rest := rfl

/-- Arguments are read one by one. -/
theorem args {texts : List String} {es : List Arith} (h : List.Forall₂ (Stands i) texts es)
    (hne : texts ≠ []) : ∃ ts, Spells (",".intercalate texts).toList ts ∧
      ∀ f done k rest, operand (.args f done :: k) (ts ++ .closing :: rest) =
        operator k (.call f (done ++ es)) rest := by
  induction h with
  | nil => exact absurd rfl hne
  | @cons s e texts es hs hrest ih =>
      obtain ⟨ts, hspells, hread⟩ := hs
      cases hrest with
      | nil =>
          refine ⟨ts, by simpa using hspells, fun f done k rest => ?_⟩
          rw [hread _ _ (Nat.zero_le _) (Nat.zero_le _)]
          rfl
      | cons _ _ =>
          obtain ⟨us, hus, hargs⟩ := ih nofun
          refine ⟨ts ++ .comma :: us, ?_, fun f done k rest => ?_⟩
          · simpa [String.intercalate_cons_cons] using
              hspells.join hus (c := ',') rfl rfl (by decide)
          · have hdone := hargs f (done ++ [e]) k rest
            rw [List.append_assoc, List.singleton_append] at hdone
            rw [List.append_assoc, List.cons_append, hread _ _ (Nat.zero_le _) (Nat.zero_le _),
              ← hdone]
            rfl

theorem call {f : String} (hf : isName f = true) {texts : List String} {es : List Arith}
    (h : List.Forall₂ (Stands i) texts es) :
    Stands 4 (f ++ "(" ++ ",".intercalate texts ++ ")") (.call f es) := by
  have hname := Spells.name hf
  cases h with
  | nil =>
      refine ⟨.name f :: .opening :: [.closing], ?_, fun k rest _ _ => rfl⟩
      have hclosing := Spells.mark (c := ')') rfl rfl (by decide)
      simpa using hname.join hclosing (c := '(') rfl rfl (by decide)
  | cons hs hrest =>
      obtain ⟨ts, hts, hread⟩ := args (.cons hs hrest) nofun
      refine ⟨.name f :: .opening :: (ts ++ [.closing]), ?_, fun k rest _ _ => ?_⟩
      · have hclosing := hts.append_mark (c := ')') rfl rfl (by decide)
        simpa using hname.join hclosing (c := '(') rfl rfl (by decide)
      · rw [List.cons_append, List.cons_append, operand, List.append_assoc, List.singleton_append]
        exact hread f [] k rest

end Stands

end Arith

end StatContract
