import StatContract.Operator
import StatContract.Decimal.Reader

/-!
# Lexemes of arithmetic text

Arithmetic is read in two passes. The first one, here, cuts a text into lexemes, each as
long as it can be, and gives each its token: numbers, names, operators, brackets and
commas. Blanks separate lexemes and are dropped.

Two texts are cut independently of each other wherever the last lexeme of the first does
not go on into the second (`lexemes_append`). `Spells` is what the pieces of a written
expression have in common: they have tokens, and no sign after them is taken for a part of
their last lexeme.
-/

namespace StatContract

/-- Trimming takes off blanks at both ends. -/
theorem Text.exists_eq_append_trim (cs : List Char) :
    ∃ a b, a.all isBlank = true ∧ b.all isBlank = true ∧ cs = a ++ trim cs ++ b := by
  refine ⟨cs.takeWhile isBlank, ((cs.dropWhile isBlank).reverse.takeWhile isBlank).reverse,
    List.all_takeWhile, ?_, ?_⟩
  · rw [List.all_reverse]
    exact List.all_takeWhile
  · rw [trim, List.append_assoc, ← List.reverse_append, List.takeWhile_append_dropWhile,
      List.reverse_reverse, List.takeWhile_append_dropWhile]

namespace Decimal

/-- The digits after a point at the front, and what follows them. -/
def spanFraction : List Char → List Char × List Char
  | '.' :: rest => spanDigits rest
  | rest => ([], rest)

/-- An unsigned decimal number as its digits and the power of ten that they count. -/
def exactValue? (cs : List Char) : Option (Nat × Int) :=
  let whole := spanDigits cs
  let fraction := spanFraction whole.2
  if whole.1.isEmpty && fraction.1.isEmpty then none
  else (readExponent? fraction.2).map fun e =>
    (digitsValue (whole.1 ++ fraction.1), e - fraction.1.length)

theorem digitsValue_toDigits (n : Nat) : digitsValue (Nat.toDigits 10 n) = n :=
  Nat.ofDigitChars_ten_toDigits

theorem spanDigits_of_all {ds : List Char} (h : ds.all Char.isDigit = true) :
    spanDigits ds = (ds, []) := by
  induction ds with
  | nil => rfl
  | cons c ds ih =>
      obtain ⟨hc, hds⟩ := Bool.and_eq_true_iff.1 (List.all_cons ▸ h)
      have hspan := ih hds
      simp only [spanDigits, Prod.mk.injEq] at hspan ⊢
      simp [hc, hspan]

theorem exactValue?_of_all {ds : List Char} (h : ds.all Char.isDigit = true) (hne : ds ≠ []) :
    exactValue? ds = some (digitsValue ds, 0) := by
  simp [exactValue?, spanDigits_of_all h, spanFraction, hne, readExponent?]

/-- A whole number is a row of digits, with a plus sign or without. -/
theorem exists_digits_of_readWord? {cs : List Char} {n : Nat} (h : readWord? cs = some n) :
    ∃ ds, (cs = ds ∨ cs = '+' :: ds) ∧ ds ≠ [] ∧ ds.all Char.isDigit = true ∧
      digitsValue ds = n := by
  have hdigits {ds : List Char} (h : (if ds.isEmpty || !ds.all Char.isDigit then none
      else if digitsValue ds < UInt32.size then some (digitsValue ds) else none) = some n) :
      ds ≠ [] ∧ ds.all Char.isDigit = true ∧ digitsValue ds = n := by
    split at h
    · cases h
    · rename_i hds
      simp only [Bool.or_eq_true, Bool.not_eq_true', not_or, Bool.not_eq_false,
        List.isEmpty_iff] at hds
      split at h
      · exact ⟨hds.1, hds.2, Option.some_inj.1 h⟩
      · cases h
  by_cases hplus : ∃ ds, cs = '+' :: ds
  · obtain ⟨ds, rfl⟩ := hplus
    exact ⟨ds, .inr rfl, hdigits h⟩
  · rw [readWord?] at h
    · exact ⟨cs, .inl rfl, hdigits h⟩
    · exact fun ds hds => hplus ⟨ds, hds⟩

/-- A text does not stop at the mark of an exponent. -/
def Complete (cs : List Char) : Prop := ∀ c ∈ cs.getLast?, c ≠ 'e' ∧ c ≠ 'E'

theorem Complete.append {a b : List Char} (hb : Complete b) (ha : b = [] → Complete a) :
    Complete (a ++ b) := by
  by_cases h : b = []
  · rw [h, List.append_nil]
    exact ha h
  · intro c hc
    rw [List.getLast?_append, List.getLast?_eq_some_getLast h, Option.some_or] at hc
    exact hb c (by rwa [List.getLast?_eq_some_getLast h])

theorem complete_of_all {ds : List Char} (h : ds.all Char.isDigit = true) : Complete ds := by
  intro c hc
  have hdigit : c.isDigit = true := List.all_eq_true.1 h c (List.mem_of_getLast? hc)
  constructor <;> (rintro rfl; exact absurd hdigit (by decide))

theorem complete_of_spanDigits {cs : List Char} (h : Complete (spanDigits cs).2) :
    Complete cs := by
  rw [← List.takeWhile_append_dropWhile (p := Char.isDigit) (l := cs)]
  exact h.append fun _ => complete_of_all List.all_takeWhile

theorem complete_of_spanFraction {cs : List Char} (h : Complete (spanFraction cs).2) :
    Complete cs := by
  unfold spanFraction at h
  split at h
  · refine (complete_of_spanDigits h).append (a := ['.']) fun _ c hc => ?_
    cases hc
    decide
  · exact h

theorem exists_eq_append_splitSign (cs : List Char) : ∃ sign, cs = sign ++ (splitSign cs).2 := by
  unfold splitSign
  split
  · exact ⟨['+'], rfl⟩
  · exact ⟨['-'], rfl⟩
  · exact ⟨[], rfl⟩

theorem complete_of_readExponent? {cs : List Char} {e : Int} (h : readExponent? cs = some e) :
    Complete cs := by
  match cs with
  | [] => exact nofun
  | c :: cs =>
      obtain ⟨sign, hsign⟩ := exists_eq_append_splitSign cs
      simp only [readExponent?] at h
      split at h
      · split at h
        · contradiction
        · rename_i hdigits
          simp only [Bool.or_eq_true, Bool.not_eq_true', not_or, Bool.not_eq_false] at hdigits
          rw [hsign, ← List.cons_append]
          exact (complete_of_all hdigits.2).append fun hnil => by simp [hnil] at hdigits
      · contradiction

theorem complete_of_exactValue? {cs : List Char} {x : Nat × Int} (h : exactValue? cs = some x) :
    Complete cs := by
  simp only [exactValue?] at h
  split at h
  · contradiction
  · obtain ⟨e, he, -⟩ := Option.map_eq_some_iff.1 h
    exact complete_of_spanDigits (complete_of_spanFraction (complete_of_readExponent? he))

end Decimal

namespace Arith

/-- A piece of arithmetic text. -/
inductive Token where
  | number (digits : Nat) (exponent : Int)
  | name (n : String)
  | op (op : ArithOp)
  | opening | closing | itemOpening | itemClosing | comma
  deriving DecidableEq, Repr

/-- Whether a character stands between numbers and names. -/
def isMark (c : Char) : Bool := ['+', '-', '*', '/', '(', ')', '[', ']', ','].contains c

/-- Whether a character can be part of a number or name. -/
def isWordChar (c : Char) : Bool := !isMark c && !Text.isBlank c

/-- Whether a word with this first character is a number. -/
def startsNumber (c : Char) : Bool := c.isDigit || c = '.'

/-- Whether a lexeme goes on with a character: a word with more of it, a number with the
sign of its exponent, and a star with a second one. -/
def joins : List Char → Char → Bool
  | [], _ => false
  | first :: more, c =>
    if first = '*' then more.isEmpty && c = '*'
    else isWordChar first && (isWordChar c ||
      startsNumber first && (c = '+' || c = '-') &&
        ['e', 'E'].contains ((first :: more).getLast?.getD first))

/-- The lexemes that a text adds to a beginning of one. -/
def lexemes : List Char → List Char → List (List Char)
  | w, [] => if w.all Text.isBlank then [] else [w]
  | w, c :: cs =>
    if joins w c then lexemes (w ++ [c]) cs
    else (if w.all Text.isBlank then [] else [w]) ++ lexemes [c] cs

/-- The lexeme that a text ends in, after a beginning of one. -/
def pending : List Char → List Char → List Char
  | w, [] => w
  | w, c :: cs => pending (if joins w c then w ++ [c] else [c]) cs

/-- The token of an operator, a bracket or a comma. -/
def symbol? : List Char → Option Token
  | ['+'] => some (.op .add)
  | ['-'] => some (.op .sub)
  | ['*'] => some (.op .mul)
  | ['/'] => some (.op .div)
  | ['*', '*'] => some (.op .pow)
  | ['('] => some .opening
  | [')'] => some .closing
  | ['['] => some .itemOpening
  | [']'] => some .itemClosing
  | [','] => some .comma
  | _ => none

/-- The token of a lexeme. -/
def token? : List Char → Option Token
  | [] => none
  | c :: cs =>
    if startsNumber c then (Decimal.exactValue? (c :: cs)).map fun x => .number x.1 x.2
    else if isWordChar c then some (.name (String.ofList (c :: cs)))
    else symbol? (c :: cs)

/-- The tokens of a text. -/
def tokens? (cs : List Char) : Option (List Token) := (lexemes [] cs).mapM token?

/-- Whether a text can be a name. -/
def isName (n : String) : Bool :=
  match n.toList with
  | [] => false
  | c :: cs => isWordChar c && !startsNumber c && cs.all isWordChar

section Cutting

theorem lexemes_append (a : List Char) {b w : List Char}
    (h : ∀ c rest, b = c :: rest → joins (pending w a) c = false) :
    lexemes w (a ++ b) = lexemes w a ++ lexemes [] b := by
  induction a generalizing w with
  | nil =>
      cases b with
      | nil => simp [lexemes]
      | cons c rest =>
          have hc : joins w c = false := h c rest rfl
          have hnil : joins [] c = false := rfl
          simp [lexemes, hc, hnil]
  | cons c cs ih =>
      rw [List.cons_append, lexemes, lexemes]
      by_cases hc : joins w c
      · rw [if_pos hc, if_pos hc]
        exact ih (by simpa only [pending, if_pos hc] using h)
      · rw [if_neg hc, if_neg hc, List.append_assoc]
        rw [ih (by simpa only [pending, if_neg hc] using h)]

theorem pending_append (a b w : List Char) :
    pending w (a ++ b) = pending (pending w a) b := by
  induction a generalizing w with
  | nil => rfl
  | cons c cs ih => exact ih _

/-- Words are not cut. -/
theorem lexemes_of_all {c : Char} (hc : isWordChar c = true) {w cs : List Char}
    (h : cs.all isWordChar = true) :
    lexemes (c :: w) cs = [c :: w ++ cs] ∧ pending (c :: w) cs = c :: w ++ cs := by
  have hstar : c ≠ '*' := by rintro rfl; exact absurd hc (by decide)
  induction cs generalizing w with
  | nil =>
      have hplain : isMark c = false ∧ Text.isBlank c = false := by simpa [isWordChar] using hc
      simp [lexemes, pending, hplain.2]
  | cons d cs ih =>
      obtain ⟨hd, hcs⟩ := Bool.and_eq_true_iff.1 (List.all_cons ▸ h)
      have hjoins : joins (c :: w) d = true := by simp [joins, hstar, hc, hd]
      rw [lexemes, pending, if_pos hjoins, if_pos hjoins, List.cons_append]
      obtain ⟨hlexemes, hpending⟩ := ih (w := w ++ [d]) hcs
      simp [hlexemes, hpending]

theorem isWordChar_of_isDigit {c : Char} (h : c.isDigit = true) : isWordChar c = true := by
  have hmark : isMark c = false := by
    rw [isMark, Bool.eq_false_iff]
    intro hc
    have hdigit : ['+', '-', '*', '/', '(', ')', '[', ']', ','].any Char.isDigit = true :=
      List.any_eq_true.2 ⟨c, List.elem_iff.1 hc, h⟩
    exact absurd hdigit (by decide)
  have hblank : Text.isBlank c = false := by
    have hle : 48 ≤ c.toNat ∧ c.toNat ≤ 57 := by
      simpa [Char.isDigit, UInt32.le_iff_toNat_le] using h
    simp only [Text.isBlank, Bool.or_eq_false_iff, Bool.and_eq_false_imp, decide_eq_true_eq,
      decide_eq_false_iff_not, beq_eq_false_iff_ne]
    omega
  rw [isWordChar, hmark, hblank]
  rfl

theorem tokens?_of_all_isDigit {ds : List Char} (h : ds.all Char.isDigit = true) (hne : ds ≠ []) :
    tokens? ds = some [.number (Decimal.digitsValue ds) 0] := by
  match ds with
  | [] => exact absurd rfl hne
  | c :: cs =>
      obtain ⟨hc, hcs⟩ := Bool.and_eq_true_iff.1 (List.all_cons ▸ h)
      have hwords : cs.all isWordChar = true :=
        List.all_eq_true.2 fun d hd => isWordChar_of_isDigit (List.all_eq_true.1 hcs d hd)
      have hnil : joins [] c = false := rfl
      have hnumber : startsNumber c = true := by simp [startsNumber, hc]
      obtain ⟨hlexemes, -⟩ := lexemes_of_all (isWordChar_of_isDigit hc) (w := []) hwords
      rw [tokens?, lexemes, hnil]
      simp [hlexemes, token?, hnumber, Decimal.exactValue?_of_all h hne]

theorem tokens?_append {a b : List Char} {ts us : List Token} (ha : tokens? a = some ts)
    (hb : tokens? b = some us) (h : ∀ c rest, b = c :: rest → joins (pending [] a) c = false) :
    tokens? (a ++ b) = some (ts ++ us) := by
  rw [tokens?] at ha hb ⊢
  rw [lexemes_append a h, List.mapM_append, ha, hb]
  rfl

/-- No lexeme goes on with a blank. -/
theorem joins_of_isBlank (w : List Char) {c : Char} (h : Text.isBlank c = true) :
    joins w c = false := by
  have hne : c ≠ '*' ∧ c ≠ '+' ∧ c ≠ '-' := by
    refine ⟨?_, ?_, ?_⟩ <;> (rintro rfl; exact absurd h (by decide))
  cases w with
  | nil => rfl
  | cons first more => simp [joins, isWordChar, h, hne]

/-- Nothing goes on from a blank, or from a mark that is no star. -/
theorem joins_singleton {c : Char} (h : isWordChar c = false) (hstar : c ≠ '*') (d : Char) :
    joins [c] d = false := by
  simp [joins, h, hstar]

theorem isWordChar_of_isBlank {c : Char} (h : Text.isBlank c = true) : isWordChar c = false := by
  simp [isWordChar, h]

theorem tokens?_cons_of_isBlank {c : Char} (h : Text.isBlank c = true) (cs : List Char) :
    tokens? (c :: cs) = tokens? cs := by
  have hstar : c ≠ '*' := by rintro rfl; exact absurd h (by decide)
  have hlexemes : lexemes [c] cs = lexemes [] cs := by
    cases cs with
    | nil => simp [lexemes, h]
    | cons d ds =>
        have hnil : joins [] d = false := rfl
        simp [lexemes, h, joins_singleton (isWordChar_of_isBlank h) hstar, hnil]
  have hnil : joins [] c = false := rfl
  rw [tokens?, lexemes, hnil, hlexemes]
  rfl

/-- Blanks around a text do not change its tokens. -/
theorem tokens?_of_isBlank {a b : List Char} (ha : a.all Text.isBlank = true)
    (hb : b.all Text.isBlank = true) {cs : List Char} {ts : List Token}
    (h : tokens? cs = some ts) : tokens? (a ++ cs ++ b) = some ts := by
  have hleft : ∀ {a : List Char}, a.all Text.isBlank = true →
      ∀ cs, tokens? (a ++ cs) = tokens? cs := by
    intro a ha cs
    induction a with
    | nil => rfl
    | cons c a ih =>
        obtain ⟨hc, ha⟩ := Bool.and_eq_true_iff.1 (List.all_cons ▸ ha)
        rw [List.cons_append, tokens?_cons_of_isBlank hc, ih ha]
  have hright : tokens? b = some [] := by
    rw [← List.append_nil b, hleft hb]
    rfl
  rw [List.append_assoc, hleft ha, ← List.append_nil ts]
  refine tokens?_append h hright fun c rest hc => joins_of_isBlank _ ?_
  exact List.all_eq_true.1 hb c (hc ▸ List.mem_cons_self)

theorem exists_lexemes_eq (w cs : List Char) :
    ∃ ls, lexemes w cs = ls ++ if (pending w cs).all Text.isBlank then [] else [pending w cs] := by
  induction cs generalizing w with
  | nil => exact ⟨[], rfl⟩
  | cons c cs ih =>
      rw [lexemes, pending]
      split
      · exact ih _
      · obtain ⟨ls, hls⟩ := ih [c]
        exact ⟨_, by rw [hls, ← List.append_assoc]⟩

theorem exists_lexemes_eq_cons {c : Char} (hc : Text.isBlank c = false) (more cs : List Char) :
    ∃ rest ls, lexemes (c :: more) cs = (c :: rest) :: ls := by
  induction cs generalizing more with
  | nil => exact ⟨more, [], by simp [lexemes, hc]⟩
  | cons d cs ih =>
      rw [lexemes]
      split
      · exact ih (more ++ [d])
      · exact ⟨more, _, by simp [hc]; rfl⟩

/-- A text that begins with a star begins with a product or power. -/
theorem head?_of_tokens?_star {cs : List Char} {ts : List Token}
    (h : tokens? ('*' :: cs) = some ts) :
    ts.head? = some (.op .mul) ∨ ts.head? = some (.op .pow) := by
  have hnil : joins [] '*' = false := rfl
  obtain ⟨rest, ls, hls⟩ := exists_lexemes_eq_cons (c := '*') (by decide) [] cs
  rw [tokens?, lexemes, hnil] at h
  simp only [List.all_nil, if_true, Bool.false_eq_true, if_false, List.nil_append, hls,
    List.mapM_cons, Option.bind_eq_bind, Option.bind_eq_some_iff] at h
  obtain ⟨t, ht, us, -, hts⟩ := h
  have hsymbol : symbol? ('*' :: rest) = some t := ht
  cases hts
  unfold symbol? at hsymbol
  split at hsymbol <;> simp_all

/-- The last token of a text is that of its last lexeme. -/
theorem token?_pending {s : List Char} {ts : List Token} {t : Token}
    (h : tokens? s = some (ts ++ [t])) (hblank : ¬(pending [] s).all Text.isBlank = true) :
    token? (pending [] s) = some t := by
  obtain ⟨ls, hls⟩ := exists_lexemes_eq [] s
  rw [tokens?, hls, if_neg hblank] at h
  simp only [List.mapM_append, List.mapM_cons, List.mapM_nil, Option.bind_eq_bind,
    Option.bind_eq_some_iff] at h
  obtain ⟨us, -, vs, ⟨t', ht', ws, hws, hvs⟩, h⟩ := h
  cases hws
  cases hvs
  obtain ⟨-, ht⟩ := List.append_inj' (Option.some_inj.1 h) rfl
  cases ht
  exact ht'

end Cutting

/-- A text has tokens, and both before and after it marks are lexemes of their own. -/
structure Spells (s : List Char) (ts : List Token) : Prop where
  tokens : tokens? s = some ts
  head : ∃ c rest, s = c :: rest ∧ c ≠ '*'
  closed : ∀ c, isMark c = true → joins (pending [] s) c = false

namespace Spells

variable {a b s : List Char} {ts us : List Token}

theorem append (ha : tokens? a = some ts) (hhead : ∃ c rest, a = c :: rest ∧ c ≠ '*')
    (hb : Spells b us) (h : ∀ c rest, b = c :: rest → joins (pending [] a) c = false) :
    Spells (a ++ b) (ts ++ us) where
  tokens := tokens?_append ha hb.tokens h
  head := by
    obtain ⟨c, rest, rfl, hc⟩ := hhead
    exact ⟨c, rest ++ b, rfl, hc⟩
  closed := by
    intro c hc
    obtain ⟨d, rest, rfl, -⟩ := hb.head
    have hd : joins (pending [] a) d = false := h d rest rfl
    have hnil : joins [] d = false := rfl
    have hclosed := hb.closed c hc
    simp only [pending, hnil] at hclosed
    simpa [pending_append, pending, hd] using hclosed

/-- A mark that is no star stands for itself. -/
theorem mark {c : Char} {t : Token} (h : tokens? [c] = some [t]) (hc : isWordChar c = false)
    (hstar : c ≠ '*') : Spells [c] [t] where
  tokens := h
  head := ⟨c, [], rfl, hstar⟩
  closed := fun d _ => joins_singleton hc hstar d

theorem append_mark (ha : Spells a ts) {c : Char} {t : Token} (h : tokens? [c] = some [t])
    (hc : isMark c = true) (hstar : c ≠ '*') : Spells (a ++ [c]) (ts ++ [t]) := by
  have hword : isWordChar c = false := by simp [isWordChar, hc]
  refine append ha.tokens ha.head (mark h hword hstar) ?_
  rintro _ _ ⟨⟩
  exact ha.closed c hc

theorem mark_append (hb : Spells b us) {c : Char} {t : Token} (h : tokens? [c] = some [t])
    (hc : isMark c = true) (hstar : c ≠ '*') : Spells (c :: b) (t :: us) := by
  have hword : isWordChar c = false := by simp [isWordChar, hc]
  exact append h ⟨c, [], rfl, hstar⟩ hb fun d _ _ => joins_singleton hword hstar d

/-- Two texts with a lexeme between them that goes on at most with a star. -/
theorem around (ha : Spells a ts) (hb : Spells b us) {c : Char} {o : List Char} {t : Token}
    (htokens : tokens? (c :: o) = some [t]) (hc : isMark c = true)
    (hpending : pending [c] o = c :: o) (ho : ∀ d, d ≠ '*' → joins (c :: o) d = false) :
    Spells (a ++ c :: o ++ b) (ts ++ t :: us) := by
  have hclosed : joins (pending [] a) c = false := ha.closed c hc
  have hleft : tokens? (a ++ c :: o) = some (ts ++ [t]) :=
    tokens?_append ha.tokens htokens (by rintro _ _ ⟨⟩; exact hclosed)
  have hhead : ∃ d rest, a ++ c :: o = d :: rest ∧ d ≠ '*' := by
    obtain ⟨d, rest, rfl, hd⟩ := ha.head
    exact ⟨d, rest ++ c :: o, rfl, hd⟩
  rw [List.append_cons ts]
  refine append hleft hhead hb ?_
  obtain ⟨d, rest, rfl, hd⟩ := hb.head
  rintro _ _ ⟨⟩
  rw [pending_append, pending, hclosed]
  simpa [hpending] using ho d hd

theorem join (ha : Spells a ts) (hb : Spells b us) {c : Char} {t : Token}
    (h : tokens? [c] = some [t]) (hc : isMark c = true) (hstar : c ≠ '*') :
    Spells (a ++ c :: b) (ts ++ t :: us) := by
  have hword : isWordChar c = false := by simp [isWordChar, hc]
  simpa using ha.around hb h hc rfl fun d _ => joins_singleton hword hstar d

theorem binary (ha : Spells a ts) (hb : Spells b us) (op : ArithOp) :
    Spells (a ++ op.symbol.toList ++ b) (ts ++ .op op :: us) := by
  have hstar : ∀ o d, d ≠ '*' → joins ('*' :: o) d = false := by
    intro o d hd
    simp [joins, hd]
  rw [List.append_assoc]
  cases op with
  | add => exact ha.join hb (c := '+') rfl rfl (by decide)
  | sub => exact ha.join hb (c := '-') rfl rfl (by decide)
  | div => exact ha.join hb (c := '/') rfl rfl (by decide)
  | mul => exact List.append_assoc .. ▸ ha.around hb (c := '*') (o := []) rfl rfl rfl (hstar _)
  | pow => exact List.append_assoc .. ▸ ha.around hb (c := '*') (o := ['*']) rfl rfl rfl (hstar _)

theorem name {n : String} (h : isName n = true) : Spells n.toList [.name n] := by
  obtain ⟨c, cs, hn⟩ : ∃ c cs, n.toList = c :: cs := by
    cases hn : n.toList with
    | nil => simp [isName, hn] at h
    | cons c cs => exact ⟨c, cs, rfl⟩
  simp only [isName, hn, Bool.and_eq_true, Bool.not_eq_true'] at h
  obtain ⟨⟨hc, hnumber⟩, hcs⟩ := h
  obtain ⟨hlexemes, hpending⟩ := lexemes_of_all hc (w := []) hcs
  have hnil : joins [] c = false := rfl
  have hstar : c ≠ '*' := by rintro rfl; exact absurd hc (by decide)
  rw [hn]
  refine ⟨?_, ⟨c, cs, rfl, hstar⟩, fun d hd => ?_⟩
  · have hname : String.ofList (c :: cs) = n := by rw [← hn, String.ofList_toList]
    rw [tokens?, lexemes, hnil]
    simp only [hlexemes, List.all_nil, if_true, Bool.false_eq_true, if_false, List.nil_append,
      List.singleton_append, List.mapM_cons, List.mapM_nil, token?, hnumber, hc, hname]
    rfl
  · rw [pending, hnil]
    simp [hpending, joins, hstar, isWordChar, hd, hnumber]

theorem exactValue?_of_token? {c : Char} {cs : List Char} {m : Nat} {e : Int}
    (h : token? (c :: cs) = some (.number m e)) :
    startsNumber c = true ∧ Decimal.exactValue? (c :: cs) = some (m, e) := by
  rw [token?] at h
  by_cases hc : startsNumber c = true
  · rw [if_pos hc] at h
    obtain ⟨x, hx, hnumber⟩ := Option.map_eq_some_iff.1 h
    cases hnumber
    exact ⟨hc, hx⟩
  · rw [if_neg hc] at h
    split at h
    · cases h
    · unfold symbol? at h
      split at h <;> cases h

/-- A text that ends in a number. -/
theorem number (ts : List Token) {m : Nat} {e : Int}
    (h : tokens? s = some (ts ++ [Token.number m e]))
    (hmul : (ts ++ [Token.number m e]).head? ≠ some (.op .mul))
    (hpow : (ts ++ [Token.number m e]).head? ≠ some (.op .pow)) :
    Spells s (ts ++ [Token.number m e]) := by
  refine ⟨h, ?_, ?_⟩
  · match s with
    | [] => simp [tokens?, lexemes] at h
    | c :: cs =>
        refine ⟨c, cs, rfl, ?_⟩
        rintro rfl
        exact (head?_of_tokens?_star h).elim hmul hpow
  · intro c hc
    have hword : isWordChar c = false := by simp [isWordChar, hc]
    match hpending : pending [] s with
    | [] => rfl
    | d :: more =>
        by_cases hblank : (pending [] s).all Text.isBlank = true
        · rw [hpending, List.all_cons, Bool.and_eq_true] at hblank
          have hd : d ≠ '*' := by rintro rfl; exact absurd hblank.1 (by decide)
          simp [joins, hd, isWordChar_of_isBlank hblank.1]
        · obtain ⟨hd, hexact⟩ := exactValue?_of_token? (hpending ▸ token?_pending h hblank)
          have hstar : d ≠ '*' := by rintro rfl; exact absurd hd (by decide)
          have hlast := Decimal.complete_of_exactValue? hexact ((d :: more).getLast?.getD d)
            (by simp [List.getLast?_cons])
          simp [joins, hstar, hword, hlast]

end Spells

end Arith

end StatContract
