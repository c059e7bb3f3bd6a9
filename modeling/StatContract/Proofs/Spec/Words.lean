import StatContract.Proofs.Code.Lexeme

/-!
# Words of specification text

Specification text is cut at blanks, brackets and commas. Each of these signs is a token, blanks
too, since a bracket after a blank means something else than one right after a term. What stands
between two signs is a word: a numeral, one of the words and symbols that the language keeps for
itself, or a name.

Texts that are written one after the other are cut independently of each other if the first one
ends with a sign (`tokens_append`) or if it is a word and the second one begins with a sign
(`tokens_word`). The texts that stand between the parts of a phrase all end with a sign.
-/

namespace StatContract.SpecText

/-- What a statistic is about. -/
inductive Statistic where
  | probability | expectation
  deriving DecidableEq, Repr

/-- A piece of specification text. -/
inductive Token where
  | gap | opening | closing | itemOpening | itemClosing | comma
  | literal (v : String)
  | name (n : String)
  | forAll | letIn | isIn | not | size | over
  | mode (m : RangeMode)
  | statistic (s : Statistic)
  | trials (t : Trials)
  | logic (op : LogicOp)
  | compare (op : CmpOp)
  | arith (op : ArithOp)
  | equals | tilde | colon
  deriving DecidableEq, Repr

/-- The token of a sign. -/
def sign? : Char → Option Token
  | ' ' => some .gap
  | '(' => some .opening
  | ')' => some .closing
  | '[' => some .itemOpening
  | ']' => some .itemClosing
  | ',' => some .comma
  | _ => none

/-- The words that are no names. -/
def keywords : List (String × Token) :=
  [("forall", .forAll), ("let", .letIn), ("in", .isIn), ("not", .not), ("and", .logic .and),
   ("or", .logic .or), ("size", .size), ("uniques", .mode .uniqueElements),
   ("indices", .mode .indices), ("Probability", .statistic .probability),
   ("Expectation", .statistic .expectation), ("over", .over), ("inputs", .trials .inputs),
   ("runs", .trials .runs)]

/-- The symbols that stand between blanks, as words do. -/
def symbols : List (String × Token) :=
  [("=", .equals), ("~", .tilde), (":", .colon)]
    ++ CmpOp.all.map (fun op => (op.symbol, .compare op))
    ++ ArithOp.all.map (fun op => (op.symbol, .arith op))

/-- Whether a text is a single word. -/
def isWord (w : String) : Bool := !w.isEmpty && w.toList.all fun c => (sign? c).isNone

/-- Whether a text can be a literal: a word that begins like a number. -/
def isNumeral (v : String) : Bool := isWord v && v.toList.head?.any Arith.startsNumber

/-- Whether a text can be a name: a word that does not begin like a number and that the language
does not keep for itself. -/
def isName (n : String) : Bool :=
  isWord n && !n.toList.head?.any Arith.startsNumber && ((keywords ++ symbols).lookup n).isNone

/-- Whether a text is an alphanumeric identifier and no keyword. -/
def isIdentifier (n : String) : Bool :=
  !n.isEmpty && n.toList.all (fun c => c.isAlphanum || c = '_') &&
    !n.toList.head?.any Char.isDigit && (keywords.lookup n).isNone

/-- Whether a text consists of digits and points, as an unsigned decimal numeral does. -/
def isDecimal (v : String) : Bool := !v.isEmpty && v.toList.all fun c => c.isDigit || c = '.'

/-- The token of a word. -/
def ofWord (w : String) : Token :=
  if w.toList.head?.any Arith.startsNumber then .literal w
  else ((keywords ++ symbols).lookup w).getD (.name w)

/-- The token of the word that a sign or the end of the text completes, if there is one. -/
def flush (w : List Char) : List Token := if w.isEmpty then [] else [ofWord (String.ofList w)]

/-- The tokens that a text adds to a beginning of a word. -/
def cut : List Char → List Char → List Token
  | w, [] => flush w
  | w, c :: cs =>
    match sign? c with
    | some t => flush w ++ t :: cut [] cs
    | none => cut (w ++ [c]) cs

/-- The tokens of a text. -/
def tokens (s : String) : List Token := cut [] s.toList

/-- Whether a phrase cannot go on with a sign after it. With an opening bracket it may. -/
def Token.ends : Token → Bool
  | opening | itemOpening => false
  | _ => true

/-- A text begins with a sign, if with anything. -/
def Apart (s : String) : Prop := ∀ c ∈ s.toList.head?, (sign? c).isSome = true

/-- A text begins with a sign that ends what stands before it, if with anything. -/
def Ends (s : String) : Prop := ∀ c ∈ s.toList.head?, (sign? c).any Token.ends = true

section Classes

/-- Characters of a class without signs make a word. -/
theorem isWord_of_all {p : Char → Bool}
    (hp : [' ', '(', ')', '[', ']', ','].any p = false) {w : String} (hne : w ≠ "")
    (hall : w.toList.all p = true) : isWord w = true := by
  have hnone : ∀ c ∈ w.toList, sign? c = none := by
    intro c hc
    have hpc := List.all_eq_true.1 hall c hc
    unfold sign?
    split
    all_goals first | rfl | simp [hpc] at hp
  simpa [isWord, List.all_eq_true] using ⟨hne, hnone⟩

/-- An identifier is a name. -/
theorem isName_of_isIdentifier {n : String} (h : isIdentifier n = true) : isName n = true := by
  simp only [isIdentifier, Bool.and_eq_true, Bool.not_eq_true', Option.isNone_iff_eq_none] at h
  obtain ⟨⟨⟨hempty, hall⟩, hfirst⟩, hkey⟩ := h
  have hne : n ≠ "" := by simpa using hempty
  have hword : isWord n = true := isWord_of_all (by decide) hne hall
  have hstart : n.toList.head?.any Arith.startsNumber = false := by
    cases hlist : n.toList with
    | nil => rfl
    | cons c cs =>
        have hdigit : c.isDigit = false := by simpa [hlist] using hfirst
        have hpoint : c ≠ '.' := by
          rintro rfl
          rw [hlist] at hall
          simp at hall
        simp [Arith.startsNumber, hdigit, hpoint]
  have hsymbol : symbols.lookup n = none := by
    have hsymbols : ∀ p ∈ symbols,
        p.1.toList.all (fun c => c.isAlphanum || c = '_') = false := by decide
    refine List.lookup_eq_none_iff.2 fun p hp => ?_
    have hne : n ≠ p.1 := by
      rintro rfl
      rw [hsymbols p hp] at hall
      cases hall
    simpa using hne
  simp [isName, hword, hstart, List.lookup_append, hkey, hsymbol]

/-- A decimal numeral is a literal. -/
theorem isNumeral_of_isDecimal {v : String} (h : isDecimal v = true) : isNumeral v = true := by
  obtain ⟨hempty, hall⟩ := (Bool.and_eq_true _ _).mp h
  have hne : v ≠ "" := by simpa using hempty
  have hword : isWord v = true := isWord_of_all (by decide) hne hall
  have hstart : v.toList.head?.any Arith.startsNumber = true := by
    cases hlist : v.toList with
    | nil => exact absurd (by simpa using hlist) hne
    | cons c cs =>
        rw [hlist, List.all_cons, Bool.and_eq_true] at hall
        exact hall.1
  rw [isNumeral, hword, hstart]
  rfl

end Classes

section Cutting

theorem cut_sign {c : Char} {t : Token} (h : sign? c = some t) (w cs : List Char) :
    cut w (c :: cs) = flush w ++ t :: cut [] cs := by
  rw [cut, h]

theorem cut_word {u : List Char} (h : ∀ c ∈ u, sign? c = none) (w cs : List Char) :
    cut w (u ++ cs) = cut (w ++ u) cs := by
  induction u generalizing w with
  | nil => rw [List.nil_append, List.append_nil]
  | cons c u ih =>
      obtain ⟨hc, hu⟩ := List.forall_mem_cons.1 h
      rw [List.cons_append, cut, hc]
      simp only
      rw [ih hu, List.append_assoc, List.singleton_append]

/-- A text that ends with a sign is cut as if nothing followed. -/
theorem cut_append {c : Char} (hc : (sign? c).isSome = true) (a w cs : List Char) :
    cut w (a ++ c :: cs) = cut w (a ++ [c]) ++ cut [] cs := by
  obtain ⟨t, ht⟩ := Option.isSome_iff_exists.1 hc
  induction a generalizing w with
  | nil => simp [cut_sign ht, cut, flush]
  | cons d a ih =>
      rw [List.cons_append, List.cons_append, cut, cut]
      cases sign? d with
      | some u => simp [ih]
      | none => exact ih _

theorem tokens_append {a : String} {c : Char} (ha : a.toList.getLast? = some c)
    (hc : (sign? c).isSome = true) (s : String) : tokens (a ++ s) = tokens a ++ tokens s := by
  obtain ⟨as, has⟩ := List.getLast?_eq_some_iff.1 ha
  rw [tokens, tokens, tokens, String.toList_append, has, List.append_assoc]
  exact cut_append hc as [] s.toList

theorem tokens_word {w s : String} (hw : isWord w = true) (hs : Apart s) :
    tokens (w ++ s) = ofWord w :: tokens s := by
  simp only [isWord, Bool.and_eq_true, Bool.not_eq_true', List.all_eq_true,
    Option.isNone_iff_eq_none] at hw
  obtain ⟨hne, hplain⟩ := hw
  have hflush : flush w.toList = [ofWord w] := by
    have hlist : w.toList ≠ [] := by simpa using hne
    rw [flush, List.isEmpty_eq_false_iff.2 hlist, String.ofList_toList]
    rfl
  rw [tokens, tokens, String.toList_append, cut_word hplain, List.nil_append]
  cases hlist : s.toList with
  | nil => rw [cut, cut, hflush]; rfl
  | cons c cs =>
      obtain ⟨t, ht⟩ := Option.isSome_iff_exists.1 (hs c (by rw [hlist]; rfl))
      rw [cut_sign ht, cut_sign ht, hflush]
      rfl

theorem tokens_numeral {v s : String} (hv : isNumeral v = true) (hs : Apart s) :
    tokens (v ++ s) = .literal v :: tokens s := by
  obtain ⟨hword, hstart⟩ := Bool.and_eq_true_iff.1 hv
  rw [tokens_word hword hs, ofWord, if_pos hstart]

theorem tokens_name {n s : String} (hn : isName n = true) (hs : Apart s) :
    tokens (n ++ s) = .name n :: tokens s := by
  simp only [isName, Bool.and_eq_true, Bool.not_eq_true', Option.isNone_iff_eq_none] at hn
  obtain ⟨⟨hword, hstart⟩, hlookup⟩ := hn
  rw [tokens_word hword hs, ofWord, if_neg (by simp [hstart]), hlookup]
  rfl

end Cutting

section Starts

variable {a : String} {c : Char}

theorem apart_empty : Apart "" := by
  intro c hc
  cases hc

theorem ends_empty : Ends "" := by
  intro c hc
  cases hc

theorem apart_append (ha : a.toList.head? = some c) (hc : (sign? c).isSome = true) (s : String) :
    Apart (a ++ s) := by
  intro d hd
  rw [String.toList_append, List.head?_append, ha] at hd
  cases hd
  exact hc

theorem ends_append (ha : a.toList.head? = some c) (hc : (sign? c).any Token.ends = true)
    (s : String) : Ends (a ++ s) := by
  intro d hd
  rw [String.toList_append, List.head?_append, ha] at hd
  cases hd
  exact hc

theorem Ends.apart {s : String} (h : Ends s) : Apart s := by
  intro c hc
  obtain ⟨hsome, -⟩ := (Option.any_eq_true_iff_get _ _).1 (h c hc)
  exact hsome

theorem Ends.head?_tokens {s : String} (h : Ends s) : ∀ t ∈ (tokens s).head?, t.ends = true := by
  intro t ht
  cases hlist : s.toList with
  | nil =>
      rw [tokens, hlist] at ht
      cases ht
  | cons c cs =>
      have hends := h c (by rw [hlist]; rfl)
      cases hc : sign? c with
      | none =>
          rw [hc] at hends
          cases hends
      | some u =>
          rw [tokens, hlist, cut_sign hc] at ht
          cases ht
          rwa [hc] at hends

end Starts

section FixedTexts

theorem tokens_opening (s : String) : tokens ("(" ++ s) = .opening :: tokens s :=
  tokens_append (c := '(') rfl rfl s

theorem tokens_closing (s : String) : tokens (")" ++ s) = .closing :: tokens s :=
  tokens_append (c := ')') rfl rfl s

theorem tokens_itemOpening (s : String) : tokens ("[" ++ s) = .itemOpening :: tokens s :=
  tokens_append (c := '[') rfl rfl s

theorem tokens_itemClosing (s : String) : tokens ("]" ++ s) = .itemClosing :: tokens s :=
  tokens_append (c := ']') rfl rfl s

theorem tokens_bodyOpening (s : String) : tokens (" [" ++ s) = .gap :: .itemOpening :: tokens s :=
  tokens_append (c := '[') rfl rfl s

theorem tokens_comma (s : String) : tokens (", " ++ s) = .comma :: .gap :: tokens s :=
  tokens_append (c := ' ') rfl rfl s

theorem tokens_in (s : String) : tokens (" in " ++ s) = .gap :: .isIn :: .gap :: tokens s :=
  tokens_append (c := ' ') rfl rfl s

theorem tokens_approx (s : String) : tokens (" ~ " ++ s) = .gap :: .tilde :: .gap :: tokens s :=
  tokens_append (c := ' ') rfl rfl s

theorem tokens_equals (s : String) : tokens (" = " ++ s) = .gap :: .equals :: .gap :: tokens s :=
  tokens_append (c := ' ') rfl rfl s

theorem tokens_colon (s : String) : tokens (" : " ++ s) = .gap :: .colon :: .gap :: tokens s :=
  tokens_append (c := ' ') rfl rfl s

theorem tokens_forAll (s : String) : tokens ("forall " ++ s) = .forAll :: .gap :: tokens s :=
  tokens_append (c := ' ') rfl rfl s

theorem tokens_letIn (s : String) : tokens ("let " ++ s) = .letIn :: .gap :: tokens s :=
  tokens_append (c := ' ') rfl rfl s

theorem tokens_not (s : String) : tokens ("not " ++ s) = .not :: .gap :: tokens s :=
  tokens_append (c := ' ') rfl rfl s

theorem tokens_size (s : String) : tokens ("size(" ++ s) = .size :: .opening :: tokens s :=
  tokens_append (c := '(') rfl rfl s

theorem tokens_inUniques (s : String) : tokens (" in uniques(" ++ s) =
    .gap :: .isIn :: .gap :: .mode .uniqueElements :: .opening :: tokens s :=
  tokens_append (c := '(') rfl rfl s

theorem tokens_inIndices (s : String) : tokens (" in indices(" ++ s) =
    .gap :: .isIn :: .gap :: .mode .indices :: .opening :: tokens s :=
  tokens_append (c := '(') rfl rfl s

theorem tokens_probability (s : String) : tokens ("Probability over " ++ s) =
    .statistic .probability :: .gap :: .over :: .gap :: tokens s :=
  tokens_append (c := ' ') rfl rfl s

theorem tokens_expectation (s : String) : tokens ("Expectation over " ++ s) =
    .statistic .expectation :: .gap :: .over :: .gap :: tokens s :=
  tokens_append (c := ' ') rfl rfl s

theorem tokens_trials (t : Trials) (s : String) : tokens (t.text ++ (" [" ++ s)) =
    .trials t :: .gap :: .itemOpening :: tokens s := by
  rw [← String.append_assoc]
  cases t <;> exact tokens_append (c := '[') rfl rfl s

theorem tokens_compare (op : CmpOp) (s : String) :
    tokens (" " ++ (op.symbol ++ (" " ++ s))) = .gap :: .compare op :: .gap :: tokens s := by
  rw [← String.append_assoc, ← String.append_assoc]
  cases op <;> exact tokens_append (c := ' ') rfl rfl s

theorem tokens_arith (op : ArithOp) (s : String) :
    tokens (" " ++ (op.symbol ++ (" " ++ s))) = .gap :: .arith op :: .gap :: tokens s := by
  rw [← String.append_assoc, ← String.append_assoc]
  cases op <;> exact tokens_append (c := ' ') rfl rfl s

theorem tokens_logic (op : LogicOp) (s : String) :
    tokens (" " ++ (op.symbol ++ (" " ++ s))) = .gap :: .logic op :: .gap :: tokens s := by
  rw [← String.append_assoc, ← String.append_assoc]
  cases op <;> exact tokens_append (c := ' ') rfl rfl s

end FixedTexts

end StatContract.SpecText
