import Mathlib.Data.List.Forall2
import StatContract.Proofs.Spec.Words
import StatContract.Spec.Nodes

/-!
# Reading specification text

A reader of specification text: it goes through the tokens once and keeps a stack of what it is
inside of. Brackets are matched by their frames, and so are commas, blanks before a bracket and the
word `in`, each of which has several uses. Negations, binders, relations and ranges have no closing
sign. They end where the last phrase inside of them ends, but only the next sign shows that this
phrase does not go on, so they are left when that sign has been read (`settle`). What follows a
phrase then completes what the phrase stands in (`Frame.shut`) or leads on into something else
(`turn?`).

A text *is read as* a term, clause or range if the reader takes it for that phrase whatever it is
inside of and whatever follows. For each form of phrase there is a lemma that its text is read as
the phrase if the texts of its parts are. The three forms of relations share one lemma, and so do
statistics over trials and over items.
-/

namespace StatContract.SpecText

/-- How two terms make a clause. -/
inductive Relation where
  | membership
  | approx
  | compare (op : CmpOp)

def Relation.clause (lhs : Term) : Relation → Term → Clause
  | membership, rhs => .membership .dummy lhs rhs
  | approx, rhs => .approx .dummy lhs rhs
  | compare op, rhs => .compare .dummy lhs op rhs

/-- What terms are listed for. -/
inductive Listing where
  | tuple
  | call (function : String)

def Listing.term : Listing → List Term → Term
  | tuple, ts => .tuple {} ts
  | call f, ts => .call {} f ts

/-- What a statistic is taken over. -/
inductive Population where
  | trials (t : Trials)
  | items (ranges : List Range)

/-- The statistic with a body. -/
def Statistic.term? : Statistic → Population → Node → Option Term
  | probability, .trials t, .clause c => some (.probability {} t c)
  | probability, .items rs, .clause c => some (.probabilityOverItems {} rs c)
  | expectation, .trials t, .term b => some (.expectation {} t b)
  | expectation, .items rs, .term b => some (.expectationOverItems {} rs b)
  | _, _, _ => none

/-- What ranges are listed for: the clause for all of them, or a statistic over items. -/
inductive Header where
  | forAll
  | statistic (s : Statistic)

/-- What a reader is inside of. -/
inductive Frame where
  | not
  | letValue (name : String)
  | letBody (name : String) (value : Term)
  | forAllBody (ranges : List Range)
  /-- The right side of a relation. -/
  | right (lhs : Term) (r : Relation)
  /-- The collection of a range, as it is or inside of the brackets of a mode. -/
  | collection (var : String)
  | modeCollection (var : String) (m : RangeMode)
  /-- A list of ranges, where one of them is being read. -/
  | ranges (h : Header) (done : List Range)
  | body (s : Statistic) (p : Population)
  | key (collection : Term)
  /-- Brackets around terms. An opening bracket is taken for that of a tuple until an operator
  shows that it is not. -/
  | listing (l : Listing) (done : List Term)
  | size
  /-- The second operand in brackets. -/
  | operand (lhs : Term) (op : ArithOp)
  | conjunct (lhs : Clause) (op : LogicOp)

/-- The frame inside of which the text goes on after the ranges of a header. -/
def Header.frame : Header → List Range → Frame
  | forAll, rs => .forAllBody rs
  | statistic s, rs => .body s (.items rs)

/-- The phrase that ends where the phrase inside ends, for frames without a closing sign. -/
def Frame.close : Frame → Node → Option Node
  | not, .clause c => some (.clause (.not .dummy c))
  | letBody n v, .clause c => some (.clause (.letIn .dummy n v c))
  | forAllBody rs, .clause c => some (.clause (.forAll .dummy rs c))
  | right lhs r, .term rhs => some (.clause (r.clause lhs rhs))
  | collection v, .term c => some (.range (.mk .dummy v c .elements))
  | _, _ => none

/-- The phrase that the closing sign after the phrase inside completes. -/
def Frame.shut : Frame → Token → Node → Option Node
  | listing l done, .closing, .term t => some (.term (l.term (done ++ [t])))
  | size, .closing, .term t => some (.term (.sizeOf {} t))
  | operand lhs op, .closing, .term rhs => some (.term (.binary {} lhs op rhs))
  | conjunct lhs op, .closing, .clause rhs => some (.clause (.logic .dummy lhs op rhs))
  | modeCollection v m, .closing, .term c => some (.range (.mk .dummy v c m))
  | key c, .itemClosing, .term t => some (.term (.lookup {} c t))
  | body s p, .itemClosing, q => (s.term? p q).map .term
  | _, _, _ => none

/-- Leaves all frames that end with the phrase. -/
def settle : List Frame → Node → List Frame × Node
  | [], p => ([], p)
  | f :: k, p =>
    match f.close p with
    | some q => settle k q
    | none => (f :: k, p)

/-- The frames inside of which the text goes on after a phrase and a word between blanks. -/
def turn? : Token → List Frame → Node → Option (List Frame)
  | .isIn, .letValue n :: k, .term t => some (.letBody n t :: k)
  | .isIn, k, .term t => some (.right t .membership :: k)
  | .tilde, k, .term t => some (.right t .approx :: k)
  | .compare op, k, .term t => some (.right t (.compare op) :: k)
  | .arith op, .listing .tuple [] :: k, .term t => some (.operand t op :: k)
  | .logic op, .listing .tuple [] :: k, .clause c => some (.conjunct c op :: k)
  | .colon, .ranges .forAll done :: k, .range r => some (.forAllBody (done ++ [r]) :: k)
  | _, _, _ => none

mutual

/-- Reads on where a phrase has to begin. -/
def start : List Frame → List Token → Option Node
  | k, .literal v :: ts => next k (.term (.constant {} v)) ts
  | k, .name n :: ts => next k (.term (.identifier {} n)) ts
  | k, .opening :: ts => start (.listing .tuple [] :: k) ts
  | .listing l done :: k, .closing :: ts => next k (.term (l.term done)) ts
  | k, .size :: .opening :: ts => start (.size :: k) ts
  | .collection v :: k, .mode m :: .opening :: ts => start (.modeCollection v m :: k) ts
  | k, .not :: .gap :: ts => start (.not :: k) ts
  | k, .letIn :: .gap :: .name n :: .gap :: .equals :: .gap :: ts => start (.letValue n :: k) ts
  | k, .forAll :: .gap :: ts => header .forAll [] k ts
  | k, .statistic s :: .gap :: .over :: .gap :: ts => header (.statistic s) [] k ts
  | _, _ => none

/-- Reads on where a range has to begin, or where the ranges end. -/
def header : Header → List Range → List Frame → List Token → Option Node
  | h, done, k, .name v :: .gap :: .isIn :: .gap :: ts =>
    start (.collection v :: .ranges h done :: k) ts
  | .statistic s, _, k, .trials t :: .gap :: .itemOpening :: ts =>
    start (.body s (.trials t) :: k) ts
  | .statistic s, done, k, .gap :: .itemOpening :: ts => start (.body s (.items done) :: k) ts
  | .forAll, done, k, .gap :: .colon :: .gap :: ts => start (.forAllBody done :: k) ts
  | _, _, _, _ => none

/-- Reads on after a phrase. -/
def next : List Frame → Node → List Token → Option Node
  | k, p, [] =>
    match settle k p with
    | ([], q) => some q
    | _ => none
  -- Only here the phrase goes on, so nothing that it stands in has come to its end.
  | k, p, .opening :: ts =>
    match p with
    | .term (.identifier _ f) => start (.listing (.call f) [] :: k) ts
    | _ => none
  | k, p, .itemOpening :: ts =>
    match p with
    | .term t => start (.key t :: k) ts
    | _ => none
  | k, p, .comma :: .gap :: ts =>
    match settle k p with
    | (.listing l done :: k, .term t) => start (.listing l (done ++ [t]) :: k) ts
    | (.ranges h done :: k, .range r) => header h (done ++ [r]) k ts
    | _ => none
  | k, p, .gap :: .itemOpening :: ts =>
    match settle k p with
    | (.ranges (.statistic s) done :: k, .range r) =>
      start (.body s (.items (done ++ [r])) :: k) ts
    | _ => none
  | k, p, .gap :: w :: .gap :: ts =>
    match turn? w (settle k p).1 (settle k p).2 with
    | some k => start k ts
    | none => none
  | k, p, t :: ts =>
    match settle k p with
    | (f :: k, p) =>
      match f.shut t p with
      | some q => next k q ts
      | none => none
    | _ => none

end

/-- The phrase that a text is. -/
def read? (s : String) : Option Node := start [] (tokens s)

section Rules

variable {k : List Frame} {f : Frame} {p q : Node} {ts : List Token}

theorem start_literal (v : String) :
    start k (.literal v :: ts) = next k (.term (.constant {} v)) ts := rfl

theorem start_name (n : String) :
    start k (.name n :: ts) = next k (.term (.identifier {} n)) ts := rfl

theorem start_opening : start k (.opening :: ts) = start (.listing .tuple [] :: k) ts := rfl

theorem start_closing (l : Listing) (done : List Term) :
    start (.listing l done :: k) (.closing :: ts) = next k (.term (l.term done)) ts := rfl

theorem start_size : start k (.size :: .opening :: ts) = start (.size :: k) ts := rfl

theorem start_mode (v : String) (m : RangeMode) :
    start (.collection v :: k) (.mode m :: .opening :: ts) = start (.modeCollection v m :: k) ts :=
  rfl

theorem start_not : start k (.not :: .gap :: ts) = start (.not :: k) ts := rfl

theorem start_letIn (n : String) :
    start k (.letIn :: .gap :: .name n :: .gap :: .equals :: .gap :: ts) =
      start (.letValue n :: k) ts := rfl

theorem start_forAll : start k (.forAll :: .gap :: ts) = header .forAll [] k ts := rfl

theorem start_statistic (s : Statistic) :
    start k (.statistic s :: .gap :: .over :: .gap :: ts) = header (.statistic s) [] k ts := rfl

variable {h : Header} {done : List Range}

theorem header_name (v : String) : header h done k (.name v :: .gap :: .isIn :: .gap :: ts) =
    start (.collection v :: .ranges h done :: k) ts := rfl

theorem header_trials (s : Statistic) (t : Trials) :
    header (.statistic s) done k (.trials t :: .gap :: .itemOpening :: ts) =
      start (.body s (.trials t) :: k) ts := rfl

theorem header_bodyOpening (s : Statistic) :
    header (.statistic s) done k (.gap :: .itemOpening :: ts) =
      start (.body s (.items done) :: k) ts := rfl

theorem header_colon :
    header .forAll done k (.gap :: .colon :: .gap :: ts) = start (.forAllBody done :: k) ts := rfl

theorem next_itemOpening (t : Term) :
    next k (.term t) (.itemOpening :: ts) = start (.key t :: k) ts := rfl

theorem next_opening (n : String) : next k (.term (.identifier {} n)) (.opening :: ts) =
    start (.listing (.call n) [] :: k) ts := rfl

theorem next_comma_listing (l : Listing) (terms : List Term) (t : Term) :
    next (.listing l terms :: k) (.term t) (.comma :: .gap :: ts) =
      start (.listing l (terms ++ [t]) :: k) ts := rfl

theorem next_comma_ranges (r : Range) :
    next (.ranges h done :: k) (.range r) (.comma :: .gap :: ts) =
      header h (done ++ [r]) k ts := rfl

theorem next_bodyOpening (s : Statistic) (r : Range) :
    next (.ranges (.statistic s) done :: k) (.range r) (.gap :: .itemOpening :: ts) =
      start (.body s (.items (done ++ [r])) :: k) ts := rfl

/-- A closing sign completes the phrase that it belongs to. -/
theorem next_shut {t : Token} (hclose : f.close p = none) (hshut : f.shut t p = some q) :
    next (f :: k) p (t :: ts) = next k q ts := by
  have ht : t = .closing ∨ t = .itemClosing := by
    unfold Frame.shut at hshut
    split at hshut <;> first | exact .inl rfl | exact .inr rfl | cases hshut
  have hsettle : settle (f :: k) p = (f :: k, p) := by rw [settle, hclose]
  rcases ht with rfl | rfl
  · simp [next, hsettle, hshut]
  · simp [next, hsettle, hshut]

/-- A word between blanks leads into the frames that it stands for. -/
theorem next_turn {w : Token} {k' : List Frame} (hsettle : settle k p = (k, p))
    (hturn : turn? w k p = some k') : next k p (.gap :: w :: .gap :: ts) = start k' ts := by
  have hw : w ≠ .itemOpening := by
    rintro rfl
    cases hturn
  rw [next, hsettle]
  · simp only [hturn]
  · exact hw

end Rules

/-- The tokens go on in the same way after phrases that settle alike. -/
theorem next_congr {k k' : List Frame} {p p' : Node} (h : settle k p = settle k' p')
    {s : String} (hs : Ends s) : next k p (tokens s) = next k' p' (tokens s) := by
  have hends := hs.head?_tokens
  generalize tokens s = ts at hends
  rw [next.eq_def, next.eq_def]
  -- Only the opening brackets look at the phrase itself, and a text that ends has none in front.
  split <;> simp_all [Token.ends]

theorem next_close {f : Frame} {k : List Frame} {p q : Node} (h : f.close p = some q)
    {s : String} (hs : Ends s) : next (f :: k) p (tokens s) = next k q (tokens s) := by
  refine next_congr ?_ hs
  rw [settle, h]

/-- Whether a clause is due inside of the frames. -/
def takesClause : List Frame → Bool
  | [] | .not :: _ | .letBody _ _ :: _ | .forAllBody _ :: _ | .body _ _ :: _
  | .listing .tuple [] :: _ | .conjunct _ _ :: _ => true
  | _ => false

/-- How a relation is written between its terms. -/
def Relation.text : Relation → String
  | membership => " in "
  | approx => " ~ "
  | compare op => " " ++ op.symbol ++ " "

def Relation.token : Relation → Token
  | membership => .isIn
  | approx => .tilde
  | compare op => .compare op

/-- What is written after ranges. -/
def Header.separator : Header → String
  | forAll => " : "
  | statistic _ => " ["

/-- The text is read as the term, whatever it stands in and whatever follows. -/
def ReadsTerm (s : String) (t : Term) : Prop :=
  ∀ k rest, Apart rest → start k (tokens (s ++ rest)) = next k (.term t) (tokens rest)

/-- The text is read as the clause wherever a clause is due. -/
def ReadsClause (s : String) (c : Clause) : Prop :=
  ∀ k rest, takesClause k = true → Ends rest →
    start k (tokens (s ++ rest)) = next k (.clause c) (tokens rest)

/-- The text is read as the range in any header. -/
def ReadsRange (s : String) (r : Range) : Prop :=
  ∀ h done k rest, Ends rest →
    header h done k (tokens (s ++ rest)) = next (.ranges h done :: k) (.range r) (tokens rest)

variable {a b n : String} {l r t : Term} {c d : Clause} {k : List Frame}

section Terms

theorem ReadsTerm.constant {v : String} (hv : isNumeral v = true) :
    ReadsTerm v (.constant {} v) := by
  intro k rest hrest
  rw [tokens_numeral hv hrest, start_literal]

theorem ReadsTerm.identifier (hn : isName n = true) : ReadsTerm n (.identifier {} n) := by
  intro k rest hrest
  rw [tokens_name hn hrest, start_name]

theorem ReadsTerm.lookup (ha : ReadsTerm a l) (hb : ReadsTerm b r) :
    ReadsTerm (a ++ "[" ++ b ++ "]") (.lookup {} l r) := by
  intro k rest _
  simp only [String.append_assoc]
  rw [ha _ _ (apart_append (c := '[') rfl rfl _), tokens_itemOpening, next_itemOpening,
    hb _ _ (apart_append (c := ']') rfl rfl _), tokens_itemClosing, next_shut rfl rfl]

theorem ReadsTerm.binary (ha : ReadsTerm a l) (hb : ReadsTerm b r) (op : ArithOp) :
    ReadsTerm ("(" ++ a ++ " " ++ op.symbol ++ " " ++ b ++ ")") (.binary {} l op r) := by
  intro k rest _
  simp only [String.append_assoc]
  rw [tokens_opening, start_opening, ha _ _ (apart_append (c := ' ') rfl rfl _), tokens_arith,
    next_turn rfl rfl, hb _ _ (apart_append (c := ')') rfl rfl _), tokens_closing,
    next_shut rfl rfl]

theorem ReadsTerm.sizeOf (ha : ReadsTerm a t) :
    ReadsTerm ("size(" ++ a ++ ")") (.sizeOf {} t) := by
  intro k rest _
  simp only [String.append_assoc]
  rw [tokens_size, start_size, ha _ _ (apart_append (c := ')') rfl rfl _), tokens_closing,
    next_shut rfl rfl]

/-- Listed terms are read one by one. -/
theorem start_listing {ss : List String} {ts : List Term} (h : List.Forall₂ ReadsTerm ss ts)
    (kind : Listing) (done : List Term) (k : List Frame) (rest : String) :
    start (.listing kind done :: k) (tokens (", ".intercalate ss ++ (")" ++ rest))) =
      next k (.term (kind.term (done ++ ts))) (tokens rest) := by
  induction h generalizing done with
  | nil =>
      rw [String.intercalate_nil, String.empty_append, tokens_closing, start_closing,
        List.append_nil]
  | cons hs hrest ih =>
      cases hrest with
      | nil =>
          rw [String.intercalate_singleton, hs _ _ (apart_append (c := ')') rfl rfl _),
            tokens_closing, next_shut rfl rfl]
      | cons hs' hrest =>
          rw [String.intercalate_cons_cons, String.append_assoc, String.append_assoc,
            hs _ _ (apart_append (c := ',') rfl rfl _), tokens_comma, next_comma_listing, ih,
            List.append_assoc, List.singleton_append]

theorem ReadsTerm.tuple {ss : List String} {ts : List Term} (h : List.Forall₂ ReadsTerm ss ts) :
    ReadsTerm ("(" ++ ", ".intercalate ss ++ ")") (.tuple {} ts) := by
  intro k rest _
  simp only [String.append_assoc]
  rw [tokens_opening, start_opening, start_listing h, Listing.term, List.nil_append]

theorem ReadsTerm.call (hn : isName n = true) {ss : List String} {ts : List Term}
    (h : List.Forall₂ ReadsTerm ss ts) :
    ReadsTerm (n ++ "(" ++ ", ".intercalate ss ++ ")") (.call {} n ts) := by
  intro k rest _
  simp only [String.append_assoc]
  rw [tokens_name hn (apart_append (c := '(') rfl rfl _), start_name, tokens_opening, next_opening,
    start_listing h, Listing.term, List.nil_append]

end Terms

section Ranges

theorem ReadsRange.elements (hn : isName n = true) (ha : ReadsTerm a t) :
    ReadsRange (n ++ " in " ++ a) (.mk .dummy n t .elements) := by
  intro h done k rest hrest
  simp only [String.append_assoc]
  rw [tokens_name hn (apart_append (c := ' ') rfl rfl _), tokens_in, header_name,
    ha _ _ hrest.apart, next_close rfl hrest]

/-- The collection of a range may stand in the brackets of a mode. -/
theorem ReadsRange.inMode {between : String} {m : RangeMode}
    (hbetween : ∀ s, tokens (between ++ s) =
      .gap :: .isIn :: .gap :: .mode m :: .opening :: tokens s)
    (hapart : ∀ s, Apart (between ++ s)) (hn : isName n = true) (ha : ReadsTerm a t) :
    ReadsRange (n ++ between ++ a ++ ")") (.mk .dummy n t m) := by
  intro h done k rest hrest
  simp only [String.append_assoc]
  rw [tokens_name hn (hapart _), hbetween, header_name, start_mode,
    ha _ _ (apart_append (c := ')') rfl rfl _), tokens_closing, next_shut rfl rfl]

theorem Header.ends_separator (h : Header) (rest : String) : Ends (h.separator ++ rest) := by
  cases h with
  | forAll => exact ends_append (a := " : ") (c := ' ') rfl rfl rest
  | statistic s => exact ends_append (a := " [") (c := ' ') rfl rfl rest

/-- Ranges are read one by one. -/
theorem header_ranges {ss : List String} {rs : List Range} (hrs : List.Forall₂ ReadsRange ss rs)
    (h : Header) (done : List Range) (k : List Frame) (rest : String) :
    header h done k (tokens (", ".intercalate ss ++ (h.separator ++ rest))) =
      start (h.frame (done ++ rs) :: k) (tokens rest) := by
  induction hrs generalizing done with
  | nil =>
      rw [String.intercalate_nil, String.empty_append, List.append_nil]
      cases h with
      | forAll => rw [Header.separator, tokens_colon, header_colon, Header.frame]
      | statistic s => rw [Header.separator, tokens_bodyOpening, header_bodyOpening, Header.frame]
  | cons hs hrest ih =>
      cases hrest with
      | nil =>
          rw [String.intercalate_singleton, hs _ _ _ _ (h.ends_separator rest)]
          cases h with
          | forAll => rw [Header.separator, tokens_colon, next_turn rfl rfl, Header.frame]
          | statistic s => rw [Header.separator, tokens_bodyOpening, next_bodyOpening, Header.frame]
      | cons hs' hrest =>
          rw [String.intercalate_cons_cons, String.append_assoc, String.append_assoc,
            hs _ _ _ _ (ends_append (c := ',') rfl rfl _), tokens_comma, next_comma_ranges, ih,
            List.append_assoc, List.singleton_append]

end Ranges

section Statistics

/-- The text is read as what a statistic is taken over. -/
def ReadsPopulation (stat : Statistic) (s : String) (p : Population) : Prop :=
  ∀ k rest, header (.statistic stat) [] k (tokens (s ++ (" [" ++ rest))) =
    start (.body stat p :: k) (tokens rest)

theorem readsPopulation_trials (stat : Statistic) (t : Trials) :
    ReadsPopulation stat t.text (.trials t) := by
  intro k rest
  rw [tokens_trials, header_trials]

theorem readsPopulation_items (stat : Statistic) {ss : List String} {rs : List Range}
    (h : List.Forall₂ ReadsRange ss rs) :
    ReadsPopulation stat (", ".intercalate ss) (.items rs) :=
  fun k rest => header_ranges h (.statistic stat) [] k rest

theorem ReadsTerm.probability {p : Population} (hp : ReadsPopulation .probability a p)
    (hb : ReadsClause b c) (ht : Statistic.term? .probability p (.clause c) = some t) :
    ReadsTerm ("Probability over " ++ a ++ " [" ++ b ++ "]") t := by
  intro k rest _
  have hshut : (Frame.body .probability p).shut .itemClosing (.clause c) = some (.term t) :=
    congrArg (Option.map Node.term) ht
  simp only [String.append_assoc]
  rw [tokens_probability, start_statistic, hp, hb _ _ rfl (ends_append (c := ']') rfl rfl _),
    tokens_itemClosing, next_shut rfl hshut]

theorem ReadsTerm.expectation {p : Population} (hp : ReadsPopulation .expectation a p)
    (hb : ReadsTerm b r) (ht : Statistic.term? .expectation p (.term r) = some t) :
    ReadsTerm ("Expectation over " ++ a ++ " [" ++ b ++ "]") t := by
  intro k rest _
  have hshut : (Frame.body .expectation p).shut .itemClosing (.term r) = some (.term t) :=
    congrArg (Option.map Node.term) ht
  simp only [String.append_assoc]
  rw [tokens_expectation, start_statistic, hp, hb _ _ (apart_append (c := ']') rfl rfl _),
    tokens_itemClosing, next_shut rfl hshut]

end Statistics

section Clauses

theorem tokens_relation (rel : Relation) (s : String) :
    tokens (rel.text ++ s) = .gap :: rel.token :: .gap :: tokens s := by
  cases rel with
  | membership => exact tokens_in s
  | approx => exact tokens_approx s
  | compare op =>
      rw [Relation.text, String.append_assoc, String.append_assoc]
      exact tokens_compare op s

/-- A term that stands where a clause is due is the left side of a relation. -/
theorem next_relation (hk : takesClause k = true) (t : Term) (rel : Relation) (s : String) :
    next k (.term t) (tokens (rel.text ++ s)) = start (.right t rel :: k) (tokens s) := by
  rw [tokens_relation]
  cases k with
  | nil => cases rel <;> rfl
  | cons f k => cases f <;> first | (cases rel <;> rfl) | cases hk

theorem Relation.apart_text (rel : Relation) (s : String) : Apart (rel.text ++ s) := by
  cases rel with
  | membership => exact apart_append (a := " in ") (c := ' ') rfl rfl s
  | approx => exact apart_append (a := " ~ ") (c := ' ') rfl rfl s
  | compare op =>
      rw [Relation.text, String.append_assoc, String.append_assoc]
      exact apart_append (c := ' ') rfl rfl _

theorem ReadsClause.relation (ha : ReadsTerm a l) (rel : Relation) (hb : ReadsTerm b r) :
    ReadsClause (a ++ rel.text ++ b) (rel.clause l r) := by
  intro k rest hk hrest
  rw [String.append_assoc, String.append_assoc, ha _ _ (rel.apart_text _), next_relation hk,
    hb _ _ hrest.apart, next_close rfl hrest]

theorem ReadsClause.not (hc : ReadsClause a c) : ReadsClause ("not " ++ a) (.not .dummy c) := by
  intro k rest _ hrest
  rw [String.append_assoc, tokens_not, start_not, hc _ _ rfl hrest, next_close rfl hrest]

theorem ReadsClause.letIn (hn : isName n = true) (ha : ReadsTerm a t) (hc : ReadsClause b c) :
    ReadsClause ("let " ++ n ++ " = " ++ a ++ " in " ++ b) (.letIn .dummy n t c) := by
  intro k rest _ hrest
  simp only [String.append_assoc]
  rw [tokens_letIn, tokens_name hn (apart_append (c := ' ') rfl rfl _), tokens_equals, start_letIn,
    ha _ _ (apart_append (c := ' ') rfl rfl _), tokens_in, next_turn rfl rfl, hc _ _ rfl hrest,
    next_close rfl hrest]

theorem ReadsClause.forAll {ss : List String} {rs : List Range}
    (hrs : List.Forall₂ ReadsRange ss rs) (hc : ReadsClause b c) :
    ReadsClause ("forall " ++ ", ".intercalate ss ++ " : " ++ b) (.forAll .dummy rs c) := by
  intro k rest _ hrest
  have hheader := header_ranges hrs .forAll [] k (b ++ rest)
  rw [Header.separator, Header.frame, List.nil_append] at hheader
  simp only [String.append_assoc]
  rw [tokens_forAll, start_forAll, hheader, hc _ _ rfl hrest, next_close rfl hrest]

theorem ReadsClause.logic (ha : ReadsClause a c) (hb : ReadsClause b d) (op : LogicOp) :
    ReadsClause ("(" ++ a ++ " " ++ op.symbol ++ " " ++ b ++ ")") (.logic .dummy c op d) := by
  intro k rest _ _
  simp only [String.append_assoc]
  rw [tokens_opening, start_opening, ha _ _ rfl (ends_append (c := ' ') rfl rfl _), tokens_logic,
    next_turn rfl rfl, hb _ _ rfl (ends_append (c := ')') rfl rfl _), tokens_closing,
    next_shut rfl rfl]

end Clauses

end StatContract.SpecText
