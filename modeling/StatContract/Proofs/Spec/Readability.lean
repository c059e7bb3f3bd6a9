import StatContract.Proofs.Spec.Phrases
import StatContract.Spec.Printer

/-!
# Specification text is unambiguous

Clauses and terms are quoted in messages and plans by their text. The text leaves out spans and
types, and apart from these (`Clause.bare`) nothing is lost: the text of a clause or term is read
as that clause or term (`Clause.reads_text`, `Term.reads_text`), so different ones have different
texts. All names and literals have to be legible, that is, words of their own that do not look like
something else (`SpecText.isName`, `SpecText.isNumeral`).
-/

namespace StatContract

mutual

/-- The clause without spans and types. -/
def Clause.bare : Clause → Clause
  | .forAll _ ranges body => .forAll .dummy (Range.bareOfAll ranges) body.bare
  | .letIn _ name value body => .letIn .dummy name value.bare body.bare
  | .membership _ item collection => .membership .dummy item.bare collection.bare
  | .approx _ lhs rhs => .approx .dummy lhs.bare rhs.bare
  | .compare _ lhs op rhs => .compare .dummy lhs.bare op rhs.bare
  | .logic _ lhs op rhs => .logic .dummy lhs.bare op rhs.bare
  | .not _ inner => .not .dummy inner.bare

/-- The term without spans and types. -/
def Term.bare : Term → Term
  | .constant _ value => .constant {} value
  | .probability _ trials body => .probability {} trials body.bare
  | .probabilityOverItems _ ranges body =>
    .probabilityOverItems {} (Range.bareOfAll ranges) body.bare
  | .expectation _ trials body => .expectation {} trials body.bare
  | .expectationOverItems _ ranges body =>
    .expectationOverItems {} (Range.bareOfAll ranges) body.bare
  | .lookup _ collection key => .lookup {} collection.bare key.bare
  | .identifier _ name => .identifier {} name
  | .tuple _ elements => .tuple {} (Term.bareOfAll elements)
  | .binary _ lhs op rhs => .binary {} lhs.bare op rhs.bare
  | .sizeOf _ collection => .sizeOf {} collection.bare
  | .call _ name args => .call {} name (Term.bareOfAll args)

/-- The ranges without spans and types. -/
def Range.bareOfAll : List Range → List Range
  | [] => []
  | .mk _ var collection mode :: rest => .mk .dummy var collection.bare mode :: Range.bareOfAll rest

/-- The terms without spans and types. -/
def Term.bareOfAll : List Term → List Term
  | [] => []
  | t :: rest => t.bare :: Term.bareOfAll rest

end

open SpecText

/-- Whether the name or the literal of a node, if it has one, is of the given form. -/
def Node.isSpelled (name literal : String → Bool) : Node → Bool
  | .clause (.letIn _ n _ _) => name n
  | .range (.mk _ var _ _) => name var
  | .term (.identifier _ n) => name n
  | .term (.call _ n _) => name n
  | .term (.constant _ value) => literal value
  | _ => true

/-- Whether the name or the literal of a node can be told from other words. -/
def Node.isLegible : Node → Bool := isSpelled isName isNumeral

/-- Whether the name of a node is an identifier, and its literal a decimal numeral. -/
def Node.isOrdinary : Node → Bool := isSpelled isIdentifier isDecimal

theorem Node.isSpelled_mono {name name' literal literal' : String → Bool}
    (hname : ∀ s, name s = true → name' s = true)
    (hliteral : ∀ s, literal s = true → literal' s = true) {n : Node}
    (h : n.isSpelled name literal = true) : n.isSpelled name' literal' = true := by
  cases n with
  | clause c =>
      cases c with
      | letIn => exact hname _ h
      | _ => rfl
  | term t =>
      cases t with
      | identifier | call => exact hname _ h
      | constant => exact hliteral _ h
      | _ => rfl
  | range r =>
      cases r
      exact hname _ h

/-- Identifiers and decimal numerals are legible. -/
theorem Node.all_isLegible {ns : List Node} (h : ns.all Node.isOrdinary = true) :
    ns.all Node.isLegible = true :=
  List.all_eq_true.2 fun n hn => isSpelled_mono (fun _ => isName_of_isIdentifier)
    (fun _ => isNumeral_of_isDecimal) (List.all_eq_true.1 h n hn)

/-- Whether all names and literals of a clause are legible. -/
def Clause.isLegible (c : Clause) : Bool := c.nodes.all Node.isLegible

/-- Whether all names and literals of a term are legible. -/
def Term.isLegible (t : Term) : Bool := t.nodes.all Node.isLegible

theorem legible_part {n : Node} {ns : List Node} : (n :: ns).all Node.isLegible = true ↔
    n.isLegible = true ∧ ns.all Node.isLegible = true := by
  rw [List.all_cons, Bool.and_eq_true]

theorem legible_parts {n : Node} {ns ms : List Node} :
    (n :: (ns ++ ms)).all Node.isLegible = true ↔
      n.isLegible = true ∧ ns.all Node.isLegible = true ∧ ms.all Node.isLegible = true := by
  rw [legible_part, List.all_append, Bool.and_eq_true]

mutual

/-- The text of a clause is read as the clause. -/
theorem Clause.reads_text : ∀ c : Clause, c.isLegible = true → ReadsClause c.text c.bare
  | .forAll _ ranges body, h => by
      obtain ⟨-, hranges, hbody⟩ := legible_parts.1 h
      exact .forAll (Range.reads_texts ranges hranges) (body.reads_text hbody)
  | .letIn _ _ value body, h => by
      obtain ⟨hname, hvalue, hbody⟩ := legible_parts.1 h
      exact .letIn hname (value.reads_text hvalue) (body.reads_text hbody)
  | .membership _ item collection, h => by
      obtain ⟨-, hitem, hcollection⟩ := legible_parts.1 h
      exact .relation (item.reads_text hitem) .membership (collection.reads_text hcollection)
  | .approx _ lhs rhs, h => by
      obtain ⟨-, hlhs, hrhs⟩ := legible_parts.1 h
      exact .relation (lhs.reads_text hlhs) .approx (rhs.reads_text hrhs)
  | .compare _ lhs op rhs, h => by
      obtain ⟨-, hlhs, hrhs⟩ := legible_parts.1 h
      have hreads := ReadsClause.relation (lhs.reads_text hlhs) (.compare op) (rhs.reads_text hrhs)
      simp only [Relation.text, ← String.append_assoc] at hreads
      exact hreads
  | .logic _ lhs op rhs, h => by
      obtain ⟨-, hlhs, hrhs⟩ := legible_parts.1 h
      exact .logic (lhs.reads_text hlhs) (rhs.reads_text hrhs) op
  | .not _ inner, h => by
      obtain ⟨-, hinner⟩ := legible_part.1 h
      exact .not (inner.reads_text hinner)

/-- The text of a term is read as the term. -/
theorem Term.reads_text : ∀ t : Term, t.isLegible = true → ReadsTerm t.text t.bare
  | .constant _ _, h => .constant (legible_part.1 h).1
  | .probability _ trials body, h => by
      obtain ⟨-, hbody⟩ := legible_part.1 h
      exact .probability (readsPopulation_trials .probability trials) (body.reads_text hbody) rfl
  | .probabilityOverItems _ ranges body, h => by
      obtain ⟨-, hranges, hbody⟩ := legible_parts.1 h
      exact .probability (readsPopulation_items .probability (Range.reads_texts ranges hranges))
        (body.reads_text hbody) rfl
  | .expectation _ trials body, h => by
      obtain ⟨-, hbody⟩ := legible_part.1 h
      exact .expectation (readsPopulation_trials .expectation trials) (body.reads_text hbody) rfl
  | .expectationOverItems _ ranges body, h => by
      obtain ⟨-, hranges, hbody⟩ := legible_parts.1 h
      exact .expectation (readsPopulation_items .expectation (Range.reads_texts ranges hranges))
        (body.reads_text hbody) rfl
  | .lookup _ collection key, h => by
      obtain ⟨-, hcollection, hkey⟩ := legible_parts.1 h
      exact .lookup (collection.reads_text hcollection) (key.reads_text hkey)
  | .identifier _ _, h => .identifier (legible_part.1 h).1
  | .tuple _ elements, h => by
      obtain ⟨-, helements⟩ := legible_part.1 h
      exact .tuple (Term.reads_texts elements helements)
  | .binary _ lhs op rhs, h => by
      obtain ⟨-, hlhs, hrhs⟩ := legible_parts.1 h
      exact .binary (lhs.reads_text hlhs) (rhs.reads_text hrhs) op
  | .sizeOf _ collection, h => by
      obtain ⟨-, hcollection⟩ := legible_part.1 h
      exact .sizeOf (collection.reads_text hcollection)
  | .call _ _ args, h => by
      obtain ⟨hname, hargs⟩ := legible_part.1 h
      exact .call hname (Term.reads_texts args hargs)

theorem Range.reads_texts : ∀ ranges : List Range,
    (Range.nodesOfAll ranges).all Node.isLegible = true →
      List.Forall₂ ReadsRange (Range.texts ranges) (Range.bareOfAll ranges)
  | [], _ => .nil
  | .mk _ _ collection mode :: rest, h => by
      obtain ⟨hvar, hcollection, hrest⟩ := legible_parts.1 h
      have hreads := collection.reads_text hcollection
      refine .cons ?_ (Range.reads_texts rest hrest)
      cases mode with
      | elements => exact .elements hvar hreads
      | uniqueElements =>
          exact .inMode tokens_inUniques (apart_append (c := ' ') rfl rfl) hvar hreads
      | indices => exact .inMode tokens_inIndices (apart_append (c := ' ') rfl rfl) hvar hreads

theorem Term.reads_texts : ∀ ts : List Term, (Term.nodesOfAll ts).all Node.isLegible = true →
    List.Forall₂ ReadsTerm (Term.texts ts) (Term.bareOfAll ts)
  | [], _ => .nil
  | t :: rest, h => by
      obtain ⟨ht, hrest⟩ := Bool.and_eq_true_iff.1 (List.all_append.symm.trans h)
      exact .cons (t.reads_text ht) (Term.reads_texts rest hrest)

end

theorem Clause.read?_text {c : Clause} (h : c.isLegible = true) :
    read? c.text = some (.clause c.bare) := by
  have hreads := c.reads_text h [] "" rfl ends_empty
  rwa [String.append_empty] at hreads

theorem Term.read?_text {t : Term} (h : t.isLegible = true) : read? t.text = some (.term t.bare) := by
  have hreads := t.reads_text h [] "" apart_empty
  rwa [String.append_empty] at hreads

/-- Legible clauses with the same text are the same up to spans and types. -/
theorem Clause.bare_eq_of_text_eq {c d : Clause} (hc : c.isLegible = true) (hd : d.isLegible = true)
    (h : c.text = d.text) : c.bare = d.bare := by
  have hread := Clause.read?_text hc
  rw [h, Clause.read?_text hd] at hread
  exact (Node.clause.inj (Option.some.inj hread)).symm

/-- Legible terms with the same text are the same up to spans and types. -/
theorem Term.bare_eq_of_text_eq {t u : Term} (ht : t.isLegible = true) (hu : u.isLegible = true)
    (h : t.text = u.text) : t.bare = u.bare := by
  have hread := Term.read?_text ht
  rw [h, Term.read?_text hu] at hread
  exact (Node.term.inj (Option.some.inj hread)).symm

/-- Specification text is unambiguous. Two clauses with legible names and literals that have the
same text are the same clause up to spans and types, two such terms are the same term, and no
clause looks like a term. In particular this is so for names that are identifiers and no keywords,
and for literals that are decimal numerals. -/
theorem specText_unambiguous :
    (∀ c d : Clause, c.isLegible = true → d.isLegible = true → c.text = d.text →
      c.bare = d.bare) ∧
    (∀ t u : Term, t.isLegible = true → u.isLegible = true → t.text = u.text →
      t.bare = u.bare) ∧
    (∀ (c : Clause) (t : Term), c.isLegible = true → t.isLegible = true → c.text ≠ t.text) ∧
    (∀ c d : Clause, c.nodes.all Node.isOrdinary = true → d.nodes.all Node.isOrdinary = true →
      c.text = d.text → c.bare = d.bare) ∧
    (∀ t u : Term, t.nodes.all Node.isOrdinary = true → u.nodes.all Node.isOrdinary = true →
      t.text = u.text → t.bare = u.bare) := by
  refine ⟨fun _ _ => Clause.bare_eq_of_text_eq, fun _ _ => Term.bare_eq_of_text_eq,
    fun c t hc ht h => ?_, fun c d hc hd => ?_, fun t u ht hu => ?_⟩
  · have hread := Clause.read?_text hc
    rw [h, Term.read?_text ht] at hread
    cases hread
  · exact Clause.bare_eq_of_text_eq (Node.all_isLegible hc) (Node.all_isLegible hd)
  · exact Term.bare_eq_of_text_eq (Node.all_isLegible ht) (Node.all_isLegible hu)

/-- A bound on a mean over the items of an item, with the same annotation everywhere. -/
def meanOfItem (note : Note) : Clause :=
  .forAll note.span [.mk note.span "i" (.identifier note "rows") .indices]
    (.compare note.span
      (.expectationOverItems note
        [.mk note.span "x" (.lookup note (.identifier note "rows") (.identifier note "i")) .elements]
        (.identifier note "x"))
      .le (.constant note "2.5"))

theorem specText_unambiguous_meanOfItem :
    (meanOfItem {}).text =
      "forall i in indices(rows) : Expectation over x in rows[i] [x] <= 2.5" ∧
    (meanOfItem ⟨⟨4, 9⟩, some .scalar⟩).text = (meanOfItem {}).text ∧
    (meanOfItem ⟨⟨4, 9⟩, some .scalar⟩).bare = (meanOfItem {}).bare := by
  have htext : (meanOfItem ⟨⟨4, 9⟩, some .scalar⟩).text = (meanOfItem {}).text := rfl
  exact ⟨by decide +kernel, htext,
    specText_unambiguous.1 _ _ (by decide +kernel) (by decide +kernel) htext⟩

end StatContract
