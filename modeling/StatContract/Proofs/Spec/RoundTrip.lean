import StatContract.Proofs.Spec.Members
import StatContract.Proofs.Typing.Erasure
import StatContract.Spec.Nodes

/-!
# Reading undoes writing

A specification file that is written in any style is read back as it was, except
that the type slots come back empty. The proof goes through the tree: every clause and
every term is an expression object, whose parts are read back by the induction.
-/

namespace StatContract

open Json
open Read

mutual

/-- A clause is read back without its type slots. -/
theorem Clause.read_of_written : ∀ (c : Clause) (origin : Origin) {j : Json}, c.Written j →
    Read.clause origin j = .ok c.eraseTypes ∧ j.intact = true
  | .forAll span ranges body, origin, j, h => by
      refine clause_of_expression origin .forAll
        [.ofArray "ranges" .ranges (fun _ => rfl) (fun _ => Range.read_of_writtenAll ranges),
          .ofValue "body" .clause (fun _ => rfl) (fun _ => body.read_of_written .scanned)]
        rfl (by simp [Part.ofArray, Part.ofValue]) (fun fs hfs => ?_) h
      -- In which order the members come is not known, only what each of them is read as.
      simp [Part.ofArray, Part.ofValue] at hfs
      simp [ClauseKind.build, Fields.ranges, Fields.clause, hfs]
      rfl
  | .letIn span name value body, origin, j, h => by
      refine clause_of_expression origin .letIn
        [.ofValue "name" .text (fun _ => rfl) (text_of_textOf name),
          .ofValue "value" .term (fun _ => rfl) (fun _ => value.read_of_written .scanned),
          .ofValue "body" .clause (fun _ => rfl) (fun _ => body.read_of_written .scanned)]
        rfl (by simp [Part.ofValue]) (fun fs hfs => ?_) h
      simp [Part.ofValue] at hfs
      simp [ClauseKind.build, Fields.text, Fields.term, Fields.clause, hfs]
      rfl
  | .membership span item collection, origin, j, h => by
      refine clause_of_expression origin .membership
        [.ofValue "item" .term (fun _ => rfl) (fun _ => item.read_of_written .scanned),
          .ofValue "collection" .term (fun _ => rfl) (fun _ => collection.read_of_written .scanned)]
        rfl (by simp [Part.ofValue]) (fun fs hfs => ?_) h
      simp [Part.ofValue] at hfs
      simp [ClauseKind.build, Fields.term, hfs]
      rfl
  | .approx span lhs rhs, origin, j, h => by
      refine clause_of_expression origin .approx
        [.ofValue "lhs" .term (fun _ => rfl) (fun _ => lhs.read_of_written .scanned),
          .ofValue "rhs" .term (fun _ => rfl) (fun _ => rhs.read_of_written .scanned)]
        rfl (by simp [Part.ofValue]) (fun fs hfs => ?_) h
      simp [Part.ofValue] at hfs
      simp [ClauseKind.build, Fields.term, hfs]
      rfl
  | .compare span lhs op rhs, origin, j, h => by
      refine clause_of_expression origin .compare
        [.ofValue "lhs" .term (fun _ => rfl) (fun _ => lhs.read_of_written .scanned),
          .ofValue "op" .cmpOp (fun _ => rfl) (cmpOp_of_textOf op),
          .ofValue "rhs" .term (fun _ => rfl) (fun _ => rhs.read_of_written .scanned)]
        rfl (by simp [Part.ofValue]) (fun fs hfs => ?_) h
      simp [Part.ofValue] at hfs
      simp [ClauseKind.build, Fields.term, Fields.cmpOp, hfs]
      rfl
  | .logic span lhs op rhs, origin, j, h => by
      refine clause_of_expression origin .logic
        [.ofValue "lhs" .clause (fun _ => rfl) (fun _ => lhs.read_of_written .scanned),
          .ofValue "op" .logicOp (fun _ => rfl) (logicOp_of_textOf op),
          .ofValue "rhs" .clause (fun _ => rfl) (fun _ => rhs.read_of_written .scanned)]
        rfl (by simp [Part.ofValue]) (fun fs hfs => ?_) h
      simp [Part.ofValue] at hfs
      simp [ClauseKind.build, Fields.clause, Fields.logicOp, hfs]
      rfl
  | .not span inner, origin, j, h => by
      refine clause_of_expression origin .not
        [.ofValue "inner" .clause (fun _ => rfl) (fun _ => inner.read_of_written .scanned)]
        rfl (by simp [Part.ofValue]) (fun fs hfs => ?_) h
      simp [Part.ofValue] at hfs
      simp [ClauseKind.build, Fields.clause, hfs]
      rfl

/-- A term is read back without its type slots. -/
theorem Term.read_of_written : ∀ (t : Term) (origin : Origin) {j : Json}, t.Written j →
    Read.term origin j = .ok t.eraseTypes ∧ j.intact = true
  | .constant note value, origin, j, h => by
      refine term_of_expression origin .constant
        [.ofValue "value" .text (fun _ => rfl) (text_of_textOf value)]
        rfl (by simp [Part.ofValue]) (fun fs hfs => ?_) h
      simp [Part.ofValue] at hfs
      simp [TermKind.build, Fields.text, hfs]
      rfl
  | .probability note trials body, origin, j, h => by
      refine term_of_expression origin (.probability trials)
        [.ofValue "body" .clause (fun _ => rfl) (fun _ => body.read_of_written .scanned)]
        rfl (by simp [Part.ofValue]) (fun fs hfs => ?_) h
      simp [Part.ofValue] at hfs
      simp [TermKind.build, Fields.clause, hfs]
      rfl
  | .probabilityOverItems note ranges body, origin, j, h => by
      refine term_of_expression origin .probabilityOverItems
        [.ofArray "ranges" .ranges (fun _ => rfl) (fun _ => Range.read_of_writtenAll ranges),
          .ofValue "body" .clause (fun _ => rfl) (fun _ => body.read_of_written .scanned)]
        rfl (by simp [Part.ofArray, Part.ofValue]) (fun fs hfs => ?_) h
      simp [Part.ofArray, Part.ofValue] at hfs
      simp [TermKind.build, Fields.ranges, Fields.clause, hfs]
      rfl
  | .expectation note trials body, origin, j, h => by
      refine term_of_expression origin (.expectation trials)
        [.ofValue "body" .term (fun _ => rfl) (fun _ => body.read_of_written .scanned)]
        rfl (by simp [Part.ofValue]) (fun fs hfs => ?_) h
      simp [Part.ofValue] at hfs
      simp [TermKind.build, Fields.term, hfs]
      rfl
  | .expectationOverItems note ranges body, origin, j, h => by
      refine term_of_expression origin .expectationOverItems
        [.ofArray "ranges" .ranges (fun _ => rfl) (fun _ => Range.read_of_writtenAll ranges),
          .ofValue "body" .term (fun _ => rfl) (fun _ => body.read_of_written .scanned)]
        rfl (by simp [Part.ofArray, Part.ofValue]) (fun fs hfs => ?_) h
      simp [Part.ofArray, Part.ofValue] at hfs
      simp [TermKind.build, Fields.ranges, Fields.term, hfs]
      rfl
  | .lookup note collection key, origin, j, h => by
      refine term_of_expression origin .lookup
        [.ofValue "collection" .term (fun _ => rfl) (fun _ => collection.read_of_written .scanned),
          .ofValue "key" .term (fun _ => rfl) (fun _ => key.read_of_written .scanned)]
        rfl (by simp [Part.ofValue]) (fun fs hfs => ?_) h
      simp [Part.ofValue] at hfs
      simp [TermKind.build, Fields.term, hfs]
      rfl
  | .identifier note name, origin, j, h => by
      refine term_of_expression origin .identifier
        [.ofValue "name" .text (fun _ => rfl) (text_of_textOf name)]
        rfl (by simp [Part.ofValue]) (fun fs hfs => ?_) h
      simp [Part.ofValue] at hfs
      simp [TermKind.build, Fields.text, hfs]
      rfl
  | .tuple note elements, origin, j, h => by
      refine term_of_expression origin .tuple
        [.ofArray "elements" .terms (fun _ => rfl) (fun _ => Term.read_of_writtenAll elements)]
        rfl (by simp [Part.ofArray]) (fun fs hfs => ?_) h
      simp [Part.ofArray] at hfs
      simp [TermKind.build, Fields.terms, hfs]
      rfl
  | .binary note lhs op rhs, origin, j, h => by
      refine term_of_expression origin .binary
        [.ofValue "lhs" .term (fun _ => rfl) (fun _ => lhs.read_of_written .scanned),
          .ofValue "op" .arithOp (fun _ => rfl) (arithOp_of_written op),
          .ofValue "rhs" .term (fun _ => rfl) (fun _ => rhs.read_of_written .scanned)]
        rfl (by simp [Part.ofValue]) (fun fs hfs => ?_) h
      simp [Part.ofValue] at hfs
      simp [TermKind.build, Fields.term, Fields.arithOp, hfs]
      rfl
  | .sizeOf note collection, origin, j, h => by
      refine term_of_expression origin .sizeOf
        [.ofValue "collection" .term (fun _ => rfl) (fun _ => collection.read_of_written .scanned)]
        rfl (by simp [Part.ofValue]) (fun fs hfs => ?_) h
      simp [Part.ofValue] at hfs
      simp [TermKind.build, Fields.term, hfs]
      rfl
  | .call note name args, origin, j, h => by
      refine term_of_expression origin .call
        [.ofValue "name" .text (fun _ => rfl) (text_of_textOf name),
          .ofArray "args" .terms (fun _ => rfl) (fun _ => Term.read_of_writtenAll args)]
        rfl (by simp [Part.ofArray, Part.ofValue]) (fun fs hfs => ?_) h
      simp [Part.ofArray, Part.ofValue] at hfs
      simp [TermKind.build, Fields.text, Fields.terms, hfs]
      rfl

theorem Range.read_of_writtenAll : ∀ (ranges : List Range) {vs : List Json},
    Range.WrittenAll ranges vs → Read.ranges vs = .ok (Range.eraseTypesOfAll ranges) ∧
      allIntact vs = true
  | [], vs, h => by
      obtain rfl : vs = [] := h
      exact ⟨by rw [Read.ranges]; rfl, rfl⟩
  | .mk span var collection mode :: rest, vs, h => by
      obtain ⟨v, more, rfl, hv, hmore⟩ := h
      obtain ⟨hread, hintact⟩ := range_of_arranged (fun _ => collection.read_of_written .scanned) hv
      obtain ⟨hrest, hintact'⟩ := Range.read_of_writtenAll rest hmore
      refine ⟨?_, by rw [allIntact, hintact, hintact']; rfl⟩
      rw [Read.ranges, hread, hrest]
      rfl

theorem Term.read_of_writtenAll : ∀ (ts : List Term) {vs : List Json},
    Term.WrittenAll ts vs → Read.terms vs = .ok (Term.eraseTypesOfAll ts) ∧ allIntact vs = true
  | [], vs, h => by
      obtain rfl : vs = [] := h
      exact ⟨by rw [Read.terms]; rfl, rfl⟩
  | t :: rest, vs, h => by
      obtain ⟨v, more, rfl, hv, hmore⟩ := h
      obtain ⟨hread, hintact⟩ := t.read_of_written .scanned hv
      obtain ⟨hrest, hintact'⟩ := Term.read_of_writtenAll rest hmore
      refine ⟨?_, by rw [allIntact, hintact, hintact']; rfl⟩
      rw [Read.terms, hread, hrest]
      rfl

end

/-- What reading a member puts into the draft of a declaration. -/
def Decl.Draft.put (d : Decl) (name : String) (draft : Draft) : Draft where
  name := if name = "name" then some d.name else draft.name
  ty := if name = "ty" then some d.ty else draft.ty
  span := if name = "span" then some d.span else draft.span

theorem Decl.fills (d : Decl) : Read.Fills Draft.field (Draft.put d) d.parts where
  intact := by
    simp only [Decl.parts, List.forall_mem_cons]
    refine ⟨fun v hv => (text_of_textOf d.name v hv).2, ?_,
      fun v hv => (Span.ofJson_of_written .text hv).2, List.forall_mem_nil _⟩
    rintro v rfl
    exact d.ty.intact_toJson
  skip name hfield draft := by
    unfold Draft.field at hfield
    split at hfield <;> simp_all [Draft.put]
  step name step hfield := by
    unfold Draft.field at hfield
    split at hfield <;> cases hfield
    · refine ⟨_, List.mem_cons_self, rfl, ?_⟩
      intro v hv draft
      simp [(text_of_textOf d.name v hv).1, Draft.put]
    · refine ⟨_, List.mem_cons_of_mem _ List.mem_cons_self, rfl, ?_⟩
      rintro v rfl draft
      simp [ValueType.ofJson_toJson, Draft.put]
    · refine ⟨d.span.member, by simp [Decl.parts], rfl, ?_⟩
      intro v hv draft
      simp [(Span.ofJson_of_written .text hv).1, Draft.put]

theorem Decl.ofJson_of_written {d : Decl} {j : Json} (h : d.Written j) :
    Decl.ofJson j = .ok d ∧ j.intact = true := by
  obtain ⟨members, rfl, hfits⟩ := h.exists_fits (by simp [Decl.parts, Span.member])
  refine ⟨?_, (membersIntact_iff members).2 (hfits.intact d.fills.intact)⟩
  have hname := slot_of_fits hfits Draft.name (Draft.put d) (d := {}) (t := some d.name)
    List.mem_cons_self (by simp [Draft.put]) (by intro n d hn; simp [Draft.put, hn]) False.elim
  have hty := slot_of_fits hfits Draft.ty (Draft.put d) (d := {}) (t := some d.ty)
    (List.mem_cons_of_mem _ List.mem_cons_self) (by simp [Draft.put])
    (by intro n d hn; simp [Draft.put, hn]) False.elim
  have hspan := slot_of_fits hfits (fun draft : Draft => draft.span.getD .dummy) (Draft.put d)
    (d := {}) (t := d.span) (show d.span.member ∈ d.parts by simp [Decl.parts])
    (by simp [Draft.put, Span.member]) (by intro n d hn; simp_all [Draft.put, Span.member])
    (fun hdummy => hdummy.symm)
  rw [Decl.ofJson, d.fills.members hfits]
  simp only [bind, Except.bind, hname, hty, hspan, Read.required, pure, Except.pure]

theorem Decl.items_of_written : ∀ {ds : List Decl} {vs : List Json},
    List.Forall₂ Decl.Written ds vs → items Decl.ofJson vs = .ok ds ∧ allIntact vs = true
  | _, _, .nil => ⟨rfl, rfl⟩
  | _, _, .cons hd hrest => by
      obtain ⟨hread, hintact⟩ := Decl.ofJson_of_written hd
      obtain ⟨hitems, hintact'⟩ := Decl.items_of_written hrest
      refine ⟨?_, by rw [allIntact, hintact, hintact']; rfl⟩
      rw [items, hread, hitems]
      rfl

/-- A value that may be absent is read as its reader reads it. -/
theorem Read.optional_of_optionOf {α β : Type} {written : α → Json → Prop} {read : Json → Read β}
    {f : α → β} (hnull : ∀ b, read .null ≠ .ok b)
    (h : ∀ a v, written a v → read v = .ok (f a) ∧ v.intact = true) :
    ∀ (o : Option α) (v : Json), OptionOf written o v →
      optional read v = .ok (o.map f) ∧ v.intact = true
  | none, v, hv => by
      obtain rfl : v = .null := hv
      exact ⟨rfl, rfl⟩
  | some a, v, hv => by
      obtain ⟨hread, hintact⟩ := h a v hv
      have hv : v ≠ .null := by
        rintro rfl
        exact hnull _ hread
      refine ⟨?_, hintact⟩
      rw [optional, hread]
      · rfl
      · exact hv

theorem Read.optionalClause_of_written (o : Option Clause) (v : Json)
    (h : OptionOf Clause.Written o v) :
    optional (Read.clause .text) v = .ok (o.map Clause.eraseTypes) ∧ v.intact = true :=
  optional_of_optionOf (fun _ h => by simp [Read.clause, unexpected, found?, mismatch] at h)
    (fun c _ => c.read_of_written .text) o v h

theorem Read.optionalTerm_of_written (o : Option Term) (v : Json) (h : OptionOf Term.Written o v) :
    optional (Read.term .text) v = .ok (o.map Term.eraseTypes) ∧ v.intact = true :=
  optional_of_optionOf (fun _ h => by simp [Read.term, unexpected, found?, mismatch] at h)
    (fun t _ => t.read_of_written .text) o v h

theorem Read.optionalText_of_textOf (o : Option String) (v : Json) (h : OptionOf TextOf o v) :
    optional Read.text v = .ok o ∧ v.intact = true := by
  have htext := optional_of_optionOf (f := id)
    (fun _ h => by simp [Read.text, unexpected, found?, mismatch] at h) text_of_textOf o v h
  rwa [Option.map_id] at htext

/-- What reading a member puts into the draft of a specification. -/
def Specification.Draft.put (s : Specification) (name : String) (draft : Draft) : Draft where
  decls := if name = "decls" then some s.decls else draft.decls
  accuracy := if name = "accuracy" then s.eraseTypes.accuracy else draft.accuracy
  time := if name = "time" then s.eraseTypes.time else draft.time
  space := if name = "space" then s.eraseTypes.space else draft.space
  span := if name = "span" then some s.span else draft.span

theorem Specification.fills (s : Specification) :
    Read.Fills Draft.field (Draft.put s) s.parts where
  intact := by
    simp only [Specification.parts, List.forall_mem_cons]
    refine ⟨?_, fun v hv => (optionalClause_of_written s.accuracy v hv).2,
      fun v hv => (optionalTerm_of_written s.time v hv).2,
      fun v hv => (optionalTerm_of_written s.space v hv).2,
      fun v hv => (Span.ofJson_of_written .text hv).2, List.forall_mem_nil _⟩
    rintro v ⟨vs, rfl, hvs⟩
    exact (Decl.items_of_written hvs).2
  skip name hfield draft := by
    unfold Draft.field at hfield
    split at hfield <;> simp_all [Draft.put]
  step name step hfield := by
    unfold Draft.field at hfield
    split at hfield <;> cases hfield
    · refine ⟨_, List.mem_cons_self, rfl, ?_⟩
      rintro v ⟨vs, rfl, hvs⟩ draft
      simp [Decl.listOfJson, (Decl.items_of_written hvs).1, Draft.put]
    · refine ⟨_, List.mem_cons_of_mem _ List.mem_cons_self, rfl, ?_⟩
      intro v hv draft
      simp [(optionalClause_of_written s.accuracy v hv).1, Draft.put, Specification.eraseTypes]
    · refine ⟨_, List.mem_cons_of_mem _ (List.mem_cons_of_mem _ List.mem_cons_self), rfl, ?_⟩
      intro v hv draft
      simp [(optionalTerm_of_written s.time v hv).1, Draft.put, Specification.eraseTypes]
    · refine ⟨⟨"space", OptionOf Term.Written s.space, s.space = none⟩,
        by simp [Specification.parts], rfl, ?_⟩
      intro v hv draft
      simp [(optionalTerm_of_written s.space v hv).1, Draft.put, Specification.eraseTypes]
    · refine ⟨s.span.member, by simp [Specification.parts], rfl, ?_⟩
      intro v hv draft
      simp [(Span.ofJson_of_written .text hv).1, Draft.put]

theorem Specification.ofJson_of_written {s : Specification} {j : Json} (h : s.Written j) :
    Specification.ofJson j = .ok s.eraseTypes ∧ j.intact = true := by
  obtain ⟨members, rfl, hfits⟩ := h.exists_fits (by simp [Specification.parts, Span.member])
  refine ⟨?_, (membersIntact_iff members).2 (hfits.intact s.fills.intact)⟩
  have hdecls := slot_of_fits hfits Draft.decls (Draft.put s) (d := {}) (t := some s.decls)
    List.mem_cons_self (by simp [Draft.put]) (by intro n d hn; simp [Draft.put, hn]) False.elim
  have haccuracy := slot_of_fits hfits Draft.accuracy (Draft.put s) (d := {})
    (t := s.eraseTypes.accuracy) (List.mem_cons_of_mem _ List.mem_cons_self)
    (by simp [Draft.put]) (by intro n d hn; simp [Draft.put, hn])
    (fun habsent => by simp_all [Specification.eraseTypes])
  have htime := slot_of_fits hfits Draft.time (Draft.put s) (d := {}) (t := s.eraseTypes.time)
    (List.mem_cons_of_mem _ (List.mem_cons_of_mem _ List.mem_cons_self))
    (by simp [Draft.put]) (by intro n d hn; simp [Draft.put, hn])
    (fun habsent => by simp_all [Specification.eraseTypes])
  have hspace := slot_of_fits hfits Draft.space (Draft.put s) (d := {}) (t := s.eraseTypes.space)
    (show (⟨"space", OptionOf Term.Written s.space, s.space = none⟩ : Member) ∈ s.parts by
      simp [Specification.parts])
    (by simp [Draft.put]) (by intro n d hn; simp_all [Draft.put])
    (fun habsent => by simp_all [Specification.eraseTypes])
  have hspan := slot_of_fits hfits (fun draft : Draft => draft.span.getD .dummy) (Draft.put s)
    (d := {}) (t := s.span) (show s.span.member ∈ s.parts by simp [Specification.parts])
    (by simp [Draft.put, Span.member]) (by intro n d hn; simp_all [Draft.put, Span.member])
    (fun hdummy => hdummy.symm)
  rw [Specification.ofJson, s.fills.members hfits]
  simp only [bind, Except.bind, hdecls, haccuracy, htime, hspace, hspan, Read.required, ofDraft,
    pure, Except.pure]
  rfl

/-- The file with all type slots emptied. -/
def SpecFile.eraseTypes (f : SpecFile) : SpecFile := { f with spec := f.spec.eraseTypes }

/-- What reading a member puts into the draft of a specification file. -/
def SpecFile.Draft.put (f : SpecFile) (name : String) (draft : Draft) : Draft where
  filename := if name = "filename" then f.filename else draft.filename
  source := if name = "source" then f.source else draft.source
  spec := if name = "spec" then some f.spec.eraseTypes else draft.spec

theorem SpecFile.fills (f : SpecFile) : Read.Fills Draft.field (Draft.put f) f.parts where
  intact := by
    simp only [SpecFile.parts, List.forall_mem_cons]
    exact ⟨fun v hv => (optionalText_of_textOf f.filename v hv).2,
      fun v hv => (optionalText_of_textOf f.source v hv).2,
      fun v hv => (Specification.ofJson_of_written hv).2, List.forall_mem_nil _⟩
  skip name hfield draft := by
    unfold Draft.field at hfield
    split at hfield <;> simp_all [Draft.put]
  step name step hfield := by
    unfold Draft.field at hfield
    split at hfield <;> cases hfield
    · refine ⟨_, List.mem_cons_self, rfl, ?_⟩
      intro v hv draft
      simp [(optionalText_of_textOf f.filename v hv).1, Draft.put]
    · refine ⟨_, List.mem_cons_of_mem _ List.mem_cons_self, rfl, ?_⟩
      intro v hv draft
      simp [(optionalText_of_textOf f.source v hv).1, Draft.put]
    · refine ⟨_, List.mem_cons_of_mem _ (List.mem_cons_of_mem _ List.mem_cons_self), rfl, ?_⟩
      intro v hv draft
      simp [(Specification.ofJson_of_written hv).1, Draft.put]

theorem SpecFile.ofJson_of_written {f : SpecFile} {j : Json} (h : f.Written j) :
    SpecFile.ofJson j = .ok f.eraseTypes := by
  obtain ⟨members, rfl, hfits⟩ := h.exists_fits (by simp [SpecFile.parts])
  have hfilename := slot_of_fits hfits Draft.filename (Draft.put f) (d := {}) (t := f.filename)
    List.mem_cons_self (by simp [Draft.put]) (by intro n d hn; simp [Draft.put, hn])
    (fun habsent => habsent.symm)
  have hsource := slot_of_fits hfits Draft.source (Draft.put f) (d := {}) (t := f.source)
    (List.mem_cons_of_mem _ List.mem_cons_self) (by simp [Draft.put])
    (by intro n d hn; simp [Draft.put, hn]) (fun habsent => habsent.symm)
  have hspec := slot_of_fits hfits Draft.spec (Draft.put f) (d := {})
    (t := some f.spec.eraseTypes)
    (List.mem_cons_of_mem _ (List.mem_cons_of_mem _ List.mem_cons_self)) (by simp [Draft.put])
    (by intro n d hn; simp [Draft.put, hn]) False.elim
  rw [SpecFile.ofJson, f.fills.members hfits]
  simp only [bind, Except.bind, hfilename, hsource, hspec, Read.required, pure, Except.pure]
  rfl

theorem Note.eraseType_of_untyped {note : Note} (h : note.ty = none) : note.eraseType = note := by
  rw [Note.eraseType, ← h]

mutual

/-- Nothing is erased where all slots are empty. -/
theorem Clause.eraseTypes_of_untyped : ∀ c : Clause,
    (∀ t, .term t ∈ c.nodes → t.ty = none) → c.eraseTypes = c
  | .forAll span ranges body, h => by
      simp only [Clause.nodes, List.mem_cons, List.mem_append, reduceCtorEq, false_or] at h
      rw [Clause.eraseTypes, Range.eraseTypesOfAll_of_untyped ranges fun t ht => h t (.inl ht),
        body.eraseTypes_of_untyped fun t ht => h t (.inr ht)]
  | .letIn span name value body, h => by
      simp only [Clause.nodes, List.mem_cons, List.mem_append, reduceCtorEq, false_or] at h
      rw [Clause.eraseTypes, value.eraseTypes_of_untyped fun t ht => h t (.inl ht),
        body.eraseTypes_of_untyped fun t ht => h t (.inr ht)]
  | .membership span item collection, h => by
      simp only [Clause.nodes, List.mem_cons, List.mem_append, reduceCtorEq, false_or] at h
      rw [Clause.eraseTypes, item.eraseTypes_of_untyped fun t ht => h t (.inl ht),
        collection.eraseTypes_of_untyped fun t ht => h t (.inr ht)]
  | .approx span lhs rhs, h => by
      simp only [Clause.nodes, List.mem_cons, List.mem_append, reduceCtorEq, false_or] at h
      rw [Clause.eraseTypes, lhs.eraseTypes_of_untyped fun t ht => h t (.inl ht),
        rhs.eraseTypes_of_untyped fun t ht => h t (.inr ht)]
  | .compare span lhs op rhs, h => by
      simp only [Clause.nodes, List.mem_cons, List.mem_append, reduceCtorEq, false_or] at h
      rw [Clause.eraseTypes, lhs.eraseTypes_of_untyped fun t ht => h t (.inl ht),
        rhs.eraseTypes_of_untyped fun t ht => h t (.inr ht)]
  | .logic span lhs op rhs, h => by
      simp only [Clause.nodes, List.mem_cons, List.mem_append, reduceCtorEq, false_or] at h
      rw [Clause.eraseTypes, lhs.eraseTypes_of_untyped fun t ht => h t (.inl ht),
        rhs.eraseTypes_of_untyped fun t ht => h t (.inr ht)]
  | .not span inner, h => by
      simp only [Clause.nodes, List.mem_cons, reduceCtorEq, false_or] at h
      rw [Clause.eraseTypes, inner.eraseTypes_of_untyped h]

theorem Term.eraseTypes_of_untyped : ∀ t : Term,
    (∀ s, .term s ∈ t.nodes → s.ty = none) → t.eraseTypes = t
  | .constant note value, h => by
      have hnote := Note.eraseType_of_untyped (h _ List.mem_cons_self)
      rw [Term.eraseTypes]
      exact congrArg (Term.constant · value) hnote
  | .probability note trials body, h => by
      have hnote : note.eraseType = note := Note.eraseType_of_untyped (h _ List.mem_cons_self)
      rw [Term.eraseTypes, hnote,
        body.eraseTypes_of_untyped fun t ht => h t (List.mem_cons_of_mem _ ht)]
  | .probabilityOverItems note ranges body, h => by
      have hnote : note.eraseType = note := Note.eraseType_of_untyped (h _ List.mem_cons_self)
      have hparts := fun t ht => h t (List.mem_cons_of_mem _ ht)
      rw [Term.eraseTypes, hnote,
        Range.eraseTypesOfAll_of_untyped ranges fun t ht => hparts t (List.mem_append_left _ ht),
        body.eraseTypes_of_untyped fun t ht => hparts t (List.mem_append_right _ ht)]
  | .expectation note trials body, h => by
      have hnote : note.eraseType = note := Note.eraseType_of_untyped (h _ List.mem_cons_self)
      rw [Term.eraseTypes, hnote,
        body.eraseTypes_of_untyped fun t ht => h t (List.mem_cons_of_mem _ ht)]
  | .expectationOverItems note ranges body, h => by
      have hnote : note.eraseType = note := Note.eraseType_of_untyped (h _ List.mem_cons_self)
      have hparts := fun t ht => h t (List.mem_cons_of_mem _ ht)
      rw [Term.eraseTypes, hnote,
        Range.eraseTypesOfAll_of_untyped ranges fun t ht => hparts t (List.mem_append_left _ ht),
        body.eraseTypes_of_untyped fun t ht => hparts t (List.mem_append_right _ ht)]
  | .lookup note collection key, h => by
      have hnote : note.eraseType = note := Note.eraseType_of_untyped (h _ List.mem_cons_self)
      have hparts := fun t ht => h t (List.mem_cons_of_mem _ ht)
      rw [Term.eraseTypes, hnote,
        collection.eraseTypes_of_untyped fun t ht => hparts t (List.mem_append_left _ ht),
        key.eraseTypes_of_untyped fun t ht => hparts t (List.mem_append_right _ ht)]
  | .identifier note name, h => by
      have hnote := Note.eraseType_of_untyped (h _ List.mem_cons_self)
      rw [Term.eraseTypes]
      exact congrArg (Term.identifier · name) hnote
  | .tuple note elements, h => by
      have hnote : note.eraseType = note := Note.eraseType_of_untyped (h _ List.mem_cons_self)
      rw [Term.eraseTypes, hnote,
        Term.eraseTypesOfAll_of_untyped elements fun t ht => h t (List.mem_cons_of_mem _ ht)]
  | .binary note lhs op rhs, h => by
      have hnote : note.eraseType = note := Note.eraseType_of_untyped (h _ List.mem_cons_self)
      have hparts := fun t ht => h t (List.mem_cons_of_mem _ ht)
      rw [Term.eraseTypes, hnote,
        lhs.eraseTypes_of_untyped fun t ht => hparts t (List.mem_append_left _ ht),
        rhs.eraseTypes_of_untyped fun t ht => hparts t (List.mem_append_right _ ht)]
  | .sizeOf note collection, h => by
      have hnote : note.eraseType = note := Note.eraseType_of_untyped (h _ List.mem_cons_self)
      rw [Term.eraseTypes, hnote,
        collection.eraseTypes_of_untyped fun t ht => h t (List.mem_cons_of_mem _ ht)]
  | .call note name args, h => by
      have hnote : note.eraseType = note := Note.eraseType_of_untyped (h _ List.mem_cons_self)
      rw [Term.eraseTypes, hnote,
        Term.eraseTypesOfAll_of_untyped args fun t ht => h t (List.mem_cons_of_mem _ ht)]

theorem Range.eraseTypesOfAll_of_untyped : ∀ rs : List Range,
    (∀ t, .term t ∈ Range.nodesOfAll rs → t.ty = none) → Range.eraseTypesOfAll rs = rs
  | [], _ => rfl
  | .mk span var collection mode :: rest, h => by
      simp only [Range.nodesOfAll, List.mem_cons, List.mem_append, reduceCtorEq, false_or] at h
      rw [Range.eraseTypesOfAll, collection.eraseTypes_of_untyped fun t ht => h t (.inl ht),
        Range.eraseTypesOfAll_of_untyped rest fun t ht => h t (.inr ht)]

theorem Term.eraseTypesOfAll_of_untyped : ∀ ts : List Term,
    (∀ t, .term t ∈ Term.nodesOfAll ts → t.ty = none) → Term.eraseTypesOfAll ts = ts
  | [], _ => rfl
  | t :: rest, h => by
      simp only [Term.nodesOfAll, List.mem_append] at h
      rw [Term.eraseTypesOfAll, t.eraseTypes_of_untyped fun s hs => h s (.inl hs),
        Term.eraseTypesOfAll_of_untyped rest fun s hs => h s (.inr hs)]

end

theorem Specification.eraseTypes_of_untyped {s : Specification}
    (h : ∀ t ∈ s.terms, t.ty = none) : s.eraseTypes = s := by
  have hnodes : ∀ t, .term t ∈ s.nodes → t.ty = none := fun t ht =>
    h t (List.mem_filterMap.2 ⟨.term t, ht, rfl⟩)
  rcases s with ⟨decls, accuracy, time, space, span⟩
  have haccuracy : accuracy.map Clause.eraseTypes = accuracy := by
    cases accuracy with
    | none => rfl
    | some c =>
        exact congrArg some (c.eraseTypes_of_untyped fun t ht =>
          hnodes t (List.mem_append_left _ (List.mem_append_left _ ht)))
  have htime : time.map Term.eraseTypes = time := by
    cases time with
    | none => rfl
    | some t =>
        exact congrArg some (t.eraseTypes_of_untyped fun s hs =>
          hnodes s (List.mem_append_left _ (List.mem_append_right _ hs)))
  have hspace : space.map Term.eraseTypes = space := by
    cases space with
    | none => rfl
    | some t =>
        exact congrArg some (t.eraseTypes_of_untyped fun s hs =>
          hnodes s (List.mem_append_right _ hs))
  simp only [Specification.eraseTypes, haccuracy, htime, hspace]

namespace SpecFile

/-- Reading undoes writing. A file in any style is read back without its type slots, so
exactly as it was when these are empty, and a text that reads as that value is parsed to
the same file. In particular the analysed tree of a file, written as the writer does,
comes back with its slots erased. -/
theorem ofJson_undoes_writing {f : SpecFile} {j : Json} (h : f.Written j) :
    SpecFile.ofJson j = .ok f.eraseTypes ∧
    ((∀ t ∈ f.spec.terms, t.ty = none) → SpecFile.ofJson j = .ok f) ∧
    (∀ text, Json.read nestingLimit text = ⟨j, false⟩ → parse text = .ok f.eraseTypes) ∧
    f.Written f.toJson ∧
    SpecFile.ofJson { f with spec := f.spec.analyze.1 }.toJson =
      .ok { f with spec := f.spec.analyze.1.eraseTypes } := by
  have hread := ofJson_of_written h
  refine ⟨hread, fun huntyped => ?_, fun text htext => ?_, f.written_toJson, ?_⟩
  · rw [hread, eraseTypes, Specification.eraseTypes_of_untyped huntyped]
  · rw [parse, htext]
    simp only [hread, bind, Except.bind, Bool.false_eq_true, if_false]
    rfl
  · exact ofJson_of_written (written_toJson { f with spec := f.spec.analyze.1 })

/-- A bound on the square of the output. -/
def squareBound : SpecFile where
  spec := {
    decls := [⟨"Output", .sequence .scalar, .dummy⟩]
    accuracy := some (.compare ⟨1, 9⟩
      (.binary {} (.identifier {} "Output") .pow (.constant {} "2")) .le (.constant {} "4")) }

/-- The square with a caret, and with a member that is no part of a term. -/
def squareJson : Json :=
  .object [("ty", .null), ("kind", .string "binary"),
    ("lhs", .object [("kind", .string "identifier"), ("name", .string "Output")]),
    ("op", .string "^"), ("rhs", .object [("kind", .string "constant"), ("value", .string "2")])]

/-- The comparison, written backwards. -/
def comparisonJson : Json :=
  .object [("span", .object [("end", .nat 9), ("start", .nat 1)]),
    ("rhs", .object [("value", .string "4"), ("kind", .string "constant")]),
    ("op", .string "<="), ("lhs", squareJson), ("kind", .string "compare")]

/-- The file with a comment, and with all defaults left out. -/
def squareBoundJson : Json :=
  .object [("comment", .array [.nat 1, .null]),
    ("spec", .object [("accuracy", comparisonJson),
      ("decls", .array [.object [("name", .string "Output"),
        ("ty", .object [("sequence", .string "scalar")])]])])]

theorem written_squareBoundJson : squareBound.Written squareBoundJson := by
  have houtput : (Term.identifier {} "Output").Written
      (.object [("kind", .string "identifier"), ("name", .string "Output")]) :=
    (Lists.keep rfl (.keep rfl (.drop rfl .nil))).arranged
  have htwo : (Term.constant {} "2").Written
      (.object [("kind", .string "constant"), ("value", .string "2")]) :=
    (Lists.keep rfl (.keep rfl (.drop rfl .nil))).arranged
  have hfour : (Term.constant {} "4").Written
      (.object [("value", .string "4"), ("kind", .string "constant")]) :=
    .intro (.keep rfl (.keep rfl (.drop rfl .nil))) (List.forall_mem_nil _) (.swap ..)
  have hspan : Span.Written ⟨1, 9⟩ (.object [("end", .nat 9), ("start", .nat 1)]) :=
    .intro (.keep rfl (.keep rfl .nil)) (List.forall_mem_nil _) (.swap ..)
  have hpow : ArithOp.pow.Written (.string "^") := .inr ⟨rfl, rfl⟩
  have hsquare : (Term.binary {} (.identifier {} "Output") .pow (.constant {} "2")).Written
      squareJson :=
    @Arranged.intro _ _ [("ty", .null)] _
      (.keep rfl (.keep houtput (.keep hpow (.keep htwo (.drop rfl .nil)))))
      (by simp [expressionParts, Span.member, Json.intact])
      (List.perm_append_singleton _ _).symm
  have haccuracy : OptionOf Clause.Written squareBound.spec.accuracy comparisonJson :=
    @Arranged.intro _ _ [] _
      (.keep rfl (.keep hsquare (.keep rfl (.keep hfour (.keep hspan .nil)))))
      (List.forall_mem_nil _) (by rw [List.append_nil]; exact (List.reverse_perm _).symm)
  have hdecls : ArrayOf (List.Forall₂ Decl.Written squareBound.spec.decls)
      (.array [.object [("name", .string "Output"),
        ("ty", .object [("sequence", .string "scalar")])]]) :=
    arrayOf_array (.cons (Lists.keep rfl (.keep rfl (.drop rfl .nil))).arranged .nil)
  have hspec : squareBound.spec.Written (.object [("accuracy", comparisonJson),
      ("decls", .array [.object [("name", .string "Output"),
        ("ty", .object [("sequence", .string "scalar")])]])]) :=
    @Arranged.intro _ _ [] _
      (.keep hdecls (.keep haccuracy (.drop rfl (.drop rfl (.drop rfl .nil)))))
      (List.forall_mem_nil _) (.swap ..)
  exact @Arranged.intro _ _ [("comment", .array [.nat 1, .null])] _
    (.drop rfl (.drop rfl (.keep hspec .nil)))
    (by simp [SpecFile.parts, Json.intact, allIntact, Json.nat])
    (List.perm_append_singleton _ _).symm

theorem ofJson_undoes_writing_squareBound :
    squareBound.Written squareBoundJson ∧ SpecFile.ofJson squareBoundJson = .ok squareBound :=
  ⟨written_squareBoundJson, (ofJson_undoes_writing written_squareBoundJson).2.1 (by decide)⟩

end SpecFile

end StatContract
