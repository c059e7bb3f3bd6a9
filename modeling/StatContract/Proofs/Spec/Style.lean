import StatContract.Proofs.Json.Arrangement
import StatContract.Spec.Writer

/-!
# Styles of writing a specification tree

One tree can be written in many ways: the members of an object may stand in any
order, members that no reader knows may stand among them, a member that has its
default value may be left out, and a power may be spelled with a caret.
`SpecFile.Written f j` says that `j` is the tree of `f` in some such style. Type
slots are not written. The writer's own style is one of them
(`SpecFile.written_toJson`).
-/

namespace StatContract

open Json

/-- The parts of a span. -/
def Span.parts (s : Span) : List Member :=
  [⟨"start", (· = .nat s.start.toNat), False⟩, ⟨"end", (· = .nat s.stop.toNat), False⟩]

/-- A span in some style. -/
def Span.Written (s : Span) : Json → Prop := Arranged s.parts

/-- The member for a span, which may be left out when it names no place. -/
def Span.member (s : Span) : Member := ⟨"span", s.Written, s = .dummy⟩

/-- An arithmetic operator; a power has two spellings. -/
def ArithOp.Written (op : ArithOp) (v : Json) : Prop :=
  v = .string op.symbol ∨ op = .pow ∧ v = .string "^"

/-- The members of an expression object: its kind, its parts and its span. -/
def Json.expressionParts (slug : String) (parts : List Member) (span : Span) : List Member :=
  ⟨"kind", TextOf slug, False⟩ :: (parts ++ [span.member])

/-- An expression object in some style. -/
def Json.Expression (slug : String) (parts : List Member) (span : Span) : Json → Prop :=
  Arranged (expressionParts slug parts span)

mutual

/-- A clause in some style. -/
def Clause.Written : Clause → Json → Prop
  | .forAll span ranges body =>
    Expression ClauseKind.forAll.slug
      [⟨"ranges", ArrayOf (Range.WrittenAll ranges), False⟩, ⟨"body", body.Written, False⟩] span
  | .letIn span name value body =>
    Expression ClauseKind.letIn.slug
      [⟨"name", TextOf name, False⟩, ⟨"value", value.Written, False⟩,
        ⟨"body", body.Written, False⟩] span
  | .membership span item collection =>
    Expression ClauseKind.membership.slug
      [⟨"item", item.Written, False⟩, ⟨"collection", collection.Written, False⟩] span
  | .approx span lhs rhs =>
    Expression ClauseKind.approx.slug
      [⟨"lhs", lhs.Written, False⟩, ⟨"rhs", rhs.Written, False⟩] span
  | .compare span lhs op rhs =>
    Expression ClauseKind.compare.slug
      [⟨"lhs", lhs.Written, False⟩, ⟨"op", TextOf op.symbol, False⟩,
        ⟨"rhs", rhs.Written, False⟩] span
  | .logic span lhs op rhs =>
    Expression ClauseKind.logic.slug
      [⟨"lhs", lhs.Written, False⟩, ⟨"op", TextOf op.symbol, False⟩,
        ⟨"rhs", rhs.Written, False⟩] span
  | .not span inner => Expression ClauseKind.not.slug [⟨"inner", inner.Written, False⟩] span

/-- A term in some style. -/
def Term.Written : Term → Json → Prop
  | .constant note value =>
    Expression TermKind.constant.slug [⟨"value", TextOf value, False⟩] note.span
  | .probability note trials body =>
    Expression (TermKind.probability trials).slug [⟨"body", body.Written, False⟩] note.span
  | .probabilityOverItems note ranges body =>
    Expression TermKind.probabilityOverItems.slug
      [⟨"ranges", ArrayOf (Range.WrittenAll ranges), False⟩, ⟨"body", body.Written, False⟩]
      note.span
  | .expectation note trials body =>
    Expression (TermKind.expectation trials).slug [⟨"body", body.Written, False⟩] note.span
  | .expectationOverItems note ranges body =>
    Expression TermKind.expectationOverItems.slug
      [⟨"ranges", ArrayOf (Range.WrittenAll ranges), False⟩, ⟨"body", body.Written, False⟩]
      note.span
  | .lookup note collection key =>
    Expression TermKind.lookup.slug
      [⟨"collection", collection.Written, False⟩, ⟨"key", key.Written, False⟩] note.span
  | .identifier note name =>
    Expression TermKind.identifier.slug [⟨"name", TextOf name, False⟩] note.span
  | .tuple note elements =>
    Expression TermKind.tuple.slug [⟨"elements", ArrayOf (Term.WrittenAll elements), False⟩]
      note.span
  | .binary note lhs op rhs =>
    Expression TermKind.binary.slug
      [⟨"lhs", lhs.Written, False⟩, ⟨"op", op.Written, False⟩, ⟨"rhs", rhs.Written, False⟩]
      note.span
  | .sizeOf note collection =>
    Expression TermKind.sizeOf.slug [⟨"collection", collection.Written, False⟩] note.span
  | .call note name args =>
    Expression TermKind.call.slug
      [⟨"name", TextOf name, False⟩, ⟨"args", ArrayOf (Term.WrittenAll args), False⟩]
      note.span

/-- Ranges in some style, one after the other. -/
def Range.WrittenAll : List Range → List Json → Prop
  | [], vs => vs = []
  | .mk span var collection mode :: rest, vs =>
    ∃ v more, vs = v :: more ∧
      Arranged [⟨"var", TextOf var, False⟩, ⟨"collection", collection.Written, False⟩,
        ⟨"mode", TextOf mode.slug, False⟩, span.member] v ∧
      Range.WrittenAll rest more

/-- Terms in some style, one after the other. -/
def Term.WrittenAll : List Term → List Json → Prop
  | [], vs => vs = []
  | t :: rest, vs => ∃ v more, vs = v :: more ∧ t.Written v ∧ Term.WrittenAll rest more

end

/-- The parts of a declaration. Its type is written in one way only. -/
def Decl.parts (d : Decl) : List Member :=
  [⟨"name", TextOf d.name, False⟩, ⟨"ty", (· = d.ty.toJson), False⟩, d.span.member]

/-- A declaration in some style. -/
def Decl.Written (d : Decl) : Json → Prop := Arranged d.parts

/-- The parts of a specification. Contracts that are absent may be left out. -/
def Specification.parts (s : Specification) : List Member :=
  [⟨"decls", ArrayOf (List.Forall₂ Decl.Written s.decls), False⟩,
    ⟨"accuracy", OptionOf Clause.Written s.accuracy, s.accuracy = none⟩,
    ⟨"time", OptionOf Term.Written s.time, s.time = none⟩,
    ⟨"space", OptionOf Term.Written s.space, s.space = none⟩, s.span.member]

/-- A specification in some style. -/
def Specification.Written (s : Specification) : Json → Prop := Arranged s.parts

/-- The parts of a specification file. -/
def SpecFile.parts (f : SpecFile) : List Member :=
  [⟨"filename", OptionOf TextOf f.filename, f.filename = none⟩,
    ⟨"source", OptionOf TextOf f.source, f.source = none⟩,
    ⟨"spec", f.spec.Written, False⟩]

/-- A specification file in some style. -/
def SpecFile.Written (f : SpecFile) : Json → Prop := Arranged f.parts

theorem Span.written_toJson (s : Span) : s.Written s.toJson :=
  (Lists.keep rfl (.keep rfl .nil)).arranged

theorem ArithOp.written_symbol (op : ArithOp) : op.Written (.string op.symbol) := .inl rfl

mutual

theorem Clause.written_toJson : ∀ c : Clause, c.Written c.toJson
  | .forAll span ranges body =>
      (Lists.keep rfl (.keep (arrayOf_array (Range.writtenAll_listToJson ranges))
        (.keep body.written_toJson (.keep span.written_toJson .nil)))).arranged
  | .letIn span _ value body =>
      (Lists.keep rfl (.keep rfl (.keep value.written_toJson
        (.keep body.written_toJson (.keep span.written_toJson .nil))))).arranged
  | .membership span item collection =>
      (Lists.keep rfl (.keep item.written_toJson
        (.keep collection.written_toJson (.keep span.written_toJson .nil)))).arranged
  | .approx span lhs rhs =>
      (Lists.keep rfl (.keep lhs.written_toJson
        (.keep rhs.written_toJson (.keep span.written_toJson .nil)))).arranged
  | .compare span lhs _ rhs =>
      (Lists.keep rfl (.keep lhs.written_toJson (.keep rfl
        (.keep rhs.written_toJson (.keep span.written_toJson .nil))))).arranged
  | .logic span lhs _ rhs =>
      (Lists.keep rfl (.keep lhs.written_toJson (.keep rfl
        (.keep rhs.written_toJson (.keep span.written_toJson .nil))))).arranged
  | .not span inner =>
      (Lists.keep rfl (.keep inner.written_toJson (.keep span.written_toJson .nil))).arranged

theorem Term.written_toJson : ∀ t : Term, t.Written t.toJson
  | .constant note _ | .identifier note _ =>
      (Lists.keep rfl (.keep rfl (.keep note.span.written_toJson .nil))).arranged
  | .probability note _ body =>
      (Lists.keep rfl (.keep body.written_toJson (.keep note.span.written_toJson .nil))).arranged
  | .probabilityOverItems note ranges body =>
      (Lists.keep rfl (.keep (arrayOf_array (Range.writtenAll_listToJson ranges))
        (.keep body.written_toJson (.keep note.span.written_toJson .nil)))).arranged
  | .expectation note _ body =>
      (Lists.keep rfl (.keep body.written_toJson (.keep note.span.written_toJson .nil))).arranged
  | .expectationOverItems note ranges body =>
      (Lists.keep rfl (.keep (arrayOf_array (Range.writtenAll_listToJson ranges))
        (.keep body.written_toJson (.keep note.span.written_toJson .nil)))).arranged
  | .lookup note collection key =>
      (Lists.keep rfl (.keep collection.written_toJson
        (.keep key.written_toJson (.keep note.span.written_toJson .nil)))).arranged
  | .tuple note elements =>
      (Lists.keep rfl (.keep (arrayOf_array (Term.writtenAll_listToJson elements))
        (.keep note.span.written_toJson .nil))).arranged
  | .binary note lhs op rhs =>
      (Lists.keep rfl (.keep lhs.written_toJson (.keep op.written_symbol
        (.keep rhs.written_toJson (.keep note.span.written_toJson .nil))))).arranged
  | .sizeOf note collection =>
      (Lists.keep rfl (.keep collection.written_toJson
        (.keep note.span.written_toJson .nil))).arranged
  | .call note _ args =>
      (Lists.keep rfl (.keep rfl (.keep (arrayOf_array (Term.writtenAll_listToJson args))
        (.keep note.span.written_toJson .nil)))).arranged

theorem Range.writtenAll_listToJson : ∀ rs : List Range, Range.WrittenAll rs (Range.listToJson rs)
  | [] => rfl
  | .mk span _ collection _ :: rest =>
      ⟨_, _, rfl, (Lists.keep rfl (.keep collection.written_toJson (.keep rfl
        (.keep span.written_toJson .nil)))).arranged, Range.writtenAll_listToJson rest⟩

theorem Term.writtenAll_listToJson : ∀ ts : List Term, Term.WrittenAll ts (Term.listToJson ts)
  | [] => rfl
  | t :: rest => ⟨_, _, rfl, t.written_toJson, Term.writtenAll_listToJson rest⟩

end

theorem Json.optionOf_ofOption {α : Type} {written : α → Json → Prop} {write : α → Json}
    (h : ∀ a, written a (write a)) : ∀ o : Option α, OptionOf written o (.ofOption write o)
  | none => rfl
  | some a => h a

theorem Decl.written_toJson (d : Decl) : d.Written d.toJson :=
  (Lists.keep rfl (.keep rfl (.keep d.span.written_toJson .nil))).arranged

theorem Specification.written_toJson (s : Specification) : s.Written s.toJson := by
  have hdecls : List.Forall₂ Decl.Written s.decls (s.decls.map Decl.toJson) := by
    rw [List.forall₂_map_right_iff, List.forall₂_same]
    exact fun d _ => d.written_toJson
  exact (Lists.keep (arrayOf_array hdecls)
    (.keep (optionOf_ofOption Clause.written_toJson s.accuracy)
      (.keep (optionOf_ofOption Term.written_toJson s.time)
        (.keep (optionOf_ofOption Term.written_toJson s.space)
          (.keep s.span.written_toJson .nil))))).arranged

/-- The writer's style is a style. -/
theorem SpecFile.written_toJson (f : SpecFile) : f.Written f.toJson :=
  (Lists.keep (optionOf_ofOption textOf_string f.filename)
    (.keep (optionOf_ofOption textOf_string f.source)
      (.keep f.spec.written_toJson .nil))).arranged

end StatContract
