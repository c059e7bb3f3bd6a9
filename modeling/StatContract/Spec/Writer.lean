import StatContract.Json.Basic
import StatContract.Spec.Schema

/-!
# Writing the serialized tree

All members are written, also those that have their default value. The type
slots of terms are not part of the serialized tree.
-/

namespace StatContract

def Span.toJson (s : Span) : Json :=
  .object [("start", .nat s.start.toNat), ("end", .nat s.stop.toNat)]

def ValueType.toJson : ValueType → Json
  | scalar => .string "scalar"
  | matrix => .string "matrix"
  | sequence element => .object [("sequence", element.toJson)]
  | map key value => .object [("map", .array [key.toJson, value.toJson])]

mutual

def Clause.toJson : Clause → Json
  | .forAll span ranges body =>
    .object [("kind", .string ClauseKind.forAll.slug), ("ranges", .array (Range.listToJson ranges)),
      ("body", body.toJson), ("span", span.toJson)]
  | .letIn span name value body =>
    .object [("kind", .string ClauseKind.letIn.slug), ("name", .string name),
      ("value", value.toJson), ("body", body.toJson), ("span", span.toJson)]
  | .membership span item collection =>
    .object [("kind", .string ClauseKind.membership.slug), ("item", item.toJson),
      ("collection", collection.toJson), ("span", span.toJson)]
  | .approx span lhs rhs =>
    .object [("kind", .string ClauseKind.approx.slug), ("lhs", lhs.toJson),
      ("rhs", rhs.toJson), ("span", span.toJson)]
  | .compare span lhs op rhs =>
    .object [("kind", .string ClauseKind.compare.slug), ("lhs", lhs.toJson),
      ("op", .string op.symbol), ("rhs", rhs.toJson), ("span", span.toJson)]
  | .logic span lhs op rhs =>
    .object [("kind", .string ClauseKind.logic.slug), ("lhs", lhs.toJson),
      ("op", .string op.symbol), ("rhs", rhs.toJson), ("span", span.toJson)]
  | .not span inner =>
    .object [("kind", .string ClauseKind.not.slug), ("inner", inner.toJson),
      ("span", span.toJson)]

def Term.toJson : Term → Json
  | .constant note value =>
    .object [("kind", .string TermKind.constant.slug), ("value", .string value),
      ("span", note.span.toJson)]
  | .probability note trials body =>
    .object [("kind", .string (TermKind.probability trials).slug), ("body", body.toJson),
      ("span", note.span.toJson)]
  | .probabilityOverItems note ranges body =>
    .object [("kind", .string TermKind.probabilityOverItems.slug),
      ("ranges", .array (Range.listToJson ranges)), ("body", body.toJson),
      ("span", note.span.toJson)]
  | .expectation note trials body =>
    .object [("kind", .string (TermKind.expectation trials).slug), ("body", body.toJson),
      ("span", note.span.toJson)]
  | .expectationOverItems note ranges body =>
    .object [("kind", .string TermKind.expectationOverItems.slug),
      ("ranges", .array (Range.listToJson ranges)), ("body", body.toJson),
      ("span", note.span.toJson)]
  | .lookup note collection key =>
    .object [("kind", .string TermKind.lookup.slug), ("collection", collection.toJson),
      ("key", key.toJson), ("span", note.span.toJson)]
  | .identifier note name =>
    .object [("kind", .string TermKind.identifier.slug), ("name", .string name),
      ("span", note.span.toJson)]
  | .tuple note elements =>
    .object [("kind", .string TermKind.tuple.slug),
      ("elements", .array (Term.listToJson elements)), ("span", note.span.toJson)]
  | .binary note lhs op rhs =>
    .object [("kind", .string TermKind.binary.slug), ("lhs", lhs.toJson),
      ("op", .string op.symbol), ("rhs", rhs.toJson), ("span", note.span.toJson)]
  | .sizeOf note collection =>
    .object [("kind", .string TermKind.sizeOf.slug), ("collection", collection.toJson),
      ("span", note.span.toJson)]
  | .call note name args =>
    .object [("kind", .string TermKind.call.slug), ("name", .string name),
      ("args", .array (Term.listToJson args)), ("span", note.span.toJson)]

def Range.toJson : Range → Json
  | .mk span var collection mode =>
    .object [("var", .string var), ("collection", collection.toJson),
      ("mode", .string mode.slug), ("span", span.toJson)]

def Range.listToJson : List Range → List Json
  | [] => []
  | r :: rs => r.toJson :: Range.listToJson rs

def Term.listToJson : List Term → List Json
  | [] => []
  | t :: ts => t.toJson :: Term.listToJson ts

end

def Decl.toJson (d : Decl) : Json :=
  .object [("name", .string d.name), ("ty", d.ty.toJson), ("span", d.span.toJson)]

/-- A value that may be absent; `null` stands for absence. -/
def Json.ofOption {α : Type} (write : α → Json) : Option α → Json
  | none => .null
  | some a => write a

def Specification.toJson (s : Specification) : Json :=
  .object [("decls", .array (s.decls.map Decl.toJson)),
    ("accuracy", .ofOption Clause.toJson s.accuracy), ("time", .ofOption Term.toJson s.time),
    ("space", .ofOption Term.toJson s.space), ("span", s.span.toJson)]

/-- The serialized tree of a specification file. -/
def SpecFile.toJson (f : SpecFile) : Json :=
  .object [("filename", .ofOption .string f.filename), ("source", .ofOption .string f.source),
    ("spec", f.spec.toJson)]

end StatContract
