import StatContract.Decimal.Layout
import StatContract.Json.Reader
import StatContract.Mismatch
import StatContract.Spec.Schema

/-!
# Reading the serialized tree

Members may come in any order and unknown members are skipped. Members are
looked at in the order of the text, and the first fault decides: a bad value,
or a second member of a known name. Members that are missing are noticed
afterwards, in the order in which they are declared.

Expression objects are read in rounds over their members: first `span`, while
the rest is only checked for being readable, then `kind`, then the parts that
the kind asks for. Inside an expression everything has therefore been scanned
before it is interpreted, while outside of one the text is interpreted as it
comes. `Origin` records which of the two holds; the difference shows where an
array has too many items.
-/

namespace StatContract

/-- Why a specification file cannot be read. -/
inductive ReadError where
  /-- The text is not JSON. -/
  | malformed
  /-- The text is JSON of the wrong shape. -/
  | mismatch (m : Mismatch)

/-- How a message about an unreadable specification file starts. -/
def ReadError.headline : String := "malformed specification tree"

/-- Whether a value comes straight from the text or was scanned before. -/
inductive Origin where
  | text
  | scanned
  deriving DecidableEq

/-- The outcome of reading. -/
abbrev Read := Except ReadError

namespace Read

def mismatch {α : Type} (m : Mismatch) : Read α := .error (.mismatch m)

/-- What a value is, for a message about it. -/
def found? : Json → Option Found
  | .null => some .null
  | .bool b => some (.boolean b)
  | .number (.nat n) => some (.integer n)
  | .number (.negative n) => some (.integer (-(n : Int)))
  | .number (.float x) => some (.float (Layout.json.write x))
  | .string s => some (.text s)
  | .array _ => some .sequence
  | .object _ => some .map
  | .gap | .cut | .nameless => none

/-- Refuses a value of the wrong type. -/
def unexpected {α : Type} (v : Json) (expected : String) : Read α :=
  match found? v with
  | some found => mismatch (.invalidType found expected)
  | none => .error .malformed

/-- Refuses an array that is longer than the `fields` it stands for. -/
def tooLong {α : Type} (origin : Origin) (length fields : Nat) : Read α :=
  match origin with
  | .text => .error .malformed
  | .scanned => mismatch (.invalidLength length (toString fields ++ " elements in sequence"))

/-- Refuses an array that is too short for a structure. -/
def tooShort {α : Type} (length : Nat) (name : String) (fields : Nat) : Read α :=
  mismatch (.invalidLength length (name ++ " with " ++ toString fields ++ " elements"))

def text : Json → Read String
  | .string s => pure s
  | v => unexpected v "a string"

/-- A value or `null`. -/
def optional {α : Type} (read : Json → Read α) : Json → Read (Option α)
  | .null => pure none
  | v => some <$> read v

/-- A natural number of 32 bits. -/
def word : Json → Read UInt32
  | .number (.nat n) =>
    if n < UInt32.size then pure n.toUInt32 else mismatch (.invalidValue (.integer n) "u32")
  | .number (.negative n) => mismatch (.invalidValue (.integer (-(n : Int))) "u32")
  | v => unexpected v "u32"

/-- Reads the members of an object into a draft. `field` gives for a known
name the way in which its value changes the draft. -/
def members {σ : Type} (field : String → Option (σ → Json → Read σ)) :
    List String → σ → List (String × Json) → Read σ
  | _, draft, [] => pure draft
  | _, _, (_, .nameless) :: _ => .error .malformed
  | seen, draft, (name, v) :: rest =>
    match field name with
    | none => if v.skippable then members field seen draft rest else .error .malformed
    | some read =>
      if seen.contains name then mismatch (.duplicateField name)
      else do
        let draft ← read draft v
        members field (name :: seen) draft rest

/-- A member that has no default. -/
def required {α : Type} (name : String) : Option α → Read α
  | some a => pure a
  | none => mismatch (.missingField name)

/-- Reads all items of an array. -/
def items {α : Type} (read : Json → Read α) : List Json → Read (List α)
  | [] => pure []
  | v :: vs => do
    let a ← read v
    let rest ← items read vs
    pure (a :: rest)

/-- An alternative without content, by its spelling. It may also be written as
an object with that spelling as its only name and no value. -/
def variant {α : Type} (spellings : List (String × α)) (v : Json) : Read α :=
  let named (name : String) : Read α :=
    match spellings.lookup name with
    | some a => pure a
    | none => mismatch (.unknownVariant name (spellings.map (·.1)))
  match v with
  | .string name => named name
  | .object [(name, content)] => do
    let a ← named name
    match content with
    | .null | .object [] => pure a
    | content => unexpected content "unit"
  | .object _ => mismatch (.invalidValue .map "map with a single key")
  | v => unexpected v "string or map"

end Read

namespace Span

structure Draft where
  start : Option UInt32 := none
  stop : Option UInt32 := none

def Draft.field : String → Option (Draft → Json → Read Draft)
  | "start" => some fun d v => do return { d with start := some (← Read.word v) }
  | "end" => some fun d v => do return { d with stop := some (← Read.word v) }
  | _ => none

/-- Reads a span: an object, or an array of the two positions. -/
def ofJson (origin : Origin) : Json → Read Span
  | .object members => do
    let draft ← Read.members Draft.field [] {} members
    let start ← Read.required "start" draft.start
    let stop ← Read.required "end" draft.stop
    return ⟨start, stop⟩
  | .array [] => Read.tooShort 0 "struct Span" 2
  | .array [start] => do
    let _ ← Read.word start
    Read.tooShort 1 "struct Span" 2
  | .array (start :: stop :: rest) => do
    let start ← Read.word start
    let stop ← Read.word stop
    if rest.isEmpty then return ⟨start, stop⟩
    else Read.tooLong origin (2 + rest.length) 2
  | v => Read.unexpected v "struct Span"

end Span

namespace ValueType

def names : List String := ["scalar", "matrix", "sequence", "map"]

mutual

/-- Reads a value type: a name, or an object with one name and its content. -/
def ofJson : Json → Read ValueType
  | .string "scalar" => pure scalar
  | .string "matrix" => pure matrix
  | .string "sequence" => Read.mismatch (.invalidType .bareVariant "newtype variant")
  | .string "map" => Read.mismatch (.invalidType .bareVariant "tuple variant")
  | .string name => Read.mismatch (.unknownVariant name names)
  | .object ((_, .nameless) :: _) => .error .malformed
  | .object ((name, content) :: rest) => do
    let ty ← ofContent name content
    if rest.isEmpty then return ty else .error .malformed
  | _ => .error .malformed

/-- Reads the content that goes with the name of a type. -/
def ofContent : String → Json → Read ValueType
  | "scalar", .null => pure scalar
  | "scalar", v => Read.unexpected v "unit"
  | "matrix", .null => pure matrix
  | "matrix", v => Read.unexpected v "unit"
  | "sequence", v => do return sequence (← ofJson v)
  | "map", .array [] => Read.tooShort 0 "tuple variant ValueType::Map" 2
  | "map", .array [key] => do
    let _ ← ofJson key
    Read.tooShort 1 "tuple variant ValueType::Map" 2
  | "map", .array (key :: value :: rest) => do
    let key ← ofJson key
    let value ← ofJson value
    if rest.isEmpty then return map key value else .error .malformed
  | "map", v => Read.unexpected v "tuple variant ValueType::Map"
  | name, _ => Read.mismatch (.unknownVariant name names)

end

end ValueType

/-- The content of a member of an expression object. -/
inductive Field where
  | text (s : String)
  | clause (c : Clause)
  | term (t : Term)
  | terms (ts : List Term)
  | ranges (rs : List Range)
  | cmpOp (op : CmpOp)
  | arithOp (op : ArithOp)
  | logicOp (op : LogicOp)
  | rangeMode (m : RangeMode)
  | span (s : Span)

/-- The members of an object that were read, by name. -/
abbrev Fields := List (String × Field)

namespace Fields

def text (fs : Fields) (name : String) : Read String :=
  match fs.lookup name with
  | some (.text s) => pure s
  | _ => Read.mismatch (.missingField name)

def clause (fs : Fields) (name : String) : Read Clause :=
  match fs.lookup name with
  | some (.clause c) => pure c
  | _ => Read.mismatch (.missingField name)

def term (fs : Fields) (name : String) : Read Term :=
  match fs.lookup name with
  | some (.term t) => pure t
  | _ => Read.mismatch (.missingField name)

def terms (fs : Fields) (name : String) : Read (List Term) :=
  match fs.lookup name with
  | some (.terms ts) => pure ts
  | _ => Read.mismatch (.missingField name)

def ranges (fs : Fields) (name : String) : Read (List Range) :=
  match fs.lookup name with
  | some (.ranges rs) => pure rs
  | _ => Read.mismatch (.missingField name)

def cmpOp (fs : Fields) (name : String) : Read CmpOp :=
  match fs.lookup name with
  | some (.cmpOp op) => pure op
  | _ => Read.mismatch (.missingField name)

def arithOp (fs : Fields) (name : String) : Read ArithOp :=
  match fs.lookup name with
  | some (.arithOp op) => pure op
  | _ => Read.mismatch (.missingField name)

def logicOp (fs : Fields) (name : String) : Read LogicOp :=
  match fs.lookup name with
  | some (.logicOp op) => pure op
  | _ => Read.mismatch (.missingField name)

def rangeMode (fs : Fields) (name : String) : Read RangeMode :=
  match fs.lookup name with
  | some (.rangeMode m) => pure m
  | _ => Read.mismatch (.missingField name)

/-- The span among the members; it may be left out. -/
def span (fs : Fields) : Span :=
  match fs.lookup "span" with
  | some (.span s) => s
  | _ => Span.dummy

end Fields

/-- Builds a clause from its parts. -/
def ClauseKind.build (kind : ClauseKind) (span : Span) (fs : Fields) : Read Clause :=
  match kind with
  | forAll => do return .forAll span (← fs.ranges "ranges") (← fs.clause "body")
  | letIn => do return .letIn span (← fs.text "name") (← fs.term "value") (← fs.clause "body")
  | membership => do return .membership span (← fs.term "item") (← fs.term "collection")
  | approx => do return .approx span (← fs.term "lhs") (← fs.term "rhs")
  | compare => do return .compare span (← fs.term "lhs") (← fs.cmpOp "op") (← fs.term "rhs")
  | logic => do return .logic span (← fs.clause "lhs") (← fs.logicOp "op") (← fs.clause "rhs")
  | not => do return .not span (← fs.clause "inner")

/-- Builds a term from its parts. -/
def TermKind.build (kind : TermKind) (span : Span) (fs : Fields) : Read Term :=
  let note : Note := { span }
  match kind with
  | constant => do return .constant note (← fs.text "value")
  | probability trials => do return .probability note trials (← fs.clause "body")
  | probabilityOverItems => do
    return .probabilityOverItems note (← fs.ranges "ranges") (← fs.clause "body")
  | expectation trials => do return .expectation note trials (← fs.term "body")
  | expectationOverItems => do
    return .expectationOverItems note (← fs.ranges "ranges") (← fs.term "body")
  | lookup => do return .lookup note (← fs.term "collection") (← fs.term "key")
  | identifier => do return .identifier note (← fs.text "name")
  | tuple => do return .tuple note (← fs.terms "elements")
  | binary => do
    return .binary note (← fs.term "lhs") (← fs.arithOp "op") (← fs.term "rhs")
  | sizeOf => do return .sizeOf note (← fs.term "collection")
  | call => do return .call note (← fs.text "name") (← fs.terms "args")

/-- Builds a range from its parts. -/
def Range.build (fs : Fields) : Read Range := do
  return .mk fs.span (← fs.text "var") (← fs.term "collection") (← fs.rangeMode "mode")

namespace Read

/-- First round over the members of an expression: its span, while everything
else has to be readable. -/
def expressionSpan (origin : Origin) : Option Span → List (String × Json) → Read Span
  | span, [] => pure (span.getD Span.dummy)
  | span, (name, v) :: rest =>
    if name = "span" then
      if span.isSome then mismatch (.duplicateField "span")
      else do
        let s ← Span.ofJson origin v
        expressionSpan origin (some s) rest
    else if v.intact then expressionSpan origin span rest
    else .error .malformed

/-- A kind, by its spelling or by its place in the list of kinds. -/
def kind {κ : Type} (slug : κ → String) (all : List κ) (v : Json) : Read κ :=
  match v with
  | .string name =>
    match all.find? (slug · == name) with
    | some k => pure k
    | none => mismatch (.unknownVariant name (all.map slug))
  | .number (.nat n) =>
    match all[n]? with
    | some k => pure k
    | none => mismatch (.invalidValue (.integer n)
        ("variant index 0 <= i < " ++ toString all.length))
  | v => unexpected v "variant identifier"

/-- Second round over the members of an expression: its kind. -/
def expressionKind {κ : Type} (slug : κ → String) (all : List κ) :
    Option κ → List (String × Json) → Read κ
  | found, [] => required "kind" found
  | found, (name, v) :: rest =>
    if name = "kind" then
      if found.isSome then mismatch (.duplicateField "kind")
      else do
        let k ← kind slug all v
        expressionKind slug all (some k) rest
    else expressionKind slug all found rest

mutual

/-- Reads a clause, which is always an object. -/
def clause (origin : Origin) : Json → Read Clause
  | .object members => do
    let span ← expressionSpan origin none members
    let kind ← expressionKind ClauseKind.slug ClauseKind.all none members
    let fs ← fields kind.schema [] members
    kind.build span fs
  | v => unexpected v "struct BoolExpr"

/-- Reads a term, which is always an object. -/
def term (origin : Origin) : Json → Read Term
  | .object members => do
    let span ← expressionSpan origin none members
    let kind ← expressionKind TermKind.slug TermKind.all none members
    let fs ← fields kind.schema [] members
    kind.build span fs
  | v => unexpected v "struct DataExpr"

/-- Reads a range: an object, or an array of variable, collection, mode and
span. -/
def range : Json → Read Range
  | .object members => do
    let fs ← fields rangeSchema [] members
    Range.build fs
  | .array [] => tooShort 0 "struct Range" 4
  | .array [var] => do
    let _ ← text var
    tooShort 1 "struct Range" 4
  | .array [var, collection] => do
    let _ ← text var
    let _ ← term .scanned collection
    tooShort 2 "struct Range" 4
  | .array (var :: collection :: mode :: rest) => do
    let var ← text var
    let collection ← term .scanned collection
    let mode ← variant RangeMode.spellings mode
    match rest with
    | [] => return .mk Span.dummy var collection mode
    | span :: more =>
      let span ← Span.ofJson .scanned span
      if more.isEmpty then return .mk span var collection mode
      else tooLong .scanned (4 + more.length) 4
  | v => unexpected v "struct Range"

/-- Third round over the members of an expression: its parts. -/
def fields (schema : Schema) : Fields → List (String × Json) → Read Fields
  | fs, [] => pure fs
  | fs, (name, v) :: rest =>
    match schema.lookup name with
    | none => fields schema fs rest
    | some kind =>
      if (fs.lookup name).isSome then mismatch (.duplicateField name)
      else do
        let f : Field ← match kind with
          | .text => .text <$> text v
          | .clause => .clause <$> clause .scanned v
          | .term => .term <$> term .scanned v
          | .terms => match v with
            | .array items => .terms <$> terms items
            | v => unexpected v "a sequence"
          | .ranges => match v with
            | .array items => .ranges <$> ranges items
            | v => unexpected v "a sequence"
          | .cmpOp => .cmpOp <$> variant CmpOp.spellings v
          | .arithOp => .arithOp <$> variant ArithOp.spellings v
          | .logicOp => .logicOp <$> variant LogicOp.spellings v
          | .rangeMode => .rangeMode <$> variant RangeMode.spellings v
          | .span => .span <$> Span.ofJson .scanned v
        fields schema ((name, f) :: fs) rest

def terms : List Json → Read (List Term)
  | [] => pure []
  | v :: vs => do
    let t ← term .scanned v
    let ts ← terms vs
    pure (t :: ts)

def ranges : List Json → Read (List Range)
  | [] => pure []
  | v :: vs => do
    let r ← range v
    let rs ← ranges vs
    pure (r :: rs)

end

end Read

namespace Decl

structure Draft where
  name : Option String := none
  ty : Option ValueType := none
  span : Option Span := none

def Draft.field : String → Option (Draft → Json → Read Draft)
  | "name" => some fun d v => do return { d with name := some (← Read.text v) }
  | "ty" => some fun d v => do return { d with ty := some (← ValueType.ofJson v) }
  | "span" => some fun d v => do return { d with span := some (← Span.ofJson .text v) }
  | _ => none

/-- Reads a declaration: an object, or an array of name, type and span. -/
def ofJson : Json → Read Decl
  | .object members => do
    let draft ← Read.members Draft.field [] {} members
    let name ← Read.required "name" draft.name
    let ty ← Read.required "ty" draft.ty
    return ⟨name, ty, draft.span.getD Span.dummy⟩
  | .array [] => Read.tooShort 0 "struct Decl" 3
  | .array [name] => do
    let _ ← Read.text name
    Read.tooShort 1 "struct Decl" 3
  | .array (name :: ty :: rest) => do
    let name ← Read.text name
    let ty ← ValueType.ofJson ty
    match rest with
    | [] => return ⟨name, ty, Span.dummy⟩
    | span :: more =>
      let span ← Span.ofJson .text span
      if more.isEmpty then return ⟨name, ty, span⟩ else .error .malformed
  | v => Read.unexpected v "struct Decl"

/-- Reads a list of declarations. -/
def listOfJson : Json → Read (List Decl)
  | .array items => Read.items ofJson items
  | v => Read.unexpected v "a sequence"

end Decl

namespace Specification

structure Draft where
  decls : Option (List Decl) := none
  accuracy : Option Clause := none
  time : Option Term := none
  space : Option Term := none
  span : Option Span := none

def Draft.field : String → Option (Draft → Json → Read Draft)
  | "decls" => some fun d v => do return { d with decls := some (← Decl.listOfJson v) }
  | "accuracy" => some fun d v => do
    return { d with accuracy := ← Read.optional (Read.clause .text) v }
  | "time" => some fun d v => do return { d with time := ← Read.optional (Read.term .text) v }
  | "space" => some fun d v => do return { d with space := ← Read.optional (Read.term .text) v }
  | "span" => some fun d v => do return { d with span := some (← Span.ofJson .text v) }
  | _ => none

/-- The members in the order in which an array holds them. -/
def positions : List String := ["decls", "accuracy", "time", "space", "span"]

/-- Completes a draft; only the declarations have no default. -/
def ofDraft (draft : Draft) (decls : List Decl) : Specification :=
  ⟨decls, draft.accuracy, draft.time, draft.space, draft.span.getD Span.dummy⟩

/-- Reads a specification: an object, or an array of its parts. -/
def ofJson : Json → Read Specification
  | .object members => do
    let draft ← Read.members Draft.field [] {} members
    let decls ← Read.required "decls" draft.decls
    return ofDraft draft decls
  | .array [] => Read.tooShort 0 "struct Specification" 5
  | .array items => do
    let draft ← Read.members Draft.field [] {} (positions.zip items)
    let decls ← Read.required "decls" draft.decls
    if items.length ≤ positions.length then return ofDraft draft decls
    else .error .malformed
  | v => Read.unexpected v "struct Specification"

end Specification

namespace SpecFile

structure Draft where
  filename : Option String := none
  source : Option String := none
  spec : Option Specification := none

def Draft.field : String → Option (Draft → Json → Read Draft)
  | "filename" => some fun d v => do return { d with filename := ← Read.optional Read.text v }
  | "source" => some fun d v => do return { d with source := ← Read.optional Read.text v }
  | "spec" => some fun d v => do return { d with spec := some (← Specification.ofJson v) }
  | _ => none

/-- The members in the order in which an array holds them. -/
def positions : List String := ["filename", "source", "spec"]

/-- Reads a specification file from its JSON value. -/
def ofJson : Json → Read SpecFile
  | .object members => do
    let draft ← Read.members Draft.field [] {} members
    let spec ← Read.required "spec" draft.spec
    return ⟨draft.filename, draft.source, spec⟩
  | .array items => do
    let draft ← Read.members Draft.field [] {} (positions.zip items)
    match draft.spec with
    | none => Read.tooShort 2 "struct SpecFile" 3
    | some spec =>
      if items.length ≤ positions.length then return ⟨draft.filename, draft.source, spec⟩
      else .error .malformed
  | v => Read.unexpected v "struct SpecFile"

/-- The deepest nesting of arrays and objects in a specification file. -/
def nestingLimit : Nat := 127

/-- Reads a specification file from its text. -/
def parse (text : String) : Read SpecFile := do
  let t := Json.read nestingLimit text
  let file ← ofJson t.value
  if t.trailing then .error .malformed else return file

end SpecFile

end StatContract
