import StatContract.Json.Token

/-!
# Reading JSON

The second pass: tokens become a value on a stack of open arrays and objects.
The pass is a fold over the tokens, so it needs no bound on nesting of its
own; the limit that callers set empties what is nested deeper. When the text
goes wrong the open containers are kept as far as they were read, with a `cut`
at the end.
-/

namespace StatContract.Json

/-- An array or object that is still open, contents last first. An object also
has the name of the member being read, if there is one. -/
inductive Frame where
  | array (rev : List Json)
  | object (rev : List (String × Json)) (name : Option String)

namespace Frame

/-- The container, complete. -/
def closed : Frame → Json
  | array rev => .array rev.reverse
  | object rev _ => .object rev.reverse

/-- The container when the text goes wrong inside of it, at `v`. -/
def abandoned (v : Json) : Frame → Json
  | array rev => .array (v :: rev).reverse
  | object rev (some name) => .object ((name, v) :: rev).reverse
  | object rev none => .object (("", v) :: ("", .nameless) :: rev).reverse

/-- The container with only `v`, a gap or a cut, in place of its contents. -/
def hollow (v : Json) : Frame → Json
  | array _ => .array [v]
  | object _ _ => .object [("", .nameless), ("", v)]

end Frame

/-- What may come next. -/
inductive Expect where
  | value
  /-- A value, or the end of an array that was just opened. -/
  | firstItem
  /-- A name, or the end of an object that was just opened. -/
  | firstName
  | name
  | colon
  /-- The end of a container, or a comma. -/
  | next
  /-- The value is complete. -/
  | finished (v : Json)
  /-- The text went wrong; what there is of the value. -/
  | broken (v : Json)
  /-- The value is complete, but the text is not. -/
  | trailing (v : Json)

/-- The reader: open containers, innermost first, and what may come next. -/
structure Builder where
  stack : List Frame := []
  expect : Expect := .value

namespace Builder

/-- Puts a complete value into the innermost open container. -/
def place (stack : List Frame) (v : Json) : Builder :=
  match stack with
  | [] => ⟨[], .finished v⟩
  | .array rev :: outer => ⟨.array (v :: rev) :: outer, .next⟩
  | .object rev name :: outer => ⟨.object ((name.getD "", v) :: rev) none :: outer, .next⟩

/-- Gives up: every open container ends with what was read of it. One that is
nested too deeply is not looked into. -/
def abandon (limit : Nat) (stack : List Frame) : Builder :=
  let value := match stack.drop (stack.length - (limit + 1)) with
    | [] => .cut
    | inner :: outer =>
      let start := if outer.length < limit then inner.abandoned .cut else inner.hollow .cut
      outer.foldl (fun v frame => frame.abandoned v) start
  ⟨[], .broken value⟩

/-- Closes the innermost container. -/
def close (limit : Nat) (outer : List Frame) (inner : Frame) : Builder :=
  place outer (if outer.length < limit then inner.closed else inner.hollow .gap)

/-- Takes a token where a name is due. The member of a string that is no text is
kept without a name. -/
def takeName (limit : Nat) (outer : List Frame) (rev : List (String × Json)) :
    Token → Builder
  | .scalar (.string s) => ⟨.object rev (some s) :: outer, .colon⟩
  | .unpaired => ⟨.object (("", .nameless) :: rev) (some "") :: outer, .colon⟩
  | _ => abandon limit (.object rev none :: outer)

/-- Takes one token. -/
def step (limit : Nat) (b : Builder) (t : Token) : Builder :=
  match b.expect, t, b.stack with
  | .finished v, _, _ => ⟨[], .trailing v⟩
  | .trailing _, _, _ => b
  | .broken _, _, _ => b
  | .value, .scalar v, stack => place stack v
  | .firstItem, .scalar v, stack => place stack v
  | .value, .unpaired, stack => place stack .gap
  | .firstItem, .unpaired, stack => place stack .gap
  | .value, .mark '[', stack => ⟨.array [] :: stack, .firstItem⟩
  | .firstItem, .mark '[', stack => ⟨.array [] :: stack, .firstItem⟩
  | .value, .mark '\x7b', stack => ⟨.object [] none :: stack, .firstName⟩
  | .firstItem, .mark '\x7b', stack => ⟨.object [] none :: stack, .firstName⟩
  | .firstItem, .mark ']', .array rev :: outer => close limit outer (.array rev)
  | .next, .mark ']', .array rev :: outer => close limit outer (.array rev)
  | .next, .mark ',', .array rev :: outer => ⟨.array rev :: outer, .value⟩
  | .firstName, .mark '\x7d', .object rev _ :: outer => close limit outer (.object rev none)
  | .next, .mark '\x7d', .object rev _ :: outer => close limit outer (.object rev none)
  | .next, .mark ',', .object rev _ :: outer => ⟨.object rev none :: outer, .name⟩
  | .firstName, t, .object rev _ :: outer => takeName limit outer rev t
  | .name, t, .object rev _ :: outer => takeName limit outer rev t
  | .colon, .mark ':', stack => ⟨stack, .value⟩
  | _, _, stack => abandon limit stack

end Builder

/-- A JSON text that was read: its value as far as it goes, and whether
something else follows that value. -/
structure Text where
  value : Json
  trailing : Bool

/-- Reads a text. Arrays and objects nested more than `limit` deep have a gap in
place of their contents; the outermost one counts as one. -/
def read (limit : Nat) (text : String) : Text :=
  let b := (Token.scan text.toList).foldl (Builder.step limit) {}
  match b.expect with
  | .finished v => ⟨v, false⟩
  | .trailing v => ⟨v, true⟩
  | .broken v => ⟨v, false⟩
  | _ => match (Builder.abandon limit b.stack).expect with
    | .broken v => ⟨v, false⟩
    | _ => ⟨.cut, false⟩

/-- The value of a well-formed text, whatever its nesting. -/
def parse? (text : String) : Option Json :=
  let t := read text.length text
  if !t.trailing && t.value.intact then some t.value else none

end StatContract.Json
