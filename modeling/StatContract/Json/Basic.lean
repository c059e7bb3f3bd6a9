/-!
# JSON values

Objects keep their members as a list, so order and repeated names are visible.
A number keeps whether it was written as an integer.

Two leaves stand for text that has no value. A `gap` is well-formed text that
nothing can be made of: a number beyond the largest double, a string with half
of a surrogate pair, or the contents of an array or object that is nested too
deeply. Skipping a gap is harmless, reading it is not. A `cut` marks the place
where a text stops being JSON; nothing follows it, and no reader gets past it.

A third leaf, `nameless`, stands among the members of an object in front of
one that has no name. It can be skipped like a gap, and a reader that looks
into the object gets no further.
-/

namespace StatContract

/-- A JSON number: a natural number or a negative integer, each of 64 bits, or
a double. -/
inductive Json.Number where
  | nat (n : Nat)
  /-- The integer `-n`, for positive `n`. -/
  | negative (n : Nat)
  | float (x : Float)

/-- A JSON value. -/
inductive Json where
  | null
  | bool (b : Bool)
  | number (n : Json.Number)
  | string (s : String)
  | array (items : List Json)
  | object (members : List (String × Json))
  | gap
  | cut
  | nameless

namespace Json

instance : Inhabited Json := ⟨null⟩

/-- The natural number `n`. -/
def nat (n : Nat) : Json := number (.nat n)

mutual

/-- Whether a value can be skipped: the text goes on after it. -/
def skippable : Json → Bool
  | array items => allSkippable items
  | object members => membersSkippable members
  | cut => false
  | _ => true

def allSkippable : List Json → Bool
  | [] => true
  | v :: vs => v.skippable && allSkippable vs

def membersSkippable : List (String × Json) → Bool
  | [] => true
  | (_, v) :: rest => v.skippable && membersSkippable rest

end

mutual

/-- Whether a value has no gap, no cut and no nameless member in it. -/
def intact : Json → Bool
  | array items => allIntact items
  | object members => membersIntact members
  | gap | cut | nameless => false
  | _ => true

def allIntact : List Json → Bool
  | [] => true
  | v :: vs => v.intact && allIntact vs

def membersIntact : List (String × Json) → Bool
  | [] => true
  | (_, v) :: rest => v.intact && membersIntact rest

end

/-- The value of the first member with the given name. -/
def get? (v : Json) (name : String) : Option Json :=
  match v with
  | object members => members.lookup name
  | _ => none

end Json

end StatContract
