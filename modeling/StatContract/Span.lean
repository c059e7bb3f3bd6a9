/-!
# Source positions

A span is the stretch of specification text that a node was read from. The
pair `0, 0` is the span of a node that was not read from any text, and it is
neutral for `Span.merge`, so a merged span never mentions a position that no
node has.
-/

namespace StatContract

/-- A stretch of source text, from `start` up to `stop`. Positions are 32-bit
words, as in the serialized tree. -/
structure Span where
  start : UInt32
  stop : UInt32
  deriving DecidableEq, Repr

namespace Span

/-- The span of a node without a place in any text. -/
def dummy : Span := ⟨0, 0⟩

instance : Inhabited Span := ⟨dummy⟩

/-- Whether the span names no place. -/
def isDummy (s : Span) : Bool := s == dummy

/-- The least stretch that covers both spans; a span without a place
contributes nothing. -/
def merge (a b : Span) : Span :=
  if a.isDummy then b
  else if b.isDummy then a
  else ⟨min a.start b.start, max a.stop b.stop⟩

@[simp] theorem merge_dummy_left (b : Span) : merge dummy b = b := by
  simp [merge, isDummy]

@[simp] theorem merge_dummy_right (a : Span) : merge a dummy = a := by
  by_cases h : a = dummy <;> simp [merge, isDummy, h]

end Span

end StatContract
