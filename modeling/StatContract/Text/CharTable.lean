/-!
# Tables of characters

A set of characters is written as the ranges of their code points. Tables of
the Unicode standard are kept in this form, which is the form in which the
standard lists a property.
-/

namespace StatContract.Text

/-- A set of characters: ranges of code points, both ends included, in rising
order. -/
abbrev CharTable := List (Nat × Nat)

/-- Whether a character lies in one of the ranges. -/
def CharTable.contains (t : CharTable) (c : Char) : Bool :=
  t.any fun (low, high) => low ≤ c.toNat && c.toNat ≤ high

end StatContract.Text
